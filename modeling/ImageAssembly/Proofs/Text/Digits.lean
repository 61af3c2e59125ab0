import Mathlib.Data.List.Basic
import Mathlib.Tactic.Ring

/-! Decimal digits as numbers. The digits of a number are what its text is made of, and a run of digits,
zeros in front of it or not, is read as the number again. -/

namespace ImageAssembly.Digits

/-- The digits of a number, the highest first. -/
def decimalDigits (n : Nat) : List Nat :=
  if n < 10 then [n] else decimalDigits (n / 10) ++ [n % 10]

theorem toDigits_eq_map (n : Nat) : Nat.toDigits 10 n = (decimalDigits n).map Nat.digitChar := by
  fun_induction decimalDigits n with
  | case1 n h => rw [Nat.toDigits_of_lt_base h]; rfl
  | case2 n h ih =>
    rw [Nat.toDigits_of_base_le (by decide) (Nat.le_of_not_lt h), ih, List.map_append]
    rfl

theorem lt_of_mem_decimalDigits {n d : Nat} (h : d ∈ decimalDigits n) : d < 10 := by
  fun_induction decimalDigits n with
  | case1 n hn => simp only [List.mem_singleton] at h; omega
  | case2 n hn ih =>
    simp only [List.mem_append, List.mem_singleton] at h
    rcases h with h | h
    · exact ih h
    · omega

theorem decimalDigits_ne_nil (n : Nat) : decimalDigits n ≠ [] := by
  rw [decimalDigits]
  split <;> simp

theorem decimalDigits_zero : decimalDigits 0 = [0] := by rw [decimalDigits]; rfl

theorem head?_decimalDigits {n : Nat} (h : 0 < n) : (decimalDigits n).head? ≠ some 0 := by
  fun_induction decimalDigits n with
  | case1 n hn => simp only [List.head?_cons, ne_eq, Option.some.injEq]; omega
  | case2 n hn ih =>
    rw [List.head?_append_of_ne_nil _ (decimalDigits_ne_nil _)]
    exact ih (by omega)

theorem lt_of_mem_zeros {n d : Nat} (h : d ∈ List.replicate n 0) : d < 10 := by
  rw [List.eq_of_mem_replicate h]
  decide

/-- The number that digits write, read onto `acc`. -/
def digitsNumber (acc : Nat) (ds : List Nat) : Nat := ds.foldl (fun n d => 10 * n + d) acc

theorem digitsNumber_append (acc : Nat) (a b : List Nat) :
    digitsNumber acc (a ++ b) = digitsNumber (digitsNumber acc a) b := List.foldl_append

theorem digitsNumber_decimalDigits (n : Nat) : digitsNumber 0 (decimalDigits n) = n := by
  fun_induction decimalDigits n with
  | case1 n h => simp [digitsNumber]
  | case2 n h ih =>
    rw [digitsNumber_append, ih]
    simp only [digitsNumber, List.foldl_cons, List.foldl_nil]
    omega

theorem length_decimalDigits_pos (n : Nat) : 0 < (decimalDigits n).length :=
  List.length_pos_iff.2 (decimalDigits_ne_nil n)

theorem digitsNumber_lt {acc : Nat} {ds : List Nat} (h : ∀ d ∈ ds, d < 10) :
    digitsNumber acc ds < (acc + 1) * 10 ^ ds.length := by
  induction ds generalizing acc with
  | nil => simp [digitsNumber]
  | cons d ds ih =>
    have hd := h d (by simp)
    have := @ih (10 * acc + d) fun e he => h e (by simp [he])
    calc digitsNumber acc (d :: ds) < (10 * acc + d + 1) * 10 ^ ds.length := this
      _ ≤ ((acc + 1) * 10) * 10 ^ ds.length := Nat.mul_le_mul_right _ (by omega)
      _ = (acc + 1) * 10 ^ (d :: ds).length := by rw [List.length_cons, pow_succ, mul_assoc, mul_comm 10]

theorem mul_pow_le_digitsNumber (acc : Nat) (ds : List Nat) :
    acc * 10 ^ ds.length ≤ digitsNumber acc ds := by
  induction ds generalizing acc with
  | nil => simp [digitsNumber]
  | cons d ds ih =>
    calc acc * 10 ^ (d :: ds).length = 10 * acc * 10 ^ ds.length := by
          rw [List.length_cons, pow_succ, mul_comm 10, mul_assoc, mul_comm 10]
      _ ≤ (10 * acc + d) * 10 ^ ds.length := Nat.mul_le_mul_right _ (by omega)
      _ ≤ digitsNumber (10 * acc + d) ds := ih _

theorem digitsNumber_of_cons {n d : Nat} {ds : List Nat} (h : decimalDigits n = d :: ds) : digitsNumber d ds = n := by
  rw [← digitsNumber_decimalDigits n, h]
  simp [digitsNumber]

/-- A number is at least the power of ten that its first digit counts. -/
theorem pow_length_le {n d : Nat} {ds : List Nat} (hn : 0 < n) (h : decimalDigits n = d :: ds) :
    10 ^ ds.length ≤ n := by
  have hd : 0 < d := by
    have hfirst := head?_decimalDigits hn
    rw [h] at hfirst
    exact Nat.pos_of_ne_zero fun h0 => hfirst (by simp [h0])
  calc 10 ^ ds.length ≤ d * 10 ^ ds.length := Nat.le_mul_of_pos_left _ hd
    _ ≤ digitsNumber d ds := mul_pow_le_digitsNumber d ds
    _ = n := digitsNumber_of_cons h

/-- Digits are told from the number they write and how many they are. -/
theorem eq_of_digitsNumber_eq {ds es : List Nat} (hd : ∀ d ∈ ds, d < 10) (he : ∀ d ∈ es, d < 10)
    (hlen : ds.length = es.length) {acc acc' : Nat} (h : digitsNumber acc ds = digitsNumber acc' es) :
    acc = acc' ∧ ds = es := by
  induction ds generalizing es acc acc' with
  | nil =>
    rw [List.length_nil, eq_comm, List.length_eq_zero_iff] at hlen
    subst hlen
    exact ⟨h, rfl⟩
  | cons d ds ih =>
    cases es with
    | nil => cases hlen
    | cons e es =>
      have hrest : digitsNumber (10 * acc + d) ds = digitsNumber (10 * acc' + e) es := h
      obtain ⟨hnum, rfl⟩ := ih (fun x hx => hd x (.tail _ hx)) (fun x hx => he x (.tail _ hx))
        (Nat.succ.inj hlen) hrest
      have hd10 := hd d (.head _)
      have he10 := he e (.head _)
      obtain rfl : d = e := by omega
      exact ⟨by omega, rfl⟩

end ImageAssembly.Digits
