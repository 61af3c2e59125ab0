import ImageAssembly.Proofs.Text.Digits
import ImageAssembly.Text.Integer
import Mathlib.Tactic.IntervalCases

/-! Decimal texts of integers. The characters that have a value are the ten digits, and the text of an integer is read
as that integer where it fits into the bits that are asked for. -/

namespace ImageAssembly.Text.Integer

open Digits

/-! ### Digits -/

theorem digitValue?_digitChar : ∀ d < 10, digitValue? (Nat.digitChar d) = some d := by decide

theorem isDigit_digitChar : ∀ d < 10, (Nat.digitChar d).isDigit = true := by decide

theorem digitValue?_eq_some {c : Char} {d : Nat} (h : digitValue? c = some d) : d < 10 ∧ c = Nat.digitChar d := by
  unfold digitValue? at h
  split_ifs at h with hc
  injection h with h
  subst h
  rw [Char.isDigit, Bool.and_eq_true, decide_eq_true_iff, decide_eq_true_iff] at hc
  obtain ⟨h0, h9⟩ := hc
  have hlow : 48 ≤ c.toNat := h0
  have hhigh : c.toNat ≤ 57 := h9
  refine ⟨by omega, ?_⟩
  apply Char.toNat_inj.1
  rw [Nat.toNat_digitChar_of_lt_ten (by omega)]
  omega

/-! ### Texts -/

theorem magnitude_map {limit acc : Nat} {beyond : Fault} {ds : List Nat} (hds : ∀ d ∈ ds, d < 10)
    (h : digitsNumber acc ds ≤ limit) :
    magnitude limit beyond acc (ds.map Nat.digitChar) = .ok (digitsNumber acc ds) := by
  induction ds generalizing acc with
  | nil => rfl
  | cons d ds ih =>
    have hle : 10 * acc + d ≤ limit :=
      (Nat.le_mul_of_pos_right _ (by positivity)).trans ((mul_pow_le_digitsNumber _ ds).trans h)
    simp only [List.map_cons, magnitude, digitValue?_digitChar d (hds d (.head _)), if_pos hle]
    exact ih (fun e he => hds e (.tail _ he)) h

theorem magnitude_toDigits {limit n : Nat} {beyond : Fault} (h : n ≤ limit) :
    magnitude limit beyond 0 (Nat.toDigits 10 n) = .ok n := by
  rw [toDigits_eq_map, magnitude_map (fun d => lt_of_mem_decimalDigits), digitsNumber_decimalDigits]
  rwa [digitsNumber_decimalDigits]

/-- The decimal text of an integer. -/
theorem toList_toString (n : Int) :
    (toString n).toList = if n < 0 then '-' :: Nat.toDigits 10 n.natAbs else Nat.toDigits 10 n.natAbs := by
  cases n with
  | ofNat n =>
    rw [if_neg (by simp)]
    exact String.toList_ofList
  | negSucc n =>
    rw [if_pos (Int.negSucc_lt_zero n)]
    show ("-" ++ String.ofList (Nat.toDigits 10 (n + 1))).toList = _
    rw [String.toList_append]
    exact congrArg ('-' :: ·) String.toList_ofList

/-- The digits of a number begin with one. -/
theorem exists_toDigits_eq (n : Nat) : ∃ d < 10, ∃ r, Nat.toDigits 10 n = Nat.digitChar d :: r := by
  obtain ⟨d, ds, hds⟩ := List.exists_cons_of_ne_nil (decimalDigits_ne_nil n)
  refine ⟨d, lt_of_mem_decimalDigits (n := n) (by rw [hds]; exact .head _), ds.map Nat.digitChar, ?_⟩
  rw [toDigits_eq_map, hds, List.map_cons]

theorem signed_digit (bits : Nat) {d : Nat} (h : d < 10) (r : List Char) :
    signed bits (Nat.digitChar d :: r) =
      (magnitude (bound (bits - 1) - 1) .tooLarge 0 (Nat.digitChar d :: r)).map Int.ofNat := by
  interval_cases d <;> rfl

theorem signed_minus (bits : Nat) {d : Nat} (h : d < 10) (r : List Char) :
    signed bits ('-' :: Nat.digitChar d :: r) =
      (magnitude (bound (bits - 1)) .tooSmall 0 (Nat.digitChar d :: r)).map fun n => -(n : Int) := by
  interval_cases d <;> rfl

/-- The decimal text of an integer is read as that integer where it has no more than `bits` bits. -/
theorem signed_toString {bits : Nat} {n : Int} (hlow : -(bound (bits - 1) : Int) ≤ n) (hhigh : n < bound (bits - 1)) :
    signed bits (toString n).toList = .ok n := by
  obtain ⟨d, hd, r, hr⟩ := exists_toDigits_eq n.natAbs
  rw [toList_toString]
  split_ifs with hneg
  · rw [hr, signed_minus bits hd, ← hr, magnitude_toDigits (by omega)]
    show Except.ok (-(n.natAbs : Int)) = Except.ok n
    congr 1
    omega
  · rw [hr, signed_digit bits hd, ← hr, magnitude_toDigits (by omega)]
    show Except.ok (n.natAbs : Int) = Except.ok n
    congr 1
    omega

end ImageAssembly.Text.Integer
