import ImageAssembly.Decimal.Shortest
import Mathlib.Algebra.Order.Field.Basic
import Mathlib.Algebra.Order.Field.Rat
import Mathlib.Tactic.FieldSimp
import Mathlib.Tactic.Linarith
import Mathlib.Tactic.Positivity
import Mathlib.Tactic.Ring

/-! What the shortest decimal of a double is worth. The decimal has digits unless it stands for zero, and
it is not above the middle of the gap over the double. -/

namespace ImageAssembly.Decimal

/-- The rational number that a decimal is. -/
def Scaled.value (v : Scaled) : ℚ := v.digits * 10 ^ v.scale

theorem zpow_eq_div (b : ℚ) (z : ℤ) : b ^ z = b ^ z.toNat / b ^ (-z).toNat := by
  rcases le_total 0 z with h | h
  · have h1 : (-z).toNat = 0 := by omega
    rw [h1, pow_zero, div_one, ← zpow_natCast, Int.toNat_of_nonneg h]
  · have h1 : z.toNat = 0 := by omega
    have h2 : ((-z).toNat : ℤ) = -z := Int.toNat_of_nonneg (by omega)
    rw [h1, pow_zero, one_div, ← zpow_natCast, h2, zpow_neg, inv_inv]

/-- Comparing scaled numbers is comparing natural numbers. -/
theorem scaled_le_iff (d k : ℕ) (s q : ℤ) :
    d * Nat.pow 10 s.toNat * Nat.pow 2 (-q).toNat ≤ k * Nat.pow 2 q.toNat * Nat.pow 10 (-s).toNat ↔
      (d : ℚ) * 10 ^ s ≤ k * 2 ^ q := by
  rw [zpow_eq_div 10 s, zpow_eq_div 2 q, ← mul_div_assoc, ← mul_div_assoc,
    div_le_div_iff₀ (by positivity) (by positivity)]
  simp only [Nat.pow_eq]
  norm_cast

theorem roundHalfEven_eq (num den : Nat) :
    roundHalfEven num den = num / den ∨ roundHalfEven num den = num / den + 1 := by
  rw [roundHalfEven]
  split_ifs <;> simp

namespace Binary64

/-- The rational number that a finite magnitude is. -/
def value (x : Binary64) : ℚ := x.significand * 2 ^ x.exponent

theorem significand_ne_zero {x : Binary64} (h : x.isZero = false) : x.significand ≠ 0 := by
  have hm : x.magnitudeBits ≠ 0 := by simpa [isZero] using h
  have h52 : Nat.pow 2 52 = 4503599627370496 := rfl
  rw [significand, h52]
  split_ifs with hs
  · rwa [Nat.mod_eq_of_lt hs]
  · omega

/-- A decimal that reads back is not above the middle of the gap over the double. -/
theorem le_of_reads {x : Binary64} {d : Nat} {s : Int} (h : x.reads d s = true) :
    (d : ℚ) * 10 ^ s ≤ (4 * x.significand + 2 : ℕ) * 2 ^ (x.exponent - 2) := by
  rw [← scaled_le_iff]
  rw [reads] at h
  split at h
  · simp only [Bool.and_eq_true, decide_eq_true_eq] at h
    exact h.2
  · simp only [Bool.and_eq_true, decide_eq_true_eq] at h
    exact h.2.le

theorem ne_zero_of_reads {x : Binary64} {d : Nat} {s : Int} (hx : x.isZero = false)
    (h : x.reads d s = true) : d ≠ 0 := by
  rintro rfl
  have hm := significand_ne_zero hx
  have hlow : ∀ k : Nat, 0 < k →
      0 < k * Nat.pow 2 (x.exponent - 2).toNat * Nat.pow 10 (-s).toNat := by
    intro k hk
    simp only [Nat.pow_eq]
    positivity
  have hbelow : 0 < if x.significand = Nat.pow 2 52 ∧ -1074 < x.exponent then 4 * x.significand - 1
      else 4 * x.significand - 2 := by
    split <;> omega
  have := hlow _ hbelow
  rw [reads] at h
  split at h
  · simp only [Bool.and_eq_true, decide_eq_true_eq, Nat.zero_mul] at h
    omega
  · simp only [Bool.and_eq_true, decide_eq_true_eq, Nat.zero_mul] at h
    omega

/-- What is found on a grid reads back. -/
theorem reads_of_onGrid {x : Binary64} {s : Int} {d : Nat} (h : x.onGrid s = some d) :
    x.reads d s = true := by
  rw [onGrid] at h
  split at h
  · next h1 h2 =>
    rw [Option.some.injEq] at h
    rcases roundHalfEven_eq (x.ratio.1 * Nat.pow 10 (-s).toNat) (x.ratio.2 * Nat.pow 10 s.toNat)
      with he | he
    · rw [← h, he]; exact h1
    · rw [← h, he]; exact h2
  · next h1 h2 => rw [Option.some.injEq] at h; exact h ▸ h1
  · next h1 h2 => rw [Option.some.injEq] at h; exact h ▸ h2
  · simp at h

theorem firstGrid_eq (x : Binary64) (k : Int) (n : Nat) :
    firstGrid x k n = ⟨0, 0⟩ ∨
      x.reads (firstGrid x k n).digits (firstGrid x k n).scale = true := by
  induction n with
  | zero => exact .inl rfl
  | succ n ih =>
    rw [firstGrid]
    split
    · next d hd => exact .inr (reads_of_onGrid hd)
    · exact ih

theorem value_normal (fuel : Nat) (v : Scaled) : (Scaled.normal fuel v).value = v.value := by
  induction fuel generalizing v with
  | zero => rfl
  | succ fuel ih =>
    rw [Scaled.normal]
    split
    · next h =>
      obtain ⟨k, hk⟩ := Nat.dvd_of_mod_eq_zero h.1
      rw [ih, Scaled.value, Scaled.value, hk, Nat.mul_div_cancel_left k (by decide),
        zpow_add₀ (by norm_num), zpow_one]
      push_cast
      ring
    · rfl

theorem normal_digits_ne_zero (fuel : Nat) {v : Scaled} (h : v.digits ≠ 0) :
    (Scaled.normal fuel v).digits ≠ 0 := by
  induction fuel generalizing v with
  | zero => exact h
  | succ fuel ih =>
    rw [Scaled.normal]
    split
    · next hv =>
      apply ih
      have := Nat.dvd_of_mod_eq_zero hv.1
      exact fun h0 => h (by simp only at h0; omega)
    · exact h

theorem normal_zero (fuel : Nat) : Scaled.normal fuel ⟨0, 0⟩ = ⟨0, 0⟩ := by
  cases fuel <;> simp [Scaled.normal]

/-- The shortest decimal has digits, or it is the plain zero. -/
theorem shortest_eq_zero_or (x : Binary64) : x.shortest = ⟨0, 0⟩ ∨ x.shortest.digits ≠ 0 := by
  rw [shortest]
  split
  · exact .inl rfl
  · next h =>
    have hx : x.isZero = false := by simpa using h
    rcases firstGrid_eq x x.decimalExponent 17 with h0 | h0
    · rw [h0, normal_zero]
      exact .inl rfl
    · exact .inr (normal_digits_ne_zero _ (ne_zero_of_reads hx h0))

/-- The shortest decimal is not above the middle of the gap over the double. -/
theorem value_shortest_le (x : Binary64) :
    x.shortest.value ≤ (4 * x.significand + 2 : ℕ) * 2 ^ (x.exponent - 2) := by
  have h0 : (0 : ℚ) ≤ (4 * x.significand + 2 : ℕ) * 2 ^ (x.exponent - 2) :=
    mul_nonneg (Nat.cast_nonneg _) (zpow_nonneg (by norm_num) _)
  rw [shortest]
  split
  · simpa [Scaled.value] using h0
  · rw [value_normal]
    rcases firstGrid_eq x x.decimalExponent 17 with h | h
    · rw [h]
      simpa [Scaled.value] using h0
    · exact le_of_reads h

end Binary64

end ImageAssembly.Decimal
