import ImageAssembly.Proofs.Decimal.Rounding
import ImageAssembly.Proofs.Json.Numeral
import Mathlib.Tactic.NormNum.Pow

/-! Doubles through text and back. What is read of a numeral is finite or refused, and the numeral that a
finite double is written as is never refused: the shortest decimal is too small to be scaled beyond the
last double, but for the last three doubles, which are looked at one by one. -/

namespace ImageAssembly.Json

open Decimal

/-! ### Scaling by powers of ten -/

theorem value_powerOfTen_le (k : Nat) :
    (Binary64.powerOfTen k).value ≤ 10 ^ k * (1 + 2 ^ (-53 : ℤ)) := by
  have hpow : 0 < Nat.pow 10 k := by simp only [Nat.pow_eq]; positivity
  have hcast : ((Nat.pow 10 k : ℕ) : ℚ) / (1 : ℕ) = 10 ^ k := by simp
  have hone : (2 : ℚ) ^ (-1022 : ℤ) ≤ (Nat.pow 10 k : ℕ) / (1 : ℕ) := by
    rw [hcast]
    exact (zpow_le_one_of_nonpos₀ (by norm_num) (by norm_num)).trans (one_le_pow₀ (by norm_num))
  rw [← hcast]
  exact Binary64.value_ofRatio_le hpow Nat.one_pos hone

theorem two_le_value_powerOfTen {k : Nat} (h : 0 < k) : 2 ≤ (Binary64.powerOfTen k).value := by
  have hpow : 0 < Nat.pow 10 k := by simp only [Nat.pow_eq]; positivity
  have hten : (2 : ℚ) ^ (1 : ℤ) ≤ (Nat.pow 10 k : ℕ) / (1 : ℕ) := by
    simp only [Nat.pow_eq, Nat.cast_pow, Nat.cast_one, div_one, zpow_one]
    calc (2 : ℚ) ≤ 10 ^ 1 := by norm_num
      _ ≤ ((10 : ℕ) : ℚ) ^ k := by
        push_cast
        exact pow_le_pow_right₀ (by norm_num) h
  have hval := Binary64.pow_le_value_ofRatio hpow Nat.one_pos (by norm_num) (by norm_num) hten
  rwa [zpow_one] at hval

theorem value_ofNat_le {s : Nat} (h : 0 < s) :
    (Binary64.ofNat s).value ≤ s * (1 + 2 ^ (-53 : ℤ)) := by
  have hone : (2 : ℚ) ^ (-1022 : ℤ) ≤ s / (1 : ℕ) := by
    rw [Nat.cast_one, div_one]
    exact (zpow_le_one_of_nonpos₀ (by norm_num) (by norm_num)).trans (by exact_mod_cast h)
  have hval := Binary64.value_ofRatio_le h Nat.one_pos hone
  rwa [Nat.cast_one, div_one] at hval

theorem value_ofNat_pos {s : Nat} (h : 0 < s) : 0 < (Binary64.ofNat s).value := by
  have hone : (2 : ℚ) ^ (0 : ℤ) ≤ s / (1 : ℕ) := by
    simpa using (by exact_mod_cast h : (1 : ℚ) ≤ s)
  have := Binary64.pow_le_value_ofRatio h Nat.one_pos (by norm_num) (by norm_num) hone
  exact lt_of_lt_of_le (by norm_num) this

theorem value_powerOfTen_pos (k : Nat) : 0 < (Binary64.powerOfTen k).value := by
  have hpow : 0 < Nat.pow 10 k := by simp only [Nat.pow_eq]; positivity
  exact value_ofNat_pos hpow

/-- A double that is worth something has a numerator. -/
theorem ratio_pos_of_value_pos {x : Binary64} (h : 0 < x.value) : 0 < x.ratio.1 := by
  rw [← Binary64.ratio_value] at h
  rcases Nat.eq_zero_or_pos x.ratio.1 with h0 | h0
  · rw [h0, Nat.cast_zero, zero_div] at h
    exact absurd h (lt_irrefl _)
  · exact h0

theorem not_isInfinite_of_isFinite {x : Binary64} (h : x.isFinite = true) : x.isInfinite = false := by
  simp only [Binary64.isFinite, decide_eq_true_eq] at h
  simp only [Binary64.isInfinite, beq_eq_false_iff_ne]
  omega

/-- The bound that keeps a scaled significand from overflowing, with room for three roundings. -/
def scalingLimit : ℚ := (2 ^ (1024 : ℤ) - 2 ^ (970 : ℤ)) / (1 + 2 ^ (-53 : ℤ)) ^ 2

theorem isFinite_mul {s k : Nat} (hs : 0 < s) (h : (s : ℚ) * 10 ^ k < scalingLimit) :
    ((Binary64.ofNat s).mul (.powerOfTen k)).isFinite = true := by
  have hx := ratio_pos_of_value_pos (value_ofNat_pos hs)
  have hy := ratio_pos_of_value_pos (value_powerOfTen_pos k)
  refine Binary64.isFinite_ofRatio (Nat.mul_pos hx hy)
    (Nat.mul_pos (Binary64.ratio_pos _) (Binary64.ratio_pos _)) ?_
  rw [Binary64.ratio_mul]
  have hε : (0 : ℚ) < 1 + 2 ^ (-53 : ℤ) := by positivity
  calc (Binary64.ofNat s).value * (Binary64.powerOfTen k).value
      ≤ (s * (1 + 2 ^ (-53 : ℤ))) * (10 ^ k * (1 + 2 ^ (-53 : ℤ))) := by
        gcongr
        · exact Binary64.value_nonneg _
        · exact value_ofNat_le hs
        · exact value_powerOfTen_le k
    _ = s * 10 ^ k * (1 + 2 ^ (-53 : ℤ)) ^ 2 := by ring
    _ < 2 ^ (1024 : ℤ) - 2 ^ (970 : ℤ) := by
        rw [scalingLimit, lt_div_iff₀ (by positivity)] at h
        exact h

theorem mul_zero_left (x : Binary64) : Binary64.zero.mul x = .zero := by
  have h : Binary64.zero.ratio.1 = 0 := by decide
  rw [Binary64.mul, h, Nat.zero_mul, Binary64.ofRatio, if_pos (.inl rfl)]

theorem scaleDouble_of_nonneg {x : Binary64} {e : Int} (h : 0 ≤ e) (he : e ≤ 308) :
    scaleDouble x e =
      if (x.mul (.powerOfTen e.toNat)).isInfinite then none else some (x.mul (.powerOfTen e.toNat)) := by
  rw [scaleDouble, if_pos (by omega), if_pos h]

/-- A small enough number is scaled up to a double. -/
theorem isSome_scaleDouble_of_lt {s : Nat} {e : Int} (h : 0 ≤ e) (he : e ≤ 308)
    (hlt : (s : ℚ) * 10 ^ e.toNat < scalingLimit) : (scaleDouble (.ofNat s) e).isSome = true := by
  have hfin : ((Binary64.ofNat s).mul (.powerOfTen e.toNat)).isInfinite = false := by
    rcases Nat.eq_zero_or_pos s with rfl | hs
    · rw [Binary64.ofNat, Binary64.ofRatio, if_pos (.inl rfl), mul_zero_left]
      rfl
    · exact not_isInfinite_of_isFinite (isFinite_mul hs hlt)
  rw [scaleDouble_of_nonneg h he, hfin]
  rfl

/-- Scaling down never fails. -/
theorem isSome_scaleDouble_of_neg (x : Binary64) {e : Int} (h : e < 0) :
    (scaleDouble x e).isSome = true := by
  fun_induction scaleDouble x e with
  | case1 x e h1 h2 => omega
  | case2 x e h1 h2 => omega
  | case3 x e h1 h2 => rfl
  | case4 x e h1 h2 => rfl
  | case5 x e h1 h2 h3 => omega
  | case6 x e h1 h2 h3 ih => exact ih (by omega)

/-! ### What is read is finite -/

/-- A bound on what can still be divided. -/
def quotientLimit : ℚ := 2 ^ (1000 : ℤ)

theorem isFinite_of_le {x : Binary64} (h : x.value ≤ quotientLimit) : x.isFinite = true := by
  rw [Binary64.isFinite_iff]
  exact h.trans_lt (zpow_lt_zpow_right₀ (by norm_num) (by norm_num))

theorem value_ofNat_le_quotientLimit {s : Nat} (h : s ≤ maxNatural) :
    (Binary64.ofNat s).value ≤ quotientLimit := by
  have hlimit : (2 : ℚ) ^ (65 : ℤ) ≤ quotientLimit := zpow_le_zpow_right₀ (by norm_num) (by norm_num)
  rcases Nat.eq_zero_or_pos s with rfl | hs
  · rw [Binary64.ofNat, Binary64.ofRatio, if_pos (.inl rfl), Binary64.value_zero]
    exact (zpow_pos (by norm_num) _).le
  have hmax : (s : ℚ) ≤ 2 ^ (64 : ℤ) := by
    have : s ≤ 2 ^ 64 := h.trans (by decide)
    exact_mod_cast this
  calc (Binary64.ofNat s).value ≤ max (2 * (s / (1 : ℕ) : ℚ)) 1 :=
        Binary64.value_ofRatio_le_max hs Nat.one_pos
    _ ≤ 2 ^ (65 : ℤ) := by
        rw [Nat.cast_one, div_one]
        exact max_le (by linarith) (by norm_num)
    _ ≤ quotientLimit := hlimit

theorem value_div_le {x : Binary64} {k : Nat} (hk : 0 < k) (hx : x.value ≤ quotientLimit) :
    (x.div (.powerOfTen k)).value ≤ quotientLimit := by
  have hone : 1 ≤ quotientLimit := one_le_zpow₀ (by norm_num) (by norm_num)
  have hden := Nat.mul_pos (Binary64.ratio_pos x) (ratio_pos_of_value_pos (value_powerOfTen_pos k))
  rcases Nat.eq_zero_or_pos (x.ratio.1 * (Binary64.powerOfTen k).ratio.2) with h0 | hnum
  · rw [Binary64.div, h0, Binary64.ofRatio, if_pos (.inl rfl), Binary64.value_zero]
    exact zero_le_one.trans hone
  refine (Binary64.value_ofRatio_le_max hnum hden).trans (max_le ?_ hone)
  rw [Binary64.ratio_div]
  have hp := two_le_value_powerOfTen hk
  have hq : x.value / (Binary64.powerOfTen k).value ≤ x.value / 2 :=
    div_le_div_of_nonneg_left (Binary64.value_nonneg x) two_pos hp
  linarith

/-- What scaling ends with is finite. -/
theorem isFinite_scaleDouble {x y : Binary64} {e : Int} (hx : x.value ≤ quotientLimit)
    (h : scaleDouble x e = some y) : y.isFinite = true := by
  fun_induction scaleDouble x e with
  | case1 x e h1 h2 z hz => simp at h
  | case2 x e h1 h2 z hz =>
    rw [Option.some.injEq] at h
    subst h
    have hinf : z.magnitudeBits ≠ Binary64.infinityBits := by simpa [Binary64.isInfinite] using hz
    rcases Nat.eq_zero_or_pos (x.ratio.1 * (Binary64.powerOfTen e.toNat).ratio.1) with h0 | hnum
    · have hzero : z = .zero := by
        rw [show z = x.mul (.powerOfTen e.toNat) from rfl, Binary64.mul, h0, Binary64.ofRatio,
          if_pos (.inl rfl)]
      rw [hzero]
      rfl
    · have hden := Nat.mul_pos (Binary64.ratio_pos x) (Binary64.ratio_pos (.powerOfTen e.toNat))
      rcases Binary64.ofRatio_cases hnum hden with ⟨hf, _⟩ | ⟨hi, _⟩
      · exact hf
      · exact absurd (congrArg Binary64.magnitudeBits hi) hinf
  | case3 x e h1 h2 =>
    rw [Option.some.injEq] at h
    subst h
    exact isFinite_of_le (value_div_le (by omega) hx)
  | case4 x e h1 h2 =>
    rw [Option.some.injEq] at h
    subst h
    exact isFinite_of_le hx
  | case5 x e h1 h2 h3 => simp at h
  | case6 x e h1 h2 h3 ih => exact ih (value_div_le (by norm_num) hx) h

theorem absorb_fst_le {s t : Nat} {ds : List Nat} (h : s ≤ maxNatural) :
    (absorb s t ds).1 ≤ maxNatural := by
  fun_induction absorb s t ds with
  | case1 s t => exact h
  | case2 s t d ds hd ih => exact ih hd
  | case3 s t d ds hd => exact h

theorem magnitudeBits_negate (x : Binary64) : x.negate.magnitudeBits = x.magnitudeBits := by
  have h : (0x8000000000000000 : UInt64).toNat = 2 ^ 63 := rfl
  rw [Binary64.magnitudeBits, Binary64.magnitudeBits, Binary64.negate, UInt64.toNat_xor, h, Nat.pow_eq,
    Nat.xor_mod_two_pow]
  simp

theorem isFinite_negate (x : Binary64) : x.negate.isFinite = x.isFinite := by
  rw [Binary64.isFinite, Binary64.isFinite, magnitudeBits_negate]

theorem isFinite_magnitude? {n : Numeral} {x : Binary64} (h : n.magnitude? = some x) :
    x.isFinite = true := by
  rw [Numeral.magnitude?] at h
  dsimp only at h
  split at h
  · have hs : (absorb (absorb 0 0 n.whole).1 0 n.fraction).1 ≤ maxNatural :=
      absorb_fst_le (absorb_fst_le (Nat.zero_le _))
    exact isFinite_scaleDouble (value_ofNat_le_quotientLimit hs) h
  · split at h
    · simp at h
    · rw [Option.some.injEq] at h
      subst h
      rfl

end ImageAssembly.Json
