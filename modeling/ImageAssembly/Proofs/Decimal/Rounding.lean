import ImageAssembly.Proofs.Decimal.Shortest
import Mathlib.Algebra.Order.Field.Power

/-! What rounding to a double can do to a quotient. The result is at most half a unit off, so it grows by
less than one part in `2 ^ 53` unless the quotient is tiny, and it is infinite only from the middle of the
last gap on. -/

namespace ImageAssembly.Decimal

/-- Rounding goes up by at most a half. -/
theorem two_mul_roundHalfEven_le (num den : Nat) :
    2 * (roundHalfEven num den * den) ≤ 2 * num + den := by
  have hnum : den * (num / den) + num % den = num := Nat.div_add_mod num den
  have hq : num / den * den = den * (num / den) := Nat.mul_comm _ _
  rw [roundHalfEven]
  split_ifs with h1 h2 h3
  · omega
  · rw [Nat.add_mul, Nat.one_mul]
    omega
  · omega
  · rw [Nat.add_mul, Nat.one_mul]
    omega

theorem div_le_roundHalfEven (num den : Nat) : num / den ≤ roundHalfEven num den := by
  rcases roundHalfEven_eq num den with h | h <;> omega

/-- A quotient below a natural number does not round above it. -/
theorem roundHalfEven_le_of_lt {num den k : Nat} (hden : 0 < den) (h : num < k * den) :
    roundHalfEven num den ≤ k := by
  have hq : num / den < k := (Nat.div_lt_iff_lt_mul hden).2 h
  rcases roundHalfEven_eq num den with he | he <;> omega

namespace Binary64

/-! ### The exponent of a quotient -/

/-- The first guess of a quotient's exponent, from the lengths of its parts. -/
def guessedExponent (num den : Nat) : Int := (num.log2 : Int) - (den.log2 : Int)

/-- The exponent of the power of two under a quotient. -/
def floorExponent (num den : Nat) : Int :=
  let e := guessedExponent num den
  if num * Nat.pow 2 (-e).toNat < den * Nat.pow 2 e.toNat then e - 1 else e

/-- The power of two that a quotient is rounded to multiples of. -/
def unitExponent (num den : Nat) : Int := max (floorExponent num den - 52) (-1074)

/-- The quotient in those units, rounded. -/
def roundedUnits (num den : Nat) : Nat :=
  let q := unitExponent num den
  roundHalfEven (num * Nat.pow 2 (-q).toNat) (den * Nat.pow 2 q.toNat)

/-- The bits that a quotient is rounded to, if these are of a finite double. -/
def roundedBits (num den : Nat) : Nat :=
  (unitExponent num den + 1074).toNat * Nat.pow 2 52 + roundedUnits num den

theorem ofRatio_eq (num den : Nat) : ofRatio num den =
    if num = 0 ∨ den = 0 then zero
    else if roundedBits num den < infinityBits then ⟨(roundedBits num den).toUInt64⟩ else infinity := rfl

variable {num den : Nat}

theorem lt_iff_scaled (e : Int) (hden : 0 < den) :
    num * Nat.pow 2 (-e).toNat < den * Nat.pow 2 e.toNat ↔ (num : ℚ) / den < 2 ^ e := by
  rw [zpow_eq_div 2 e, div_lt_div_iff₀ (by positivity) (by positivity)]
  simp only [Nat.pow_eq]
  rw [mul_comm ((2 : ℚ) ^ e.toNat)]
  norm_cast

theorem log2_bounds {n : Nat} (h : 0 < n) : (2 : ℚ) ^ n.log2 ≤ n ∧ (n : ℚ) < 2 ^ (n.log2 + 1) := by
  constructor
  · exact_mod_cast Nat.log2_self_le h.ne'
  · exact_mod_cast Nat.lt_log2_self

/-- The quotient lies between the power of two of its exponent and the next one. -/
theorem floorExponent_bounds (hnum : 0 < num) (hden : 0 < den) :
    (2 : ℚ) ^ floorExponent num den ≤ num / den ∧ (num : ℚ) / den < 2 ^ (floorExponent num den + 1) := by
  obtain ⟨hn1, hn2⟩ := log2_bounds hnum
  obtain ⟨hd1, hd2⟩ := log2_bounds hden
  have hdpos : (0 : ℚ) < den := by exact_mod_cast hden
  have hguess : (2 : ℚ) ^ guessedExponent num den = 2 ^ num.log2 / 2 ^ den.log2 := by
    rw [guessedExponent, zpow_sub₀ (by norm_num), zpow_natCast, zpow_natCast]
  have hlow : (2 : ℚ) ^ (guessedExponent num den - 1) ≤ num / den := by
    rw [zpow_sub₀ (by norm_num), hguess, zpow_one, div_div, div_le_div_iff₀ (by positivity) hdpos]
    have : (2 : ℚ) ^ num.log2 * den ≤ num * (2 ^ den.log2 * 2) := by
      rw [pow_succ] at hd2
      gcongr
    exact this
  have hhigh : (num : ℚ) / den < 2 ^ (guessedExponent num den + 1) := by
    rw [zpow_add₀ (by norm_num), hguess, zpow_one, div_mul_eq_mul_div,
      div_lt_div_iff₀ hdpos (by positivity)]
    rw [pow_succ] at hn2
    calc (num : ℚ) * 2 ^ den.log2 < 2 ^ num.log2 * 2 * 2 ^ den.log2 := by gcongr
      _ ≤ 2 ^ num.log2 * 2 * den := by gcongr
  rw [floorExponent]
  split_ifs with h
  · rw [lt_iff_scaled _ hden] at h
    exact ⟨hlow, by rwa [Int.sub_add_cancel]⟩
  · rw [lt_iff_scaled _ hden, not_lt] at h
    exact ⟨h, hhigh⟩

/-! ### The rounded units -/

theorem roundedUnits_parts (hden : 0 < den) :
    0 < den * Nat.pow 2 (unitExponent num den).toNat ∧
      ((num * Nat.pow 2 (-unitExponent num den).toNat : ℕ) : ℚ)
        / (den * Nat.pow 2 (unitExponent num den).toNat : ℕ) = num / den / 2 ^ unitExponent num den := by
  have h : 0 < den * Nat.pow 2 (unitExponent num den).toNat := by
    simp only [Nat.pow_eq]
    positivity
  refine ⟨h, ?_⟩
  have hdpos : (den : ℚ) ≠ 0 := by exact_mod_cast hden.ne'
  rw [zpow_eq_div 2 (unitExponent num den)]
  simp only [Nat.pow_eq]
  push_cast
  field_simp

/-- The rounded quotient is above the quotient by at most half a unit. -/
theorem roundedUnits_le (hden : 0 < den) :
    (roundedUnits num den : ℚ) * 2 ^ unitExponent num den
      ≤ num / den + 2 ^ unitExponent num den / 2 := by
  obtain ⟨hpos, heq⟩ := @roundedUnits_parts num den hden
  have h := two_mul_roundHalfEven_le (num * Nat.pow 2 (-unitExponent num den).toNat)
    (den * Nat.pow 2 (unitExponent num den).toNat)
  change 2 * (roundedUnits num den * _) ≤ _ at h
  have hunit : (0 : ℚ) < 2 ^ unitExponent num den := zpow_pos (by norm_num) _
  set a := num * Nat.pow 2 (-unitExponent num den).toNat
  set b := den * Nat.pow 2 (unitExponent num den).toNat
  have hb : (0 : ℚ) < b := by exact_mod_cast hpos
  have hm : (roundedUnits num den : ℚ) ≤ a / b + 1 / 2 := by
    have h' : (2 : ℚ) * (roundedUnits num den * b) ≤ 2 * a + b := by exact_mod_cast h
    rw [div_add_div _ _ hb.ne' two_ne_zero, le_div_iff₀ (by positivity)]
    linarith
  rw [heq] at hm
  calc (roundedUnits num den : ℚ) * 2 ^ unitExponent num den
      ≤ (num / den / 2 ^ unitExponent num den + 1 / 2) * 2 ^ unitExponent num den := by gcongr
    _ = num / den + 2 ^ unitExponent num den / 2 := by field_simp

/-- The significand has at most 53 bits, or is the power of two after these. -/
theorem roundedUnits_le_pow (hnum : 0 < num) (hden : 0 < den) : roundedUnits num den ≤ 2 ^ 53 := by
  obtain ⟨hpos, heq⟩ := @roundedUnits_parts num den hden
  refine roundHalfEven_le_of_lt hpos ?_
  have hunit : (0 : ℚ) < 2 ^ unitExponent num den := zpow_pos (by norm_num) _
  have hb : (0 : ℚ) < (den * Nat.pow 2 (unitExponent num den).toNat : ℕ) := by exact_mod_cast hpos
  have hlt : (num : ℚ) / den < 2 ^ (53 : ℕ) * 2 ^ unitExponent num den := by
    refine (floorExponent_bounds hnum hden).2.trans_le ?_
    rw [← zpow_natCast, ← zpow_add₀ (by norm_num)]
    refine zpow_le_zpow_right₀ (by norm_num) ?_
    rw [unitExponent]
    omega
  have h := heq.trans_lt ((div_lt_iff₀ hunit).2 hlt)
  rw [div_lt_iff₀ hb] at h
  exact_mod_cast h

/-- The significand has 53 bits where the unit is not the least one. -/
theorem pow_le_roundedUnits (hnum : 0 < num) (hden : 0 < den)
    (h : -1074 ≤ floorExponent num den - 52) : 2 ^ 52 ≤ roundedUnits num den := by
  obtain ⟨hpos, heq⟩ := @roundedUnits_parts num den hden
  refine le_trans ?_ (div_le_roundHalfEven _ _)
  have hunit : (0 : ℚ) < 2 ^ unitExponent num den := zpow_pos (by norm_num) _
  have hb : (0 : ℚ) < (den * Nat.pow 2 (unitExponent num den).toNat : ℕ) := by exact_mod_cast hpos
  have hq : unitExponent num den = floorExponent num den - 52 := by rw [unitExponent]; omega
  have hle : 2 ^ (52 : ℕ) * 2 ^ unitExponent num den ≤ (num : ℚ) / den := by
    refine le_trans (le_of_eq ?_) (floorExponent_bounds hnum hden).1
    rw [← zpow_natCast, ← zpow_add₀ (by norm_num), hq]
    congr 1
    omega
  have h' := ((le_div_iff₀ hunit).2 hle).trans_eq heq.symm
  rw [le_div_iff₀ hb] at h'
  rw [Nat.le_div_iff_mul_le hpos]
  exact_mod_cast h'

/-! ### The double of a quotient -/

theorem two_pow_mul (a : ℕ) (b : ℤ) : (2 : ℚ) ^ a * 2 ^ b = 2 ^ (a + b) := by
  rw [zpow_add₀ (by norm_num), zpow_natCast]

theorem magnitudeBits_mk {bits : Nat} (h : bits ≤ infinityBits) :
    (⟨bits.toUInt64⟩ : Binary64).magnitudeBits = bits := by
  have hbound : bits < 2 ^ 63 := lt_of_le_of_lt h (by decide)
  have h64 : bits.toUInt64.toNat = bits :=
    UInt64.toNat_ofNat_of_lt' (lt_trans hbound (by decide))
  rw [magnitudeBits, h64, Nat.pow_eq, Nat.mod_eq_of_lt hbound]

/-- Bits made of an exponent and a significand are worth that many units. -/
theorem value_of_units {q : Int} {m : Nat} (hq : -1074 ≤ q) (hm : m ≤ 2 ^ 53)
    (hnormal : q = -1074 ∨ 2 ^ 52 ≤ m)
    (hbits : (q + 1074).toNat * Nat.pow 2 52 + m ≤ infinityBits) :
    (⟨((q + 1074).toNat * Nat.pow 2 52 + m).toUInt64⟩ : Binary64).value = m * 2 ^ q := by
  have hmag := magnitudeBits_mk hbits
  set bits := (q + 1074).toNat * Nat.pow 2 52 + m with hdef
  set x : Binary64 := ⟨bits.toUInt64⟩
  have h52 : Nat.pow 2 52 = 4503599627370496 := rfl
  norm_num at hm hnormal
  rw [h52] at hdef
  rcases lt_or_ge bits 4503599627370496 with hsub | hsub
  · have hsig : x.significand = m := by
      rw [significand, hmag, h52, if_pos hsub]
      omega
    have hexp : x.exponent = q := by
      rw [exponent, hmag, h52, if_pos hsub]
      omega
    rw [value, hsig, hexp]
  rcases lt_or_eq_of_le hm with hlt | heq
  · have hsig : x.significand = m := by
      rw [significand, hmag, h52, if_neg (by omega)]
      omega
    have hexp : x.exponent = q := by
      rw [exponent, hmag, h52, if_neg (by omega)]
      omega
    rw [value, hsig, hexp]
  -- a significand that was rounded up to the next power of two
  · have hsig : x.significand = 4503599627370496 := by
      rw [significand, hmag, h52, if_neg (by omega)]
      omega
    have hexp : x.exponent = q + 1 := by
      rw [exponent, hmag, h52, if_neg (by omega)]
      omega
    rw [value, hsig, hexp, heq, zpow_add₀ (by norm_num)]
    norm_num
    ring

theorem value_infinity : infinity.value = 2 ^ (1024 : ℤ) := by
  have h : infinity.magnitudeBits = infinityBits := magnitudeBits_mk le_rfl
  have hsig : infinity.significand = 2 ^ 52 := by rw [significand, h]; rfl
  have hexp : infinity.exponent = 972 := by rw [exponent, h]; rfl
  rw [value, hsig, hexp, Nat.cast_pow, Nat.cast_two, two_pow_mul]
  rfl

/-- A double is finite when it is worth less than the power of two behind the last gap. -/
theorem isFinite_iff (x : Binary64) : x.isFinite = true ↔ x.value < 2 ^ (1024 : ℤ) := by
  have h52 : Nat.pow 2 52 = 4503599627370496 := rfl
  have hinf : infinityBits = 9218868437227405312 := rfl
  rw [isFinite, decide_eq_true_eq, hinf]
  constructor
  · intro h
    have hsig : (x.significand : ℚ) < 2 ^ (53 : ℕ) := by
      have : x.significand < 2 ^ 53 := by
        rw [significand, h52]
        split <;> omega
      exact_mod_cast this
    have hexp : x.exponent ≤ 971 := by
      rw [exponent, h52]
      split <;> omega
    calc x.value < 2 ^ (53 : ℕ) * 2 ^ x.exponent := by rw [value]; gcongr
      _ = 2 ^ ((53 : ℕ) + x.exponent) := two_pow_mul _ _
      _ ≤ 2 ^ (1024 : ℤ) := zpow_le_zpow_right₀ (by norm_num) (by omega)
  · intro h
    by_contra hge
    have hsig : (2 : ℚ) ^ (52 : ℕ) ≤ x.significand := by
      have : 2 ^ 52 ≤ x.significand := by
        rw [significand, h52, if_neg (by omega)]
        omega
      exact_mod_cast this
    have hexp : 972 ≤ x.exponent := by
      rw [exponent, h52, if_neg (by omega)]
      omega
    have : (2 : ℚ) ^ (1024 : ℤ) ≤ x.value := by
      calc (2 : ℚ) ^ (1024 : ℤ) ≤ 2 ^ ((52 : ℕ) + x.exponent) :=
            zpow_le_zpow_right₀ (by norm_num) (by omega)
        _ = 2 ^ (52 : ℕ) * 2 ^ x.exponent := (two_pow_mul _ _).symm
        _ ≤ x.value := by rw [value]; gcongr
    exact absurd h (not_lt.2 this)

/-- The rounded units make a double, or they reach beyond the last one. -/
theorem ofRatio_cases (hnum : 0 < num) (hden : 0 < den) :
    ((ofRatio num den).isFinite = true ∧
        (ofRatio num den).value = roundedUnits num den * 2 ^ unitExponent num den) ∨
      (ofRatio num den = infinity ∧
        (2 : ℚ) ^ (1024 : ℤ) ≤ roundedUnits num den * 2 ^ unitExponent num den) := by
  have hq : -1074 ≤ unitExponent num den := by rw [unitExponent]; omega
  have hm := roundedUnits_le_pow hnum hden
  have hnormal : unitExponent num den = -1074 ∨ 2 ^ 52 ≤ roundedUnits num den := by
    by_cases h : -1074 ≤ floorExponent num den - 52
    · exact .inr (pow_le_roundedUnits hnum hden h)
    · exact .inl (by rw [unitExponent]; omega)
  have hinf : infinityBits = 9218868437227405312 := rfl
  have h52 : Nat.pow 2 52 = 4503599627370496 := rfl
  rw [ofRatio_eq, if_neg (by omega)]
  split_ifs with h
  · refine .inl ⟨?_, value_of_units hq hm hnormal h.le⟩
    rw [isFinite, magnitudeBits_mk h.le, decide_eq_true_eq]
    exact h
  · refine .inr ⟨rfl, ?_⟩
    rw [roundedBits, hinf, h52] at h
    norm_num at hm hnormal
    rcases lt_or_ge (unitExponent num den) 972 with hlt | hge
    · have h1 : unitExponent num den = 971 := by omega
      have h2 : roundedUnits num den = 2 ^ 53 := by omega
      rw [h1, h2, Nat.cast_pow, Nat.cast_two, two_pow_mul]
      exact le_rfl
    · have h1 : 4503599627370496 ≤ roundedUnits num den := by omega
      have h2 : (2 : ℚ) ^ (52 : ℕ) ≤ roundedUnits num den := by
        norm_num
        exact_mod_cast h1
      calc (2 : ℚ) ^ (1024 : ℤ) ≤ 2 ^ ((52 : ℕ) + unitExponent num den) :=
            zpow_le_zpow_right₀ (by norm_num) (by omega)
        _ = 2 ^ (52 : ℕ) * 2 ^ unitExponent num den := (two_pow_mul _ _).symm
        _ ≤ roundedUnits num den * 2 ^ unitExponent num den := by gcongr

theorem value_ofRatio_le_units (hnum : 0 < num) (hden : 0 < den) :
    (ofRatio num den).value ≤ roundedUnits num den * 2 ^ unitExponent num den := by
  rcases ofRatio_cases hnum hden with ⟨_, h⟩ | ⟨h, hle⟩
  · exact h.le
  · rwa [h, value_infinity]

/-- A quotient that is not tiny grows by at most one part in `2 ^ 53`. -/
theorem value_ofRatio_le (hnum : 0 < num) (hden : 0 < den) (h : (2 : ℚ) ^ (-1022 : ℤ) ≤ num / den) :
    (ofRatio num den).value ≤ num / den * (1 + 2 ^ (-53 : ℤ)) := by
  obtain ⟨hlow, hhigh⟩ := floorExponent_bounds hnum hden
  have he : -1022 < floorExponent num den + 1 :=
    (zpow_lt_zpow_iff_right₀ (by norm_num)).1 (h.trans_lt hhigh)
  have hq : unitExponent num den = floorExponent num den - 52 := by rw [unitExponent]; omega
  have hunit : (2 : ℚ) ^ unitExponent num den = 2 ^ floorExponent num den * 2 ^ (-52 : ℤ) := by
    rw [hq, ← zpow_add₀ (by norm_num)]
    rfl
  calc (ofRatio num den).value ≤ roundedUnits num den * 2 ^ unitExponent num den :=
        value_ofRatio_le_units hnum hden
    _ ≤ num / den + 2 ^ unitExponent num den / 2 := roundedUnits_le hden
    _ = num / den + 2 ^ floorExponent num den * 2 ^ (-53 : ℤ) := by
        rw [hunit]
        norm_num
        ring
    _ ≤ num / den + num / den * 2 ^ (-53 : ℤ) := by gcongr
    _ = num / den * (1 + 2 ^ (-53 : ℤ)) := by ring

/-- Rounding leads to infinity only from the middle of the last gap on. -/
theorem isFinite_ofRatio (hnum : 0 < num) (hden : 0 < den)
    (h : (num : ℚ) / den < 2 ^ (1024 : ℤ) - 2 ^ (970 : ℤ)) : (ofRatio num den).isFinite = true := by
  rcases ofRatio_cases hnum hden with ⟨hf, _⟩ | ⟨_, hle⟩
  · exact hf
  have h970 : (0 : ℚ) < 2 ^ (970 : ℤ) := zpow_pos (by norm_num) _
  have hlt : (2 : ℚ) ^ floorExponent num den < 2 ^ (1024 : ℤ) :=
    ((floorExponent_bounds hnum hden).1.trans_lt h).trans (sub_lt_self _ h970)
  have he : floorExponent num den < 1024 := (zpow_lt_zpow_iff_right₀ (by norm_num)).1 hlt
  have hunit : (2 : ℚ) ^ unitExponent num den ≤ 2 ^ (971 : ℤ) :=
    zpow_le_zpow_right₀ (by norm_num) (by rw [unitExponent]; omega)
  have h971 : (2 : ℚ) ^ (971 : ℤ) = 2 ^ (970 : ℤ) * 2 := by rw [← zpow_add_one₀ (by norm_num)]; rfl
  have hup := hle.trans (@roundedUnits_le num den hden)
  -- the powers are opaque from here on
  generalize (2 : ℚ) ^ (1024 : ℤ) = limit at *
  generalize (2 : ℚ) ^ (970 : ℤ) = half at *
  generalize (2 : ℚ) ^ (971 : ℤ) = gap at *
  exfalso
  linarith

/-- A quotient never grows to more than its double, but for the least units. -/
theorem value_ofRatio_le_max (hnum : 0 < num) (hden : 0 < den) :
    (ofRatio num den).value ≤ max (2 * (num / den : ℚ)) 1 := by
  have hm : (roundedUnits num den : ℚ) ≤ 2 ^ (53 : ℕ) := by
    exact_mod_cast roundedUnits_le_pow hnum hden
  have hv : (ofRatio num den).value ≤ 2 ^ ((53 : ℕ) + unitExponent num den) := by
    rw [← two_pow_mul]
    exact (value_ofRatio_le_units hnum hden).trans (by gcongr)
  refine hv.trans ?_
  rcases le_or_gt (-1074) (floorExponent num den - 52) with h | h
  · refine le_max_of_le_left ?_
    have : (2 : ℚ) ^ ((53 : ℕ) + unitExponent num den) = 2 * 2 ^ floorExponent num den := by
      rw [← zpow_one_add₀ (by norm_num), unitExponent]
      congr 1
      omega
    rw [this]
    gcongr
    exact (floorExponent_bounds hnum hden).1
  · refine le_max_of_le_right ?_
    refine zpow_le_one_of_nonpos₀ (by norm_num) ?_
    rw [unitExponent]
    omega

/-- A quotient does not fall below a power of two that a double can be. -/
theorem pow_le_value_ofRatio {j : ℤ} (hnum : 0 < num) (hden : 0 < den) (hlow : -1022 ≤ j)
    (hhigh : j ≤ 1024) (h : (2 : ℚ) ^ j ≤ num / den) : (2 : ℚ) ^ j ≤ (ofRatio num den).value := by
  rcases ofRatio_cases hnum hden with ⟨_, hv⟩ | ⟨hv, _⟩
  · have he : j < floorExponent num den + 1 :=
      (zpow_lt_zpow_iff_right₀ (by norm_num)).1 (h.trans_lt (floorExponent_bounds hnum hden).2)
    have hm : (2 : ℚ) ^ (52 : ℕ) ≤ roundedUnits num den := by
      exact_mod_cast pow_le_roundedUnits hnum hden (by omega)
    rw [hv]
    calc (2 : ℚ) ^ j ≤ 2 ^ ((52 : ℕ) + unitExponent num den) :=
          zpow_le_zpow_right₀ (by norm_num) (by rw [unitExponent]; omega)
      _ = 2 ^ (52 : ℕ) * 2 ^ unitExponent num den := (two_pow_mul _ _).symm
      _ ≤ roundedUnits num den * 2 ^ unitExponent num den := by gcongr
  · rw [hv, value_infinity]
    exact zpow_le_zpow_right₀ (by norm_num) hhigh

/-! ### Products and quotients -/

theorem ratio_pos (x : Binary64) : 0 < x.ratio.2 := by
  rw [ratio]
  simp only [Nat.pow_eq]
  positivity

theorem ratio_value (x : Binary64) : (x.ratio.1 : ℚ) / x.ratio.2 = x.value := by
  rw [ratio, value, zpow_eq_div]
  simp only [Nat.pow_eq]
  push_cast
  rw [mul_div_assoc]

theorem value_zero : zero.value = 0 := by
  have : zero.significand = 0 := rfl
  rw [value, this, Nat.cast_zero, zero_mul]

theorem value_nonneg (x : Binary64) : 0 ≤ x.value := by
  rw [value]
  positivity

theorem ratio_mul (x y : Binary64) :
    ((x.ratio.1 * y.ratio.1 : ℕ) : ℚ) / (x.ratio.2 * y.ratio.2 : ℕ) = x.value * y.value := by
  rw [← ratio_value, ← ratio_value, Nat.cast_mul, Nat.cast_mul, div_mul_div_comm]

theorem ratio_div (x y : Binary64) :
    ((x.ratio.1 * y.ratio.2 : ℕ) : ℚ) / (x.ratio.2 * y.ratio.1 : ℕ) = x.value / y.value := by
  rw [← ratio_value, ← ratio_value, Nat.cast_mul, Nat.cast_mul, div_div_div_eq]

end Binary64

end ImageAssembly.Decimal
