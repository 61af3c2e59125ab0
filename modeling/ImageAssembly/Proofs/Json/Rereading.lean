import ImageAssembly.Proofs.Json.Double

/-! Every number that was read can be written and read again. Doubles are written with few digits before
the point or with an exponent; both are proper numerals, and neither is refused. -/

namespace ImageAssembly.Json

open Decimal Digits

/-! ### The numeral of a double -/

def positionalNumeral (negative : Bool) (v : Scaled) : Numeral :=
  let ds := decimalDigits v.digits
  let places := (-v.scale).toNat
  if 0 ≤ v.scale then ⟨negative, ds ++ List.replicate v.scale.toNat 0, [0], none⟩
  else if places < ds.length then
    ⟨negative, ds.take (ds.length - places), ds.drop (ds.length - places), none⟩
  else ⟨negative, [0], List.replicate (places - ds.length) 0 ++ ds, none⟩

def scientificNumeral (negative : Bool) (v : Scaled) : Numeral :=
  let ds := decimalDigits v.digits
  ⟨negative, ds.take 1, ds.drop 1, some (decide (v.leading < 0), decimalDigits v.leading.natAbs)⟩

/-- The numeral that a double is written as. -/
def doubleNumeral (x : Binary64) : Numeral :=
  let v := x.shortest
  if x.isZero then ⟨x.isNegative, [0], [0], none⟩
  else if -5 ≤ v.leading ∧ v.leading < 16 then positionalNumeral x.isNegative v
  else scientificNumeral x.isNegative v

theorem render_positionalNumeral (negative : Bool) (v : Scaled) :
    (positionalNumeral negative v).render = (if negative then ['-'] else []) ++ v.positional := by
  have hlen := length_decimalDigits_pos v.digits
  have h0 : Nat.digitChar 0 = '0' := rfl
  rw [positionalNumeral, Scaled.positional, toDigits_eq_map]
  simp only [List.length_map]
  by_cases hs : 0 ≤ v.scale
  · rw [if_pos hs, if_pos hs]
    simp [Numeral.render, h0]
  rw [if_neg hs, if_neg hs]
  by_cases hp : (-v.scale).toNat < (decimalDigits v.digits).length
  · have hne : (decimalDigits v.digits).drop ((decimalDigits v.digits).length - (-v.scale).toNat) ≠ [] := by
      rw [ne_eq, List.drop_eq_nil_iff]
      omega
    rw [if_pos hp, if_pos hp, Numeral.render, if_neg hne, ← List.map_take, ← List.map_drop, List.append_nil]
  · have hne : List.replicate ((-v.scale).toNat - (decimalDigits v.digits).length) 0
        ++ decimalDigits v.digits ≠ [] := by
      simp [decimalDigits_ne_nil]
    rw [if_neg hp, if_neg hp, Numeral.render, if_neg hne, List.map_append, List.map_replicate, h0,
      List.append_nil]
    rfl

theorem render_scientificNumeral (negative : Bool) (v : Scaled) :
    (scientificNumeral negative v).render = (if negative then ['-'] else []) ++ v.scientific := by
  rw [scientificNumeral, Scaled.scientific, toDigits_eq_map, toDigits_eq_map]
  have hne := decimalDigits_ne_nil v.digits
  rcases hds : decimalDigits v.digits with _ | ⟨d, _ | ⟨d', ds⟩⟩
  · exact absurd hds hne
  · simp [Numeral.render]
  · simp [Numeral.render]

theorem render_doubleNumeral (x : Binary64) : (doubleNumeral x).render = renderDouble x := by
  have hsign : ∀ digits : List Char, (if x.isNegative then ['-'] else []) ++ digits =
      if x.isNegative then '-' :: digits else digits := by
    intro digits
    split <;> rfl
  rw [doubleNumeral, renderDouble, ← hsign]
  by_cases hz : x.isZero = true
  · rw [if_pos hz, if_pos hz]
    rfl
  rw [if_neg hz, if_neg hz]
  by_cases hv : -5 ≤ x.shortest.leading ∧ x.shortest.leading < 16
  · rw [if_pos hv, if_pos hv, render_positionalNumeral]
  · rw [if_neg hv, if_neg hv, render_scientificNumeral]

theorem isProper_positionalNumeral (negative : Bool) {v : Scaled} (h : v = ⟨0, 0⟩ ∨ v.digits ≠ 0) :
    (positionalNumeral negative v).IsProper := by
  have hlen := length_decimalDigits_pos v.digits
  have hlt : ∀ d ∈ decimalDigits v.digits, d < 10 := fun d hd => lt_of_mem_decimalDigits hd
  rw [positionalNumeral]
  split_ifs with hs hp
  · refine ⟨by simp [decimalDigits_ne_nil], ?_,
      List.forall_mem_append.2 ⟨hlt, fun d hd => lt_of_mem_zeros hd⟩, by simp, by simp, by simp⟩
    rcases h with rfl | hd
    · simp [decimalDigits_zero]
    · intro h0
      rw [List.head?_append_of_ne_nil _ (decimalDigits_ne_nil _)] at h0
      exact absurd h0 (head?_decimalDigits (Nat.pos_of_ne_zero hd))
  · have hd : v.digits ≠ 0 := by
      rcases h with rfl | hd
      · simp at hs
      · exact hd
    refine ⟨?_, ?_, fun d hm => hlt d (List.mem_of_mem_take hm), fun d hm => hlt d (List.mem_of_mem_drop hm),
      by simp, by simp⟩
    · intro h0
      have := congrArg List.length h0
      simp only [List.length_take, List.length_nil] at this
      omega
    · intro h0
      rw [List.head?_take, if_neg (by omega)] at h0
      exact absurd h0 (head?_decimalDigits (Nat.pos_of_ne_zero hd))
  · exact ⟨by simp, by simp, by simp, List.forall_mem_append.2 ⟨fun d hd => lt_of_mem_zeros hd, hlt⟩, by simp, by simp⟩

theorem isProper_scientificNumeral (negative : Bool) (v : Scaled) :
    (scientificNumeral negative v).IsProper := by
  have hlt : ∀ d ∈ decimalDigits v.digits, d < 10 := fun d hd => lt_of_mem_decimalDigits hd
  obtain ⟨d, ds, hds⟩ := List.exists_cons_of_ne_nil (decimalDigits_ne_nil v.digits)
  rw [scientificNumeral]
  refine ⟨by simp [hds], by simp [hds], fun d hm => hlt d (List.mem_of_mem_take hm),
    fun d hm => hlt d (List.mem_of_mem_drop hm), ?_, ?_⟩
  · rintro e ⟨⟩
    exact decimalDigits_ne_nil _
  · rintro e ⟨⟩ d hd
    exact lt_of_mem_decimalDigits hd

theorem isProper_doubleNumeral (x : Binary64) : (doubleNumeral x).IsProper := by
  rw [doubleNumeral]
  split_ifs
  · refine ⟨?_, ?_, ?_, ?_, ?_, ?_⟩ <;> simp
  · exact isProper_positionalNumeral _ (Binary64.shortest_eq_zero_or x)
  · exact isProper_scientificNumeral _ _

/-- The numeral that a number is written as. -/
def Number.numeral : Number → Numeral
  | .integer n => integerNumeral n
  | .double x => doubleNumeral x

theorem Number.isProper_numeral (n : Number) : n.numeral.IsProper := by
  cases n with
  | integer n => exact isProper_integerNumeral n
  | double x => exact isProper_doubleNumeral x

theorem Number.render_numeral (n : Number) : n.numeral.render = n.render := by
  cases n with
  | integer n => exact render_integerNumeral n
  | double x => exact render_doubleNumeral x

/-! ### Digits that fit -/

/-- Digits whose number fits are all taken. -/
theorem absorb_of_le {s t : Nat} {ds : List Nat} (h : digitsNumber s ds ≤ maxNatural) :
    absorb s t ds = (digitsNumber s ds, t + ds.length) := by
  induction ds generalizing s t with
  | nil => rfl
  | cons d ds ih =>
    have hpow : 1 ≤ 10 ^ ds.length := Nat.one_le_pow _ _ (by decide)
    have hle : 10 * s + d ≤ maxNatural :=
      le_trans (le_trans (Nat.le_mul_of_pos_right _ hpow) (mul_pow_le_digitsNumber _ ds)) h
    rw [absorb, if_pos hle, ih (s := 10 * s + d) h, List.length_cons, Nat.add_assoc, Nat.add_comm 1]
    rfl

/-- Digits that are not taken only make the number greater. -/
theorem absorb_le (s : Nat) (ds : List Nat) (t : Nat) : ∃ taken ≤ ds.length,
    (absorb s t ds).2 = t + taken ∧
      (absorb s t ds).1 * 10 ^ (ds.length - taken) ≤ digitsNumber s ds := by
  induction ds generalizing s t with
  | nil => exact ⟨0, le_rfl, rfl, by simp [absorb, digitsNumber]⟩
  | cons d ds ih =>
    rw [absorb]
    split
    · obtain ⟨taken, hle, h2, h1⟩ := ih (10 * s + d) (t + 1)
      refine ⟨taken + 1, by simpa using hle, by rw [h2]; omega, ?_⟩
      rw [List.length_cons, Nat.add_sub_add_right]
      exact h1
    · exact ⟨0, Nat.zero_le _, rfl, mul_pow_le_digitsNumber s (d :: ds)⟩

/-! ### Numerals that are not refused -/

theorem isSome_scaleDouble_of_nonpos {s : Nat} (hs : s ≤ maxNatural) {e : Int} (he : e ≤ 0) :
    (scaleDouble (.ofNat s) e).isSome = true := by
  rcases lt_or_eq_of_le he with hneg | rfl
  · exact isSome_scaleDouble_of_neg _ hneg
  refine isSome_scaleDouble_of_lt le_rfl (by norm_num) ?_
  have hmax : (s : ℚ) ≤ 2 ^ (64 : ℤ) := by
    have : s ≤ 2 ^ 64 := hs.trans (by decide)
    exact_mod_cast this
  have h971 : (2 : ℚ) ^ (971 : ℤ) = 2 ^ (970 : ℤ) * 2 := by rw [← zpow_add_one₀ (by norm_num)]; rfl
  have h1024 : (2 : ℚ) ^ (971 : ℤ) ≤ 2 ^ (1024 : ℤ) := zpow_le_zpow_right₀ (by norm_num) (by norm_num)
  have h66 : (2 : ℚ) ^ (64 : ℤ) * 4 < 2 ^ (970 : ℤ) := by
    calc (2 : ℚ) ^ (64 : ℤ) * 4 = 2 ^ (66 : ℤ) := by norm_num
      _ < 2 ^ (970 : ℤ) := zpow_lt_zpow_right₀ (by norm_num) (by norm_num)
  have hε : (1 + (2 : ℚ) ^ (-53 : ℤ)) ^ 2 ≤ 4 := by norm_num
  rw [Int.toNat_zero, pow_zero, mul_one, scalingLimit, lt_div_iff₀ (by positivity)]
  calc (s : ℚ) * (1 + 2 ^ (-53 : ℤ)) ^ 2 ≤ 2 ^ (64 : ℤ) * 4 := by gcongr
    _ < 2 ^ (970 : ℤ) := h66
    _ ≤ 2 ^ (1024 : ℤ) - 2 ^ (970 : ℤ) := by
        generalize (2 : ℚ) ^ (1024 : ℤ) = limit at *
        generalize (2 : ℚ) ^ (970 : ℤ) = half at *
        linarith

/-- A number without exponent whose whole part fits is a double. -/
theorem isSome_magnitude?_of_none {n : Numeral} (hw : digitsNumber 0 n.whole ≤ maxNatural)
    (he : n.exponent = none) : n.magnitude?.isSome = true := by
  have hs : (absorb (digitsNumber 0 n.whole) 0 n.fraction).1 ≤ maxNatural := absorb_fst_le hw
  have hexp : n.explicitExponent? = some 0 := by rw [Numeral.explicitExponent?, he]
  have hmax : (0 : Int) ≤ maxExponent := by decide
  rw [Numeral.magnitude?, absorb_of_le hw]
  simp only [hexp]
  exact isSome_scaleDouble_of_nonpos hs (by omega)

/-! ### The first digit and those behind it -/

theorem leading_of_cons {v : Scaled} {d : Nat} {ds : List Nat} (h : decimalDigits v.digits = d :: ds) :
    v.leading = ds.length + v.scale := by
  rw [Scaled.leading, toDigits_eq_map, h]
  simp

/-- The leading digit of a decimal is worth a power of ten at most. -/
theorem pow_leading_le {v : Scaled} (h : v.digits ≠ 0) : (10 : ℚ) ^ v.leading ≤ v.value := by
  obtain ⟨d, ds, hds⟩ := List.exists_cons_of_ne_nil (decimalDigits_ne_nil v.digits)
  have hnum : 10 ^ ds.length ≤ v.digits := pow_length_le (Nat.pos_of_ne_zero h) hds
  rw [leading_of_cons hds, Scaled.value, zpow_add₀ (by norm_num), zpow_natCast]
  gcongr
  exact_mod_cast hnum

theorem two_pow_lt_ten_pow : (2 : ℚ) ^ (1024 : ℤ) < 10 ^ (309 : ℤ) := by
  have h : 2 ^ 1024 < 10 ^ 309 := by decide +kernel
  exact_mod_cast h

theorem scalingLimit_lt : scalingLimit < 2 ^ (1024 : ℤ) := by
  have hpos : (0 : ℚ) < 2 ^ (1024 : ℤ) := zpow_pos (by norm_num) _
  have hε : 1 ≤ (1 + (2 : ℚ) ^ (-53 : ℤ)) ^ 2 := by norm_num
  rw [scalingLimit, div_lt_iff₀ (by positivity)]
  calc (2 : ℚ) ^ (1024 : ℤ) - 2 ^ (970 : ℤ) < 2 ^ (1024 : ℤ) := sub_lt_self _ (zpow_pos (by norm_num) _)
    _ ≤ 2 ^ (1024 : ℤ) * (1 + 2 ^ (-53 : ℤ)) ^ 2 := le_mul_of_one_le_right hpos.le hε

theorem leading_le {v : Scaled} (hd : v.digits ≠ 0) (h : v.value < scalingLimit) : v.leading ≤ 308 := by
  have hlt : (10 : ℚ) ^ v.leading < 10 ^ (309 : ℤ) :=
    ((pow_leading_le hd).trans_lt h).trans (scalingLimit_lt.trans two_pow_lt_ten_pow)
  have := (zpow_lt_zpow_iff_right₀ (by norm_num)).1 hlt
  omega

/-- Digits that are taken behind the first are worth the decimal at most. -/
theorem absorbed_le_value {v : Scaled} {d taken : Nat} {ds : List Nat} (hds : decimalDigits v.digits = d :: ds)
    (hle : taken ≤ ds.length) (htaken : taken ≤ v.leading)
    (h : (absorb d 0 ds).1 * 10 ^ (ds.length - taken) ≤ digitsNumber d ds) :
    ((absorb d 0 ds).1 : ℚ) * 10 ^ (v.leading - taken).toNat ≤ v.value := by
  have hlead := leading_of_cons hds
  have hcast : (((absorb d 0 ds).1 * 10 ^ (ds.length - taken) : ℕ) : ℚ) ≤ v.digits := by
    rw [digitsNumber_of_cons hds] at h
    exact_mod_cast h
  have hsplit : (10 : ℚ) ^ (v.leading - taken).toNat = 10 ^ (ds.length - taken) * 10 ^ v.scale := by
    rw [← zpow_natCast, ← zpow_natCast, ← zpow_add₀ (by norm_num)]
    congr 1
    omega
  rw [hsplit, Scaled.value, ← mul_assoc]
  gcongr
  exact_mod_cast hcast

/-- A digit before the point is taken, and the digits behind the point go on from it. -/
theorem magnitude?_of_digit {n : Numeral} {d : Nat} (hw : n.whole = [d]) (hd : d ≤ maxNatural) :
    n.magnitude? = match n.explicitExponent? with
      | some e => scaleDouble (.ofNat (absorb d 0 n.fraction).1)
          (max (-maxExponent - 1) (min maxExponent (e - (absorb d 0 n.fraction).2)))
      | none =>
        let negative := (n.exponent.map (·.1)).getD false
        if (absorb d 0 n.fraction).1 ≠ 0 ∧ !negative then none else some .zero := by
  have hfirst : absorb 0 0 [d] = (d, 1) := by
    rw [absorb_of_le] <;> simp [digitsNumber, hd]
  rw [Numeral.magnitude?, hw, hfirst]
  cases n.explicitExponent? with
  | none => rfl
  | some e =>
    have hstart : ((([d] : List Nat).length - 1 : ℕ) : Int) - ((absorb d 0 n.fraction).2 : Int) + e =
        e - (absorb d 0 n.fraction).2 := by
      rw [List.length_singleton]
      omega
    simp only [hstart]

theorem explicitExponent?_scientificNumeral (negative : Bool) (v : Scaled) :
    (scientificNumeral negative v).explicitExponent? =
      if maxExponent < (v.leading.natAbs : Int) then none else some v.leading := by
  have hdigits : (decimalDigits v.leading.natAbs).foldl (fun e d => 10 * e + d) 0 = v.leading.natAbs :=
    digitsNumber_decimalDigits v.leading.natAbs
  have hsign : (if decide (v.leading < 0) then -(v.leading.natAbs : Int) else v.leading.natAbs) = v.leading := by
    split_ifs with h <;> rw [decide_eq_true_eq] at h <;> omega
  simp only [Numeral.explicitExponent?, scientificNumeral, hdigits, hsign]

/-- A decimal below the limit is a double. -/
theorem isSome_magnitude?_scientificNumeral (negative : Bool) {v : Scaled} (hd : v.digits ≠ 0)
    (h : v.value < scalingLimit) : (scientificNumeral negative v).magnitude?.isSome = true := by
  obtain ⟨d, ds, hds⟩ := List.exists_cons_of_ne_nil (decimalDigits_ne_nil v.digits)
  have hmax : d ≤ maxNatural :=
    (lt_of_mem_decimalDigits (hds ▸ List.mem_cons_self)).le.trans (show 10 ≤ maxNatural by decide)
  have hwhole : (scientificNumeral negative v).whole = [d] := by simp [scientificNumeral, hds]
  have hfraction : (scientificNumeral negative v).fraction = ds := by simp [scientificNumeral, hds]
  obtain ⟨taken, hle, hplaces, hnumber⟩ := absorb_le d ds 0
  have hs : (absorb d 0 ds).1 ≤ maxNatural := absorb_fst_le hmax
  have hmaxE : maxExponent = 2147483647 := by decide
  rw [magnitude?_of_digit hwhole hmax, hfraction, explicitExponent?_scientificNumeral, hplaces]
  rcases lt_or_ge v.leading 0 with hneg | hpos
  · -- a negative exponent is never beyond the range upwards
    split_ifs
    · simp [scientificNumeral, hneg]
    · exact isSome_scaleDouble_of_nonpos hs (by omega)
  have h308 := leading_le hd h
  rw [if_neg (by omega)]
  rcases le_or_gt v.leading taken with hshort | hlong
  · exact isSome_scaleDouble_of_nonpos hs (by omega)
  · have hclamp : max (-maxExponent - 1) (min maxExponent (v.leading - ((0 + taken : ℕ) : Int))) =
        v.leading - taken := by omega
    simp only [hclamp]
    exact isSome_scaleDouble_of_lt (by omega) (by omega)
      ((absorbed_le_value hds hle hlong.le hnumber).trans_lt h)

theorem isSome_magnitude?_positionalNumeral (negative : Bool) {v : Scaled} (h : v.leading < 16) :
    (positionalNumeral negative v).magnitude?.isSome = true := by
  have hlt : ∀ d ∈ decimalDigits v.digits, d < 10 := fun d hd => lt_of_mem_decimalDigits hd
  have hlead : ((decimalDigits v.digits).length : Int) + v.scale ≤ 16 := by
    rw [Scaled.leading, toDigits_eq_map, List.length_map] at h
    omega
  have hfits : ∀ ds : List Nat, (∀ d ∈ ds, d < 10) → ds.length ≤ 16 → digitsNumber 0 ds ≤ maxNatural := by
    intro ds hds hlen
    have hpow : 10 ^ ds.length ≤ 10 ^ 16 := Nat.pow_le_pow_right (by decide) hlen
    have hbound : 10 ^ 16 ≤ maxNatural := by decide
    have := @digitsNumber_lt 0 ds hds
    omega
  rw [positionalNumeral]
  split_ifs with hs hp
  · refine isSome_magnitude?_of_none (hfits _ (List.forall_mem_append.2 ⟨hlt, fun d hd => lt_of_mem_zeros hd⟩) ?_) rfl
    rw [List.length_append, List.length_replicate]
    omega
  · refine isSome_magnitude?_of_none (hfits _ (fun d hd => hlt d (List.mem_of_mem_take hd)) ?_) rfl
    rw [List.length_take]
    omega
  · exact isSome_magnitude?_of_none (hfits _ (by simp) (by simp)) rfl

/-- A double below the last three has a smaller exponent than they, or a smaller significand. -/
theorem exponent_le_or {x : Binary64} (h : x.magnitudeBits + 3 < Binary64.infinityBits) :
    x.exponent ≤ 970 ∧ x.significand ≤ 9007199254740991 ∨ x.exponent = 971 ∧ x.significand ≤ 9007199254740988 := by
  have h52 : Nat.pow 2 52 = 4503599627370496 := rfl
  have hinf : Binary64.infinityBits = 9218868437227405312 := rfl
  rw [Binary64.significand, Binary64.exponent, h52]
  split <;> omega

/-- The reals that are read as a double below the last three end far below the limit. -/
theorem upper_end_le {x : Binary64} (h : x.magnitudeBits + 3 < Binary64.infinityBits) :
    ((4 * x.significand + 2 : ℕ) : ℚ) * 2 ^ (x.exponent - 2) ≤ 36028797018963954 * 2 ^ (969 : ℤ) := by
  rcases exponent_le_or h with ⟨h970, hsig⟩ | ⟨h971, hsig⟩
  · have hm : ((4 * x.significand + 2 : ℕ) : ℚ) ≤ 36028797018963966 := by
      exact_mod_cast (by omega : 4 * x.significand + 2 ≤ 36028797018963966)
    have h969 : (2 : ℚ) ^ (969 : ℤ) = 2 ^ (968 : ℤ) * 2 := by rw [← zpow_add_one₀ (by norm_num)]; rfl
    calc ((4 * x.significand + 2 : ℕ) : ℚ) * 2 ^ (x.exponent - 2)
        ≤ 36028797018963966 * 2 ^ (968 : ℤ) := by
          gcongr
          · norm_num
          · omega
      _ ≤ 36028797018963954 * 2 * 2 ^ (968 : ℤ) := by
          gcongr
          norm_num
      _ = 36028797018963954 * 2 ^ (969 : ℤ) := by rw [h969, mul_assoc, mul_comm 2]
  · have hm : ((4 * x.significand + 2 : ℕ) : ℚ) ≤ 36028797018963954 := by
      exact_mod_cast (by omega : 4 * x.significand + 2 ≤ 36028797018963954)
    rw [h971]
    have hpos : (0 : ℚ) < 2 ^ (969 : ℤ) := zpow_pos (by norm_num) _
    exact mul_le_mul_of_nonneg_right hm hpos.le

/-- The shortest decimal of a double keeps below the limit, but for the last three doubles. -/
theorem value_shortest_lt {x : Binary64} (h : x.magnitudeBits + 3 < Binary64.infinityBits) :
    x.shortest.value < scalingLimit := by
  refine ((Binary64.value_shortest_le x).trans (upper_end_le h)).trans_lt ?_
  have h970 : (2 : ℚ) ^ (970 : ℤ) = 2 * 2 ^ (969 : ℤ) := by rw [← zpow_one_add₀ (by norm_num)]; rfl
  have h1024 : (2 : ℚ) ^ (1024 : ℤ) = 2 ^ (55 : ℕ) * 2 ^ (969 : ℤ) := (Binary64.two_pow_mul 55 969).symm
  rw [scalingLimit, lt_div_iff₀ (by positivity), h970, h1024]
  have hpos : (0 : ℚ) < 2 ^ (969 : ℤ) := zpow_pos (by norm_num) _
  generalize (2 : ℚ) ^ (969 : ℤ) = unit at *
  have hε : (36028797018963954 : ℚ) * (1 + 2 ^ (-53 : ℤ)) ^ 2 < 2 ^ (55 : ℕ) - 2 := by norm_num
  calc (36028797018963954 : ℚ) * unit * (1 + 2 ^ (-53 : ℤ)) ^ 2
      = 36028797018963954 * (1 + 2 ^ (-53 : ℤ)) ^ 2 * unit := by ring
    _ < (2 ^ (55 : ℕ) - 2) * unit := mul_lt_mul_of_pos_right hε hpos
    _ = 2 ^ (55 : ℕ) * unit - 2 * unit := by ring

/-! ### The last three doubles -/

/-- The shortest decimal depends on the magnitude only. -/
theorem shortest_congr {x y : Binary64} (h : x.magnitudeBits = y.magnitudeBits) :
    x.shortest = y.shortest := by
  have hz : x.isZero = y.isZero := by rw [Binary64.isZero, Binary64.isZero, h]
  have hs : x.significand = y.significand := by rw [Binary64.significand, Binary64.significand, h]
  have he : x.exponent = y.exponent := by rw [Binary64.exponent, Binary64.exponent, h]
  have hr : x.ratio = y.ratio := by rw [Binary64.ratio, Binary64.ratio, hs, he]
  have hreads : x.reads = y.reads := by
    funext d s
    rw [Binary64.reads, Binary64.reads, hs, he]
  have hgrid : x.onGrid = y.onGrid := by
    funext s
    rw [Binary64.onGrid, Binary64.onGrid, hr, hreads]
  have hfirst : ∀ k n, x.firstGrid k n = y.firstGrid k n := by
    intro k n
    induction n with
    | zero => rfl
    | succ n ih => rw [Binary64.firstGrid, Binary64.firstGrid, hgrid, ih]
  rw [Binary64.shortest, Binary64.shortest, Binary64.decimalExponent, Binary64.decimalExponent, hz, hr, hfirst]

/-- The digits of the last three doubles. -/
def lastDigits : List Nat := [17976931348623157, 17976931348623155, 17976931348623153]

theorem shortest_last {x : Binary64} (h : x.isFinite = true)
    (hx : Binary64.infinityBits ≤ x.magnitudeBits + 3) : ∃ d ∈ lastDigits, x.shortest = ⟨d, 292⟩ := by
  have key : ∀ k < 3, ∃ d ∈ lastDigits,
      (⟨(Binary64.infinityBits - 3 + k).toUInt64⟩ : Binary64).shortest = ⟨d, 292⟩ := by decide +kernel
  rw [Binary64.isFinite, decide_eq_true_eq] at h
  have hthree : 3 ≤ Binary64.infinityBits := by decide
  obtain ⟨d, hd, heq⟩ := key (x.magnitudeBits + 3 - Binary64.infinityBits) (by omega)
  refine ⟨d, hd, ?_⟩
  rw [← heq]
  apply shortest_congr
  rw [Binary64.magnitudeBits_mk (by omega)]
  omega

theorem isSome_magnitude?_last : ∀ d ∈ lastDigits, ∀ negative : Bool,
    (scientificNumeral negative ⟨d, 292⟩).magnitude?.isSome = true := by decide +kernel

/-- The numeral of a finite double is not refused. -/
theorem isSome_magnitude?_doubleNumeral {x : Binary64} (h : x.isFinite = true) :
    (doubleNumeral x).magnitude?.isSome = true := by
  rw [doubleNumeral]
  split_ifs with hz hv
  · exact isSome_magnitude?_of_none (show digitsNumber 0 [0] ≤ maxNatural by decide) rfl
  · exact isSome_magnitude?_positionalNumeral _ hv.2
  rcases lt_or_ge (x.magnitudeBits + 3) Binary64.infinityBits with hlt | hge
  · rcases Binary64.shortest_eq_zero_or x with h0 | hd
    · rw [h0] at hv
      exact absurd (by decide) hv
    · exact isSome_magnitude?_scientificNumeral _ hd (value_shortest_lt hlt)
  · obtain ⟨d, hd, heq⟩ := shortest_last h hge
    rw [heq]
    exact isSome_magnitude?_last d hd _

/-! ### Numbers that are read -/

/-- Whether a number can have been read. -/
def Number.IsReadable : Number → Prop
  | .integer n => -(Text.Integer.bound 63 : Int) ≤ n ∧ n ≤ maxNatural
  | .double x => x.isFinite = true

theorem isReadable_of_integer? {n : Numeral} {v : Int} (h : n.integer? = some v) :
    (Number.integer v).IsReadable := by
  rw [Numeral.integer?] at h
  have hmax : (0 : Int) ≤ maxNatural := by decide
  split at h
  · simp only [Number.IsReadable]
    dsimp only at h
    split_ifs at h with h1 h2 h3
    · rw [Option.some.injEq] at h
      omega
    · rw [Option.some.injEq] at h
      omega
  · simp at h

/-- What is read of a numeral can be read again. -/
theorem isReadable_of_value? {n : Numeral} {v : Number} (h : n.value? = some v) : v.IsReadable := by
  rw [Numeral.value?] at h
  split at h
  · next i hi =>
    rw [Option.some.injEq] at h
    exact h ▸ isReadable_of_integer? hi
  · rw [Option.map_eq_some_iff] at h
    obtain ⟨x, hx, rfl⟩ := h
    have := isFinite_magnitude? hx
    simp only [Number.IsReadable]
    split
    · rwa [isFinite_negate]
    · exact this

theorem integer?_integerNumeral {n : Int} (h : (Number.integer n).IsReadable) :
    (integerNumeral n).integer? = some n := by
  obtain ⟨hlow, hhigh⟩ := h
  have hdigits : (decimalDigits n.natAbs).foldl (fun v d => 10 * v + d) 0 = n.natAbs :=
    digitsNumber_decimalDigits n.natAbs
  simp only [Numeral.integer?, integerNumeral, hdigits]
  by_cases hneg : n < 0
  · simp only [hneg, List.isEmpty_nil, Option.isNone_none, and_self, if_true, decide_true]
    rw [if_pos (by omega)]
    congr 1
    omega
  · simp only [hneg, List.isEmpty_nil, Option.isNone_none, and_self, if_true, decide_false,
      Bool.false_eq_true, if_false]
    rw [if_pos (by omega)]
    congr 1
    omega

/-- A number that was read is read again where it is written. -/
theorem isSome_value?_numeral {n : Number} (h : n.IsReadable) : n.numeral.value?.isSome = true := by
  cases n with
  | integer n => simp [Number.numeral, Numeral.value?, integer?_integerNumeral h]
  | double x =>
    have hm := isSome_magnitude?_doubleNumeral h
    rw [Number.numeral, Numeral.value?]
    split
    · rfl
    · rwa [Option.isSome_map]

end ImageAssembly.Json
