import ImageAssembly.Gzip.Crc32
import ImageAssembly.Proofs.Gzip.Bits
import Mathlib.Algebra.CharP.Two
import Mathlib.Algebra.Field.ZMod
import Mathlib.Algebra.Polynomial.OfFn
import Mathlib.RingTheory.AdjoinRoot

/-! The checksum as a remainder. A register stands for a polynomial over the field of two elements, its lowest bit for
the highest power, and taking a bit in multiplies by the unknown modulo the generator; what the table is asked for is
eight such steps at once. The checksum of bytes is therefore the remainder of the polynomial whose coefficients are
their bits. -/

namespace ImageAssembly.Gzip.Checksum

open Polynomial

variable {r s : UInt32} {data : ByteArray}

/-! ### Polynomials -/

/-- A bit as an element of the field of two. -/
def element (b : Bool) : ZMod 2 := if b then 1 else 0

theorem element_xor (a b : Bool) : element (a ^^ b) = element a + element b := by
  cases a <;> cases b <;> decide

theorem element_inj {a b : Bool} (h : element a = element b) : a = b := by
  cases a <;> cases b <;> first | rfl | exact absurd h (by decide)

/-- The polynomial that a register stands for. -/
noncomputable def polynomial (r : UInt32) : (ZMod 2)[X] := ofFn 32 fun i => element (r.toNat.testBit (31 - i))

/-- The powers of the generator. -/
def powers : Finset ℕ := {32, 26, 23, 22, 16, 12, 11, 10, 8, 7, 5, 4, 2, 1, 0}

noncomputable def generator : (ZMod 2)[X] := ∑ k ∈ powers, X ^ k

/-- The polynomial that bits write, the highest power first. -/
noncomputable def message : List Bool → (ZMod 2)[X]
  | [] => 0
  | b :: bits => C (element b) * X ^ bits.length + message bits

theorem coeff_polynomial {k : ℕ} (hk : k < 32) : (polynomial r).coeff k = element (r.toNat.testBit (31 - k)) :=
  ofFn_coeff_eq_val_of_lt _ hk

theorem coeff_polynomial_of_le {k : ℕ} (hk : 32 ≤ k) : (polynomial r).coeff k = 0 :=
  ofFn_coeff_eq_zero_of_ge _ hk

theorem polynomial_xor (r s : UInt32) : polynomial (r ^^^ s) = polynomial r + polynomial s := by
  ext k
  rw [coeff_add]
  by_cases hk : k < 32
  · rw [coeff_polynomial hk, coeff_polynomial hk, coeff_polynomial hk, UInt32.toNat_xor, Nat.testBit_xor, element_xor]
  · rw [coeff_polynomial_of_le (by omega), coeff_polynomial_of_le (by omega), coeff_polynomial_of_le (by omega),
      add_zero]

theorem polynomial_inj (h : polynomial r = polynomial s) : r = s := by
  apply UInt32.toNat_inj.1
  apply Nat.eq_of_testBit_eq
  intro k
  by_cases hk : k < 32
  · have hcoeff := congrArg (coeff · (31 - k)) h
    rw [coeff_polynomial (by omega), coeff_polynomial (by omega), show 31 - (31 - k) = k by omega] at hcoeff
    exact element_inj hcoeff
  · have hpow : 2 ^ 32 ≤ 2 ^ k := Nat.pow_le_pow_right (by decide) (Nat.le_of_not_lt hk)
    rw [Nat.testBit_lt_two_pow (Nat.lt_of_lt_of_le r.toNat_lt hpow),
      Nat.testBit_lt_two_pow (Nat.lt_of_lt_of_le s.toNat_lt hpow)]

theorem degree_polynomial_lt (r : UInt32) : (polynomial r).degree < 32 := ofFn_degree_lt _

theorem generator_eq : generator = X ^ 32 + polynomial 0xEDB88320 := by
  ext k
  rw [generator, finsetSum_coeff, coeff_add]
  simp only [coeff_X_pow]
  rw [Finset.sum_ite_eq]
  by_cases hk : k < 32
  · rw [coeff_polynomial hk, if_neg (Nat.ne_of_lt hk), zero_add]
    revert k
    decide
  · rw [coeff_polynomial_of_le (by omega), add_zero]
    have : k ∈ powers ↔ k = 32 := by
      simp only [powers, Finset.mem_insert, Finset.mem_singleton]
      omega
    simp only [this]

theorem degree_generator : generator.degree = 32 := by
  rw [generator_eq, degree_add_eq_left_of_degree_lt, degree_X_pow]
  · rfl
  · rw [degree_X_pow]
    exact degree_polynomial_lt _

theorem monic_generator : generator.Monic := by
  rw [generator_eq]
  exact monic_X_pow_add (degree_polynomial_lt _)

/-! ### Registers -/

/-- A shift to the right multiplies; the lowest bit leaves the register. -/
theorem X_mul_polynomial (r : UInt32) :
    X * polynomial r = polynomial (r >>> 1) + C (element (r.toNat.testBit 0)) * X ^ 32 := by
  have hshift (k : ℕ) : (r >>> 1).toNat.testBit k = r.toNat.testBit (1 + k) := Nat.testBit_shiftRight _
  ext k
  rw [coeff_add, coeff_C_mul_X_pow]
  cases k with
  | zero =>
    have htop : r.toNat.testBit 32 = false := Nat.testBit_lt_two_pow r.toNat_lt
    rw [coeff_X_mul_zero, coeff_polynomial (by decide), hshift, htop]
    rfl
  | succ k =>
    rw [coeff_X_mul]
    rcases Nat.lt_trichotomy k 31 with hk | rfl | hk
    · rw [coeff_polynomial (by omega), coeff_polynomial (by omega), if_neg (by omega), add_zero, hshift,
        show 1 + (31 - (k + 1)) = 31 - k by omega]
    · rw [coeff_polynomial (by decide), coeff_polynomial_of_le (by decide), if_pos rfl, zero_add]
    · rw [coeff_polynomial_of_le (by omega), coeff_polynomial_of_le (by omega), if_neg (by omega), add_zero]

/-- What is left of a register's polynomial modulo the generator. -/
noncomputable def residue (r : UInt32) : AdjoinRoot generator := AdjoinRoot.mk generator (polynomial r)

theorem residue_xor (r s : UInt32) : residue (r ^^^ s) = residue r + residue s := by
  rw [residue, polynomial_xor, map_add, residue, residue]

theorem residue_crcBit (r : UInt32) : residue (crcBit r) = AdjoinRoot.root generator * residue r := by
  have hmul : AdjoinRoot.root generator * residue r =
      residue (r >>> 1) + AdjoinRoot.mk generator (C (element (r.toNat.testBit 0)) * X ^ 32) := by
    rw [residue, residue, ← AdjoinRoot.mk_X, ← map_mul, X_mul_polynomial, map_add]
  have hpower : AdjoinRoot.mk generator (X ^ 32) = residue 0xEDB88320 := by
    rw [residue, AdjoinRoot.mk_eq_mk, CharTwo.sub_eq_add, ← generator_eq]
  have hbit : r.toNat.testBit 0 = decide (r &&& 1 = 1) := by
    rw [Nat.testBit_zero, ← Nat.and_one_is_mod, decide_eq_decide, ← UInt32.toNat_inj]
    rfl
  rw [hmul, crcBit]
  split_ifs with hodd
  · rw [residue_xor, hbit, decide_eq_true hodd, element, if_pos rfl, C_1, one_mul, hpower]
  · rw [hbit, decide_eq_false hodd, element, if_neg Bool.false_ne_true, C_0, zero_mul, map_zero, add_zero]

theorem residue_crcByteSlow (r : UInt32) : residue (crcByteSlow r) = AdjoinRoot.root generator ^ 8 * residue r := by
  have heq : crcByteSlow r = crcBit^[8] r := rfl
  rw [heq]
  generalize 8 = n
  induction n with
  | zero => rw [pow_zero, one_mul]; rfl
  | succ n ih => rw [Function.iterate_succ_apply', residue_crcBit, ih, pow_succ', mul_assoc]

theorem crcTable_getElem {i : UInt32} (hi : i.toNat < 256) : crcTable[i.toNat]! = crcByteSlow i := by
  rw [crcTable, getElem!_pos _ _ (by simpa using hi)]
  simp

theorem testBit_of_le {n k : ℕ} (h : r.toNat < 2 ^ n) (hk : n ≤ k) : r.toNat.testBit k = false :=
  Nat.testBit_lt_two_pow (Nat.lt_of_lt_of_le h (Nat.pow_le_pow_right Nat.two_pos hk))

theorem shiftRight_eight (r : UInt32) (k : ℕ) : (r >>> 8).toNat.testBit k = r.toNat.testBit (8 + k) :=
  Nat.testBit_shiftRight _

/-- Where eight bits are clear, a shift past them is a product. -/
theorem X_pow_mul_polynomial (h : ∀ k < 8, r.toNat.testBit k = false) :
    X ^ 8 * polynomial r = polynomial (r >>> 8) := by
  ext k
  rw [coeff_X_pow_mul']
  rcases Nat.lt_or_ge k 32 with hk | hk
  · rw [coeff_polynomial hk, shiftRight_eight]
    split_ifs with hlow
    · rw [coeff_polynomial (by omega), show 8 + (31 - k) = 31 - (k - 8) by omega]
    · rw [testBit_of_le r.toNat_lt (by omega)]
      rfl
  · rw [coeff_polynomial_of_le hk, if_pos (by omega)]
    rcases Nat.lt_or_ge (k - 8) 32 with hlow | hlow
    · rw [coeff_polynomial hlow, h _ (by omega)]
      rfl
    · exact coeff_polynomial_of_le hlow

theorem shiftRight_eq_zero (h : s.toNat < 2 ^ 8) : s >>> 8 = 0 := by
  apply UInt32.toNat_inj.1
  have hdiv : (s >>> 8).toNat = s.toNat / 2 ^ 8 := Nat.shiftRight_eq_div_pow _ _
  rw [hdiv, Nat.div_eq_of_lt h]
  rfl

theorem toNat_and_lt (s : UInt32) : (s &&& 0xFF).toNat < 2 ^ 8 := Nat.and_lt_two_pow _ (by decide)

/-- What a register holds besides its lowest byte. -/
theorem testBit_xor_and {k : ℕ} (hk : k < 8) : (s ^^^ (s &&& 0xFF)).toNat.testBit k = false := by
  have hmask : Nat.testBit 255 k = true := by revert k; decide
  have hlow : (s &&& 0xFF).toNat.testBit k = (s.toNat.testBit k && Nat.testBit 255 k) := Nat.testBit_and _ _ _
  rw [UInt32.toNat_xor, Nat.testBit_xor, hlow, hmask, Bool.and_true, Bool.xor_self]

/-- The lowest byte of a register may be divided apart from what moves down. -/
theorem residue_split (s : UInt32) : residue (crcByteSlow (s &&& 0xFF)) + residue (s >>> 8) =
    AdjoinRoot.root generator ^ 8 * residue s := by
  have hmoved : (s ^^^ (s &&& 0xFF)) >>> 8 = s >>> 8 := by
    rw [UInt32.shiftRight_xor, shiftRight_eq_zero (toNat_and_lt s), UInt32.xor_zero]
  have hhigh : residue (s >>> 8) = AdjoinRoot.root generator ^ 8 * residue (s ^^^ (s &&& 0xFF)) := by
    rw [← hmoved, residue, ← X_pow_mul_polynomial fun k => testBit_xor_and, map_mul, map_pow, AdjoinRoot.mk_X, residue]
  have hwhole : s &&& 0xFF ^^^ (s ^^^ (s &&& 0xFF)) = s := by
    rw [UInt32.xor_comm s, ← UInt32.xor_assoc, UInt32.xor_self, UInt32.zero_xor]
  rw [residue_crcByteSlow, hhigh, ← mul_add, ← residue_xor, hwhole]

theorem residue_crcByte (r : UInt32) (b : UInt8) :
    residue (crcByte r b) = AdjoinRoot.root generator ^ 8 * (residue r + residue b.toUInt32) := by
  have hbyte : b.toUInt32 >>> 8 = 0 := shiftRight_eq_zero b.toNat_lt
  have hmoved : r >>> 8 = (r ^^^ b.toUInt32) >>> 8 := by rw [UInt32.shiftRight_xor, hbyte, UInt32.xor_zero]
  unfold crcByte
  rw [crcTable_getElem (toNat_and_lt _), hmoved, residue_xor, residue_split, residue_xor]

/-! ### Messages -/

theorem coeff_message (bits : List Bool) (k : ℕ) :
    (message bits).coeff k = element (bits.reverse[k]?.getD false) := by
  induction bits with
  | nil => rfl
  | cons b bits ih =>
    rw [message, coeff_add, coeff_C_mul_X_pow, ih, List.reverse_cons]
    rcases Nat.lt_trichotomy k bits.reverse.length with hk | rfl | hk
    · rw [List.getElem?_append_left hk, if_neg (by simpa using Nat.ne_of_lt hk), zero_add]
    · rw [List.getElem?_concat_length, List.getElem?_eq_none (Nat.le_refl _), if_pos (by simp)]
      exact add_zero _
    · rw [List.getElem?_eq_none (Nat.le_of_lt hk), List.getElem?_eq_none (by simpa using hk), if_neg, zero_add]
      simpa using Nat.ne_of_gt hk

theorem message_append (xs ys : List Bool) : message (xs ++ ys) = X ^ ys.length * message xs + message ys := by
  induction xs with
  | nil => rw [List.nil_append, message, mul_zero, zero_add]
  | cons x xs ih =>
    rw [List.cons_append, message, ih, message, List.length_append, pow_add]
    ring

/-- A byte stands for its bits in the upper end of a register. -/
theorem polynomial_toUInt32 (b : UInt8) : polynomial b.toUInt32 = X ^ 24 * message (byteBits b) := by
  have hbits (k : ℕ) (hk : k < 8) : (byteBits b).reverse[k]? = some (b.toNat.testBit (7 - k)) := by
    rw [List.getElem?_reverse (by simpa using hk), length_byteBits, byteBits]
    simp [show 7 - k < 8 by omega]
  ext k
  rw [coeff_X_pow_mul']
  split_ifs with hk
  · rw [coeff_message]
    rcases Nat.lt_or_ge k 32 with hlt | hge
    · rw [coeff_polynomial hlt, hbits _ (by omega), show 7 - (k - 24) = 31 - k by omega]
      rfl
    · rw [coeff_polynomial_of_le hge, List.getElem?_eq_none (by rw [List.length_reverse, length_byteBits]; omega)]
      rfl
  · have hzero : b.toUInt32.toNat.testBit (31 - k) = false := testBit_of_le b.toNat_lt (by omega)
    rw [coeff_polynomial (by omega), hzero]
    rfl

theorem residue_foldl (r : UInt32) (bytes : List UInt8) :
    residue (bytes.foldl crcByte r) = AdjoinRoot.root generator ^ (bitsOf bytes).length * residue r +
      AdjoinRoot.root generator ^ 32 * AdjoinRoot.mk generator (message (bitsOf bytes)) := by
  induction bytes generalizing r with
  | nil => simp [bitsOf, message]
  | cons b bytes ih =>
    have hbyte : residue b.toUInt32 =
        AdjoinRoot.root generator ^ 24 * AdjoinRoot.mk generator (message (byteBits b)) := by
      rw [residue, polynomial_toUInt32, map_mul, map_pow, AdjoinRoot.mk_X]
    rw [List.foldl_cons, ih, residue_crcByte, hbyte, bitsOf_cons, message_append, List.length_append, length_byteBits,
      map_add, map_mul, map_pow, AdjoinRoot.mk_X]
    ring

/-! ### The checksum -/

/-- Whether a number is the checksum of a message: with the register inverted before and after, the remainder of the
message with as many powers behind it as the register has. -/
def IsCrc32 (bits : List Bool) (c : UInt32) : Prop :=
  polynomial (c ^^^ 0xFFFFFFFF) =
    (X ^ bits.length * polynomial 0xFFFFFFFF + X ^ 32 * message bits) %ₘ generator

theorem isCrc32_crc32 (data : ByteArray) : IsCrc32 (dataBits data) (crc32 data) := by
  have hregister : crc32 data ^^^ 0xFFFFFFFF = data.toList.foldl crcByte 0xFFFFFFFF := by
    rw [crc32, Bytes.foldl_eq, UInt32.xor_assoc, UInt32.xor_self, UInt32.xor_zero]
  have hresidue := residue_foldl 0xFFFFFFFF data.toList
  rw [← hregister, residue, residue, ← AdjoinRoot.mk_X, ← map_pow, ← map_pow, ← map_mul, ← map_mul, ← map_add,
    AdjoinRoot.mk_eq_mk] at hresidue
  unfold IsCrc32 dataBits
  rw [← modByMonic_eq_of_dvd_sub monic_generator hresidue, eq_comm, modByMonic_eq_self_iff monic_generator,
    degree_generator]
  exact degree_polynomial_lt _

/-- There is one checksum of a message, and it is the one that is computed. -/
theorem isCrc32_iff {c : UInt32} : IsCrc32 (dataBits data) c ↔ c = crc32 data := by
  constructor
  · intro h
    exact (UInt32.xor_left_inj _).1 (polynomial_inj (h.trans (isCrc32_crc32 data).symm))
  · rintro rfl
    exact isCrc32_crc32 data

end ImageAssembly.Gzip.Checksum
