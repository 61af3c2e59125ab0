import ImageAssembly.Gzip.Bits
import ImageAssembly.Proofs.Outcome
import ImageAssembly.Proofs.Text.Bytes
import Mathlib.Tactic.Ring

/-! The bits of bytes. Data is looked at as one list of bits, those of each byte from the lowest on, and a reader is
told by what stands in the list between the position where it begins and the one where it ends. -/

namespace ImageAssembly

/-- Whether entries are those of a list between two positions. -/
def Within {α : Type} (l : List α) (pos next : Nat) (xs : List α) : Prop :=
  ∃ before after, l = before ++ (xs ++ after) ∧ before.length = pos ∧ pos + xs.length = next

namespace Within

variable {α : Type} {l xs ys : List α} {pos next mid : Nat}

theorem next_eq (h : Within l pos next xs) : next = pos + xs.length := by
  obtain ⟨-, -, -, -, h⟩ := h
  exact h.symm

theorem le_length (h : Within l pos next xs) : next ≤ l.length := by
  obtain ⟨before, after, rfl, rfl, rfl⟩ := h
  simp only [List.length_append]
  omega

theorem start_le (h : Within l pos next xs) : pos ≤ l.length :=
  Nat.le_trans (Nat.le.intro h.next_eq.symm) h.le_length

theorem append (h : Within l pos mid xs) (h' : Within l mid next ys) : Within l pos next (xs ++ ys) := by
  obtain ⟨before, after, rfl, rfl, rfl⟩ := h
  obtain ⟨before', after', heq, hlength, rfl⟩ := h'
  rw [← List.append_assoc] at heq
  obtain ⟨-, rfl⟩ := List.append_inj heq (by rw [List.length_append, hlength])
  exact ⟨before, after', by rw [List.append_assoc], rfl, by rw [List.length_append, Nat.add_assoc]⟩

theorem append_iff : Within l pos next (xs ++ ys) ↔ ∃ mid, Within l pos mid xs ∧ Within l mid next ys := by
  constructor
  · rintro ⟨before, after, rfl, rfl, rfl⟩
    refine ⟨before.length + xs.length, ⟨before, ys ++ after, by simp, rfl, rfl⟩, before ++ xs, after, by simp, ?_, ?_⟩
    · rw [List.length_append]
    · rw [List.length_append, Nat.add_assoc]
  · rintro ⟨mid, h, h'⟩
    exact h.append h'

/-- Two positions determine what stands between them. -/
theorem unique (h : Within l pos next xs) (h' : Within l pos next ys) : xs = ys := by
  have hxs := h.next_eq
  obtain ⟨before, after, rfl, rfl, -⟩ := h
  obtain ⟨before', after', heq, hlength, hys⟩ := h'
  obtain ⟨rfl, htail⟩ := List.append_inj heq hlength.symm
  exact (List.append_inj htail (by omega)).1

theorem nil_iff : Within l pos next [] ↔ pos = next ∧ pos ≤ l.length := by
  constructor
  · intro h
    have hle := h.le_length
    rw [h.next_eq, List.length_nil, Nat.add_zero] at hle ⊢
    exact ⟨rfl, hle⟩
  · rintro ⟨rfl, h⟩
    exact ⟨l.take pos, l.drop pos, by simp, by simpa using h, rfl⟩

theorem singleton_iff {x : α} : Within l pos next [x] ↔ l[pos]? = some x ∧ next = pos + 1 := by
  constructor
  · rintro ⟨before, after, rfl, rfl, rfl⟩
    simp
  · rintro ⟨h, rfl⟩
    obtain ⟨hlt, rfl⟩ := List.getElem?_eq_some_iff.1 h
    refine ⟨l.take pos, l.drop (pos + 1), ?_, by rw [List.length_take]; omega, rfl⟩
    rw [List.singleton_append, ← List.drop_eq_getElem_cons hlt, List.take_append_drop]

theorem cons_iff {x : α} : Within l pos next (x :: xs) ↔ l[pos]? = some x ∧ Within l (pos + 1) next xs := by
  rw [← List.singleton_append, append_iff]
  simp only [singleton_iff]
  constructor
  · rintro ⟨mid, ⟨hx, rfl⟩, hxs⟩
    exact ⟨hx, hxs⟩
  · rintro ⟨hx, hxs⟩
    exact ⟨pos + 1, ⟨hx, rfl⟩, hxs⟩

end Within

theorem exists_within {α : Type} {l : List α} {pos n : Nat} (h : pos + n ≤ l.length) :
    ∃ xs, Within l pos (pos + n) xs ∧ xs.length = n := by
  have hlength : ((l.drop pos).take n).length = n := by
    rw [List.length_take, List.length_drop]
    omega
  refine ⟨(l.drop pos).take n, ⟨l.take pos, l.drop (pos + n), ?_, ?_, by rw [hlength]⟩, hlength⟩
  · rw [← List.drop_drop, List.take_append_drop, List.take_append_drop]
  · rw [List.length_take]
    omega

/-- Something stands between any two positions. -/
theorem exists_between {α : Type} {l : List α} {pos next : Nat} (hle : pos ≤ next) (hnext : next ≤ l.length) :
    ∃ xs, Within l pos next xs := by
  obtain ⟨n, rfl⟩ := Nat.exists_eq_add_of_le hle
  obtain ⟨xs, hxs, -⟩ := exists_within hnext
  exact ⟨xs, hxs⟩

namespace Gzip

variable {data : ByteArray} {pos next : Nat}

/-! ### Bits -/

/-- The bits of a byte, the lowest first. -/
def byteBits (b : UInt8) : List Bool := (List.range 8).map b.toNat.testBit

/-- The bits of bytes. -/
def bitsOf (bytes : List UInt8) : List Bool := bytes.flatMap byteBits

/-- The bits of some data. -/
def dataBits (data : ByteArray) : List Bool := bitsOf data.toList

@[simp] theorem length_byteBits (b : UInt8) : (byteBits b).length = 8 := by
  rw [byteBits, List.length_map, List.length_range]

theorem bitsOf_cons (b : UInt8) (bytes : List UInt8) : bitsOf (b :: bytes) = byteBits b ++ bitsOf bytes := rfl

@[simp] theorem bitsOf_append (a b : List UInt8) : bitsOf (a ++ b) = bitsOf a ++ bitsOf b := List.flatMap_append

@[simp] theorem length_bitsOf (bytes : List UInt8) : (bitsOf bytes).length = 8 * bytes.length := by
  induction bytes with
  | nil => rfl
  | cons b bytes ih =>
    rw [bitsOf_cons, List.length_append, ih, length_byteBits, List.length_cons]
    omega

@[simp] theorem length_dataBits (data : ByteArray) : (dataBits data).length = bitSize data := by
  rw [dataBits, length_bitsOf, Bytes.length_toList, bitSize]

theorem getElem?_bitsOf (bytes : List UInt8) (i : Nat) {k : Nat} (hk : k < 8) :
    (bitsOf bytes)[8 * i + k]? = bytes[i]?.map (·.toNat.testBit k) := by
  induction bytes generalizing i with
  | nil => simp [bitsOf]
  | cons b bytes ih =>
    rw [bitsOf_cons]
    cases i with
    | zero =>
      rw [Nat.mul_zero, Nat.zero_add, List.getElem?_append_left (by simpa using hk), byteBits]
      simp [hk]
    | succ i =>
      have hpos : 8 * (i + 1) + k = 8 + (8 * i + k) := by omega
      rw [hpos, List.getElem?_append_right (by simp), length_byteBits, Nat.add_sub_cancel_left, ih]
      rfl

theorem getElem?_toList {i : Nat} (h : i < data.size) : data.toList[i]? = some (data.get! i) := by
  rw [ByteArray.get!, getElem!_pos data.data i h]
  simp [Bytes.toList_eq]

theorem getElem?_dataBits {b : Bool} (h : (dataBits data)[pos]? = some b) : bitAt data pos = b.toNat := by
  have hlt : pos % 8 < 8 := Nat.mod_lt _ (by decide)
  rw [dataBits, ← Nat.div_add_mod pos 8, getElem?_bitsOf _ _ hlt, Option.map_eq_some_iff] at h
  obtain ⟨byte, hbyte, rfl⟩ := h
  obtain ⟨hi, -⟩ := List.getElem?_eq_some_iff.1 hbyte
  rw [Bytes.length_toList] at hi
  obtain rfl := Option.some.inj ((getElem?_toList hi).symm.trans hbyte)
  rw [bitAt, Nat.testBit_eq_decide_div_mod_eq]
  rcases Nat.mod_two_eq_zero_or_one ((data.get! (pos / 8)).toNat / 2 ^ (pos % 8)) with h | h <;> simp [h]

theorem le_bitSize {xs : List Bool} (h : Within (dataBits data) pos next xs) : next ≤ bitSize data :=
  length_dataBits data ▸ h.le_length

/-- Bytes stand where their bits do. -/
theorem within_bits {bytes : List UInt8} {i j : Nat} (h : Within data.toList i j bytes) :
    Within (dataBits data) (8 * i) (8 * j) (bitsOf bytes) := by
  obtain ⟨before, after, heq, rfl, rfl⟩ := h
  refine ⟨bitsOf before, bitsOf after, ?_, length_bitsOf _, ?_⟩
  · rw [dataBits, heq, bitsOf_append, bitsOf_append]
  · rw [length_bitsOf, Nat.mul_add]

theorem byteBits_inj {b c : UInt8} (h : byteBits b = byteBits c) : b = c := by
  refine UInt8.toNat_inj.1 (Nat.eq_of_testBit_eq fun k => ?_)
  by_cases hk : k < 8
  · exact List.map_inj_left.1 h k (List.mem_range.2 hk)
  · have hpow : 2 ^ 8 ≤ 2 ^ k := Nat.pow_le_pow_right (by decide) (Nat.le_of_not_lt hk)
    rw [Nat.testBit_lt_two_pow (Nat.lt_of_lt_of_le b.toNat_lt hpow),
      Nat.testBit_lt_two_pow (Nat.lt_of_lt_of_le c.toNat_lt hpow)]

theorem bitsOf_inj {a b : List UInt8} (h : bitsOf a = bitsOf b) : a = b := by
  induction a generalizing b with
  | nil =>
    have hlength := congrArg List.length h
    rw [length_bitsOf, length_bitsOf, List.length_nil] at hlength
    exact (List.length_eq_zero_iff.1 (by omega)).symm
  | cons x a ih =>
    cases b with
    | nil =>
      have hlength := congrArg List.length h
      rw [length_bitsOf, length_bitsOf, List.length_cons, List.length_nil] at hlength
      omega
    | cons y b =>
      rw [bitsOf_cons, bitsOf_cons] at h
      obtain ⟨hxy, hab⟩ := List.append_inj h (by rw [length_byteBits, length_byteBits])
      rw [byteBits_inj hxy, ih hab]

/-- Where a byte begins, whole bytes stand. -/
theorem exists_bytes {i j : Nat} {xs : List Bool} (h : Within (dataBits data) (8 * i) (8 * j) xs) :
    ∃ bytes, Within data.toList i j bytes ∧ bitsOf bytes = xs := by
  have hle := le_bitSize h
  have hnext := h.next_eq
  rw [bitSize, ← Bytes.length_toList] at hle
  obtain ⟨bytes, hbytes⟩ := exists_between (show i ≤ j by omega) (show j ≤ data.toList.length by omega)
  exact ⟨bytes, hbytes, (within_bits hbytes).unique h⟩

theorem within_bitsOf_iff {i j : Nat} {bytes : List UInt8} :
    Within (dataBits data) (8 * i) (8 * j) (bitsOf bytes) ↔ Within data.toList i j bytes := by
  constructor
  · intro h
    obtain ⟨bytes', hbytes, heq⟩ := exists_bytes h
    exact bitsOf_inj heq ▸ hbytes
  · exact within_bits

theorem toList_extract_of_within {i j : Nat} {bytes : List UInt8} (h : Within data.toList i j bytes) :
    (data.extract i j).toList = bytes := by
  have hnext := h.next_eq
  obtain ⟨before, after, heq, rfl, -⟩ := h
  rw [Bytes.toList_extract, heq, List.drop_left, hnext, Nat.add_sub_cancel_left, List.take_left]

theorem le_byteBoundary (pos : Nat) : pos ≤ byteBoundary pos := by
  rw [byteBoundary]
  omega

theorem byteBoundary_eq (pos : Nat) : byteBoundary pos = 8 * (byteBoundary pos / 8) := by
  rw [byteBoundary]
  omega

theorem byteBoundary_le (h : pos ≤ bitSize data) : byteBoundary pos ≤ bitSize data := by
  rw [byteBoundary]
  rw [bitSize] at h ⊢
  omega

/-! ### Numbers -/

/-- The number that bits write, the lowest first. -/
def value : List Bool → Nat
  | [] => 0
  | b :: r => b.toNat + 2 * value r

theorem value_append (xs ys : List Bool) : value (xs ++ ys) = value xs + 2 ^ xs.length * value ys := by
  induction xs with
  | nil => simp [value]
  | cons x xs ih =>
    rw [List.cons_append, value, value, ih, List.length_cons, pow_succ']
    ring

theorem readBit_eq_ok {b : Nat} : readBit data pos = .ok (b, next) ↔
    ∃ x, Within (dataBits data) pos next [x] ∧ b = x.toNat := by
  simp only [Within.singleton_iff, readBit]
  constructor
  · intro h
    split_ifs at h with hlt
    obtain ⟨rfl, rfl⟩ := Prod.mk.inj (Except.ok.inj h)
    rw [← length_dataBits] at hlt
    exact ⟨_, ⟨List.getElem?_eq_getElem hlt, rfl⟩, getElem?_dataBits (List.getElem?_eq_getElem hlt)⟩
  · rintro ⟨x, ⟨hx, rfl⟩, rfl⟩
    obtain ⟨hlt, -⟩ := List.getElem?_eq_some_iff.1 hx
    rw [length_dataBits] at hlt
    rw [if_pos hlt, getElem?_dataBits hx]

theorem bitsAt_eq_value {xs : List Bool} (h : Within (dataBits data) pos next xs) :
    bitsAt data pos xs.length = value xs := by
  induction xs generalizing pos with
  | nil => rfl
  | cons x xs ih =>
    obtain ⟨mid, hx, hxs⟩ := Within.append_iff.1 (List.singleton_append ▸ h)
    obtain ⟨hget, rfl⟩ := Within.singleton_iff.1 hx
    rw [List.length_cons, bitsAt, value, getElem?_dataBits hget, ih hxs]

theorem readBits_eq_ok {n v : Nat} : readBits data n pos = .ok (v, next) ↔
    ∃ xs, Within (dataBits data) pos next xs ∧ xs.length = n ∧ v = value xs := by
  rw [readBits]
  constructor
  · intro h
    split_ifs at h with hle
    obtain ⟨rfl, rfl⟩ := Prod.mk.inj (Except.ok.inj h)
    rw [← length_dataBits] at hle
    obtain ⟨xs, hxs, rfl⟩ := exists_within hle
    exact ⟨xs, hxs, rfl, bitsAt_eq_value hxs⟩
  · rintro ⟨xs, hxs, rfl, rfl⟩
    have hle := le_bitSize hxs
    rw [hxs.next_eq] at hle
    rw [if_pos hle, bitsAt_eq_value hxs, hxs.next_eq]

end Gzip

end ImageAssembly
