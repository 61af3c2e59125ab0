import Mathlib.Data.List.Basic

/-! Bytes as lists, and the bytes of texts. The list of a byte array's elements is what proofs about
readers and writers work on; the bytes of a text are those of its characters one after another, and compare as
the texts do. -/

namespace ImageAssembly.Bytes

theorem toList_loop (bytes : ByteArray) (i : Nat) (acc : List UInt8) :
    ByteArray.toList.loop bytes i acc = acc.reverse ++ bytes.data.toList.drop i := by
  fun_induction ByteArray.toList.loop bytes i acc with
  | case1 i acc h ih =>
    have hi : i < bytes.data.toList.length := by simpa using h
    rw [ih, List.drop_eq_getElem_cons hi]
    simp [ByteArray.get!, h]
  | case2 i acc h =>
    rw [List.drop_eq_nil_of_le (by simpa using Nat.le_of_not_lt h)]
    simp

theorem toList_eq (bytes : ByteArray) : bytes.toList = bytes.data.toList := by
  simp [ByteArray.toList, toList_loop]

@[simp] theorem toList_toByteArray (l : List UInt8) : l.toByteArray.toList = l := by
  rw [toList_eq, List.toList_data_toByteArray]

@[simp] theorem toList_append (a b : ByteArray) : (a ++ b).toList = a.toList ++ b.toList := by
  simp [toList_eq]

@[simp] theorem toList_push (a : ByteArray) (b : UInt8) : (a.push b).toList = a.toList ++ [b] := by
  simp [toList_eq]

@[simp] theorem length_toList (a : ByteArray) : a.toList.length = a.size := by
  simp [toList_eq]

theorem toList_inj {a b : ByteArray} (h : a.toList = b.toList) : a = b := by
  rw [toList_eq, toList_eq, Array.toList_inj] at h
  exact ByteArray.ext h

@[simp] theorem toByteArray_toList (a : ByteArray) : a.toList.toByteArray = a :=
  toList_inj (by simp)

theorem toList_extract (a : ByteArray) (i j : Nat) :
    (a.extract i j).toList = (a.toList.drop i).take (j - i) := by
  rw [toList_eq, toList_eq, ByteArray.data_extract, Array.toList_extract, List.extract_eq_take_drop]

/-- The bytes from a position on. -/
theorem toList_extract_size (a : ByteArray) (i : Nat) : (a.extract i a.size).toList = a.toList.drop i := by
  rw [toList_extract, List.take_of_length_le]
  exact Nat.le_of_eq (by rw [List.length_drop, length_toList])

theorem extract_size_of_le {a : ByteArray} {i : Nat} (h : a.size ≤ i) : a.extract i a.size = .empty := by
  refine toList_inj ?_
  rw [toList_extract_size, List.drop_eq_nil_of_le (by rwa [length_toList])]
  exact (toList_eq .empty).symm

theorem extract_append_extract_size (a : ByteArray) (i n : Nat) :
    a.extract i (i + n) ++ a.extract (i + n) a.size = a.extract i a.size := by
  refine toList_inj ?_
  rw [toList_append, toList_extract_size, toList_extract_size, toList_extract, Nat.add_sub_cancel_left,
    ← List.drop_drop, List.take_append_drop]

/-- The first of more bytes, where there are enough of them already. -/
theorem extract_append_of_le {a : ByteArray} {n : Nat} (h : n ≤ a.size) (b : ByteArray) :
    (a ++ b).extract 0 n = a.extract 0 n := by
  refine toList_inj ?_
  rw [toList_extract, toList_extract, toList_append, List.drop_zero, List.drop_zero, List.take_append_of_le_length]
  rwa [length_toList]

/-- What stands between other bytes. -/
theorem extract_between (a b c : ByteArray) : (a ++ (b ++ c)).extract a.size (a.size + b.size) = b := by
  refine toList_inj ?_
  rw [toList_extract, toList_append, toList_append, ← length_toList, ← length_toList, List.drop_left,
    Nat.add_sub_cancel_left, List.take_left]

theorem foldlM_loop {α : Type} (f : α → UInt8 → α) (data : ByteArray) (i j : Nat) (acc : α)
    (h : data.size - j ≤ i) :
    ByteArray.foldlM.loop (m := Id) (fun acc b => pure (f acc b)) data data.size (Nat.le_refl _) i j acc =
      (data.toList.drop j).foldl f acc := by
  induction i generalizing j acc with
  | zero =>
    unfold ByteArray.foldlM.loop
    rw [List.drop_eq_nil_of_le (by rw [length_toList]; omega)]
    split_ifs <;> rfl
  | succ i ih =>
    unfold ByteArray.foldlM.loop
    split_ifs with hlt
    · have hj : j < data.toList.length := by rwa [length_toList]
      have hget : data[j] = data.toList[j] := by simp [toList_eq]; rfl
      rw [List.drop_eq_getElem_cons hj, List.foldl_cons, ← hget]
      exact ih _ _ (by omega)
    · rw [List.drop_eq_nil_of_le (by rw [length_toList]; omega)]
      rfl

/-- The bytes are taken in from the left. -/
theorem foldl_eq {α : Type} (f : α → UInt8 → α) (data : ByteArray) (acc : α) :
    data.foldl f acc = data.toList.foldl f acc := by
  unfold ByteArray.foldl ByteArray.foldlM
  rw [dif_pos (Nat.le_refl _)]
  exact foldlM_loop f data _ 0 acc (Nat.le_refl _)

/-- The bytes of a text, character by character. -/
theorem toList_toUTF8_ofList (cs : List Char) :
    (String.ofList cs).toUTF8.toList = cs.flatMap String.utf8EncodeChar := by
  rw [String.toUTF8_eq_toByteArray, String.toByteArray_ofList]
  exact toList_toByteArray _

theorem toList_toUTF8 (s : String) : s.toUTF8.toList = s.toList.flatMap String.utf8EncodeChar := by
  rw [← toList_toUTF8_ofList, String.ofList_toList]

/-- A character takes four bytes at most. -/
theorem size_toUTF8_le (s : String) : s.toUTF8.size ≤ 4 * s.length := by
  rw [← length_toList, toList_toUTF8, ← String.length_toList]
  induction s.toList with
  | nil => exact Nat.le_refl 0
  | cons c cs ih =>
    have hc := c.utf8Size_le_four
    rw [List.flatMap_cons, List.length_append, String.length_utf8EncodeChar, List.length_cons]
    omega

/-- The only byte of a character below 128 is its code. -/
theorem utf8EncodeChar_of_lt {c : Char} (h : c.toNat < 128) :
    String.utf8EncodeChar c = [c.toNat.toUInt8] := by
  have hc : c.utf8Size = 1 := by
    rw [Char.utf8Size_eq_one_iff, UInt32.le_iff_toNat_le]
    have : c.toNat = c.val.toNat := rfl
    have : (127 : UInt32).toNat = 127 := rfl
    omega
  rw [String.utf8EncodeChar_eq_singleton hc]
  rfl

/-- A text of characters other than zero and below 128 has no zeros among its bytes. -/
theorem zero_not_mem_toUTF8 {s : String} (h : ∀ c ∈ s.toList, 0 < c.toNat ∧ c.toNat < 128) :
    0 ∉ s.toUTF8.toList := by
  rw [toList_toUTF8, List.mem_flatMap]
  rintro ⟨c, hc, hzero⟩
  obtain ⟨hpos, hlt⟩ := h c hc
  rw [utf8EncodeChar_of_lt hlt, List.mem_singleton] at hzero
  have hbyte : c.toNat.toUInt8.toNat = c.toNat % 256 := UInt8.toNat_ofNat
  rw [← hzero, UInt8.toNat_zero] at hbyte
  omega

theorem fromUTF8?_toUTF8 (s : String) : String.fromUTF8? s.toUTF8 = some s := by
  have h : s.toUTF8.IsValidUTF8 := s.isValidUTF8
  rw [String.fromUTF8?, dif_pos h]
  rfl

theorem toUTF8_inj {s t : String} : s.toUTF8 = t.toUTF8 ↔ s = t := by
  refine ⟨fun h => ?_, congrArg _⟩
  have hs := fromUTF8?_toUTF8 s
  rw [h, fromUTF8?_toUTF8, Option.some.injEq] at hs
  exact hs.symm

/-! ### Order -/

theorem ofNat_lt_ofNat {m n : Nat} (hm : m < 256) (hn : n < 256) : UInt8.ofNat m < UInt8.ofNat n ↔ m < n := by
  rw [UInt8.lt_iff_toNat_lt, UInt8.toNat_ofNat_of_lt' hm, UInt8.toNat_ofNat_of_lt' hn]

theorem ofNat_eq_ofNat {m n : Nat} (hm : m < 256) (hn : n < 256) : UInt8.ofNat m = UInt8.ofNat n ↔ m = n := by
  rw [← UInt8.toNat_inj, UInt8.toNat_ofNat_of_lt' hm, UInt8.toNat_ofNat_of_lt' hn]

/-- Numbers compare by all digits but the last, and then by that one. -/
theorem lt_iff_digits {m n : Nat} : m < n ↔ m / 64 < n / 64 ∨ m / 64 = n / 64 ∧ m % 64 < n % 64 := by omega

/-- The bytes of a smaller character are smaller, whatever stands behind them. -/
theorem utf8EncodeChar_lt {c d : Char} (h : c < d) (x y : List UInt8) :
    String.utf8EncodeChar c ++ x < String.utf8EncodeChar d ++ y := by
  have hlt : c.val.toNat < d.val.toNat := h
  have hd : d.val.toNat < 1114112 := by
    rcases d.valid with h | ⟨-, h⟩
    · exact Nat.lt_trans h (by decide)
    · exact h
  simp only [String.utf8EncodeChar]
  generalize c.val.toNat = m at *
  generalize d.val.toNat = n at *
  have hdigits (k : Nat) : k / 4096 = k / 64 / 64 ∧ k / 262144 = k / 64 / 64 / 64 := by
    simp only [Nat.div_div_eq_div_mul, and_self]
  rw [(hdigits m).1, (hdigits m).2, (hdigits n).1, (hdigits n).2]
  rw [lt_iff_digits, lt_iff_digits (m := m / 64), lt_iff_digits (m := m / 64 / 64)] at hlt
  -- a smaller character takes no more bytes; where it takes fewer, the first byte is smaller
  split_ifs <;> simp only [List.cons_append, List.nil_append, List.cons_lt_cons_iff] <;>
    (try omega) <;> simp (disch := omega) only [ofNat_lt_ofNat, ofNat_eq_ofNat] <;> omega

/-- Texts compare as their bytes do. -/
theorem toUTF8_lt {a b : String} (h : a < b) : a.toUTF8.toList < b.toUTF8.toList := by
  have hchars : List.Lex (· < ·) a.toList b.toList := h
  rw [toList_toUTF8, toList_toUTF8]
  generalize a.toList = cs at hchars
  generalize b.toList = ds at hchars
  induction hchars with
  | @nil d ds =>
    obtain ⟨x, xs, hx⟩ := List.exists_cons_of_ne_nil (String.utf8EncodeChar_ne_nil (c := d))
    rw [List.flatMap_nil, List.flatMap_cons, hx, List.cons_append]
    exact List.nil_lt_cons _ _
  | rel hcd => exact utf8EncodeChar_lt hcd _ _
  | cons _ ih => exact List.append_left_lt ih

end ImageAssembly.Bytes
