import ImageAssembly.Archive.Header
import ImageAssembly.Proofs.Text.Bytes
import Mathlib.Tactic.Ring

/-! Headers of tar archives through bytes and back. Numbers are read back from their fields, octal or binary,
and a block that was written of a header is read as that header. -/

namespace ImageAssembly.Archive

/-! ### Octal fields -/

theorem exists_digit_of_mem_toDigits {n : Nat} {c : Char} (h : c ∈ Nat.toDigits 8 n) :
    ∃ d < 8, c = Nat.digitChar d := by
  induction n using Nat.strongRecOn with
  | ind n ih =>
    by_cases hn : n < 8
    · rw [Nat.toDigits_of_lt_base hn, List.mem_singleton] at h
      exact ⟨n, hn, h⟩
    · rw [Nat.toDigits_of_base_le (by decide) (Nat.le_of_not_lt hn), List.mem_append, List.mem_singleton] at h
      rcases h with h | h
      · exact ih (n / 8) (by omega) h
      · exact ⟨n % 8, Nat.mod_lt _ (by decide), h⟩

/-- The byte of an octal digit. -/
theorem toNat_digitByte : ∀ d < 8, (Nat.digitChar d).toNat.toUInt8.toNat = 48 + d := by decide

theorem digitByte_range : ∀ d < 8, (0x30 : UInt8) ≤ (Nat.digitChar d).toNat.toUInt8 ∧
    (Nat.digitChar d).toNat.toUInt8 ≤ 0x37 := by decide

/-- The bytes of a number's octal digits. -/
def octalDigits (n : Nat) : List UInt8 := (Nat.toDigits 8 n).map fun c => c.toNat.toUInt8

theorem octalField_eq (width n : Nat) : octalField width n =
    List.replicate (width - 1 - (octalDigits n).length) 0x30 ++ octalDigits n ++ [0] := rfl

theorem mem_octalDigits {n : Nat} {b : UInt8} (h : b ∈ octalDigits n) : 0x30 ≤ b ∧ b ≤ 0x37 := by
  obtain ⟨c, hc, rfl⟩ := List.mem_map.1 h
  obtain ⟨d, hd, rfl⟩ := exists_digit_of_mem_toDigits hc
  exact digitByte_range d hd

theorem length_octalDigits_le {n k : Nat} (hk : 0 < k) (h : n < 8 ^ k) : (octalDigits n).length ≤ k := by
  rw [octalDigits, List.length_map]
  exact (Nat.length_toDigits_le_iff (by decide) hk).2 h

theorem length_octalField {width n : Nat} (hw : 1 < width) (h : n < 8 ^ (width - 1)) :
    (octalField width n).length = width := by
  have := length_octalDigits_le (by omega) h
  rw [octalField_eq]
  simp only [List.length_append, List.length_replicate, List.length_singleton]
  omega

/-- One step of reading octal digits. -/
def octalStep (n : Nat) (b : UInt8) : Option Nat :=
  if 0x30 ≤ b ∧ b ≤ 0x37 then some (8 * n + (b.toNat - 48)) else none

theorem foldlM_octalDigits (n : Nat) : (octalDigits n).foldlM octalStep 0 = some n := by
  have hfold : ∀ (cs : List Char) (acc : Nat), (∀ c ∈ cs, ∃ d < 8, c = Nat.digitChar d) →
      (cs.map fun c => c.toNat.toUInt8).foldlM octalStep acc = some (Nat.ofDigitChars 8 cs acc) := by
    intro cs
    induction cs with
    | nil => simp
    | cons c cs ih =>
      intro acc h
      obtain ⟨d, hd, rfl⟩ := h c (by simp)
      have hstep : octalStep acc (Nat.digitChar d).toNat.toUInt8 = some (8 * acc + d) := by
        rw [octalStep, if_pos (digitByte_range d hd), toNat_digitByte d hd, Nat.add_sub_cancel_left]
      rw [List.map_cons, List.foldlM_cons, hstep, Option.bind_eq_bind, Option.bind_some,
        ih _ fun c hc => h c (by simp [hc]), Nat.ofDigitChars_cons_digitChar_of_lt_ten (by omega)]
  rw [octalDigits, hfold _ _ fun c => exists_digit_of_mem_toDigits, Nat.ofDigitChars_toDigits (by decide) (by decide)]

/-- The bytes of an octal field in front of its end. -/
theorem mem_octalField {width n : Nat} {b : UInt8}
    (h : b ∈ List.replicate (width - 1 - (octalDigits n).length) 0x30 ++ octalDigits n) : 0x30 ≤ b ∧ b ≤ 0x37 := by
  rw [List.mem_append] at h
  rcases h with h | h
  · rw [List.eq_of_mem_replicate h]
    decide
  · exact mem_octalDigits h

/-- Octal digits are read back, zeros in front of them or not. -/
theorem readOctal_octalField (width n : Nat) : readOctal (octalField width n) = some n := by
  have hzeros : ∀ k : Nat, (List.replicate k (0x30 : UInt8)).foldlM octalStep 0 = some 0 := by
    intro k
    induction k with
    | zero => rfl
    | succ k ih => rw [List.replicate_succ]; exact ih
  have hdigits : ((octalField width n).takeWhile (· != 0)).filter (· != 0x20) =
      List.replicate (width - 1 - (octalDigits n).length) 0x30 ++ octalDigits n := by
    rw [octalField_eq, List.takeWhile_append_of_pos, List.filter_eq_self.2]
    · exact List.append_nil _
    · intro b hb
      have hb : b ∈ List.replicate (width - 1 - (octalDigits n).length) 0x30 ++ octalDigits n := by simpa using hb
      rw [bne_iff_ne]
      rintro rfl
      exact absurd (mem_octalField hb).1 (by decide)
    · intro b hb
      rw [bne_iff_ne]
      rintro rfl
      exact absurd (mem_octalField hb).1 (by decide)
  change (((octalField width n).takeWhile (· != 0)).filter (· != 0x20)).foldlM octalStep 0 = some n
  rw [hdigits, List.foldlM_append, hzeros, Option.bind_eq_bind, Option.bind_some, foldlM_octalDigits]

/-! ### Binary fields -/

theorem length_binaryField {width : Nat} (hw : 0 < width) (n : Nat) : (binaryField width n).length = width := by
  rw [binaryField, List.length_cons, List.length_map, List.length_range]
  omega

/-- The bytes of a number, the highest first, make up the number again. -/
theorem foldl_binary (width n acc : Nat) :
    ((List.range width).map fun i => (n / 256 ^ (width - 1 - i)).toUInt8).foldl
      (fun n b => 256 * n + b.toNat) acc = acc * 256 ^ width + n % 256 ^ width := by
  induction width generalizing n with
  | zero => simp [Nat.mod_one]
  | succ width ih =>
    have hinit : ((List.range width).map fun i => (n / 256 ^ (width + 1 - 1 - i)).toUInt8) =
        (List.range width).map fun i => (n / 256 / 256 ^ (width - 1 - i)).toUInt8 := by
      refine List.map_congr_left fun i hi => ?_
      rw [List.mem_range] at hi
      rw [Nat.div_div_eq_div_mul, ← pow_succ']
      congr 3
      omega
    have hlast : (n / 256 ^ (width + 1 - 1 - width)).toUInt8.toNat = n % 256 := by
      rw [Nat.add_sub_cancel, Nat.sub_self, pow_zero, Nat.div_one]
      exact UInt8.toNat_ofNat
    rw [List.range_succ, List.map_append, List.foldl_append, hinit, ih]
    simp only [List.map_cons, List.map_nil, List.foldl_cons, List.foldl_nil, hlast]
    have hmod : n % 256 ^ (width + 1) = n % 256 + 256 * (n / 256 % 256 ^ width) := by
      rw [pow_succ', Nat.mod_mul]
    rw [hmod, pow_succ]
    ring

/-- Numbers of up to 64 bits are read back, be they written in octal or in binary. -/
theorem readNumber_numberField {width n : Nat} (hw : n < 256 ^ (width - 1)) (h64 : n < 2 ^ 64) :
    readNumber (numberField width n) = some n := by
  rw [numberField]
  split_ifs with h
  · obtain ⟨b, r, hb⟩ : ∃ b r, octalField width n = b :: r :=
      List.exists_cons_of_ne_nil (by rw [octalField_eq]; simp)
    have hmark : ¬ binaryMark ≤ b := by
      have hmem : b ∈ octalField width n := by rw [hb]; exact List.mem_cons_self
      rw [octalField_eq, List.mem_append, List.mem_singleton] at hmem
      rw [binaryMark, UInt8.not_le]
      rcases hmem with hmem | rfl
      · exact UInt8.lt_of_le_of_lt (mem_octalField hmem).2 (by decide)
      · decide
    rw [hb, readNumber, if_neg hmark, ← hb, readOctal_octalField]
  · have hfold := foldl_binary (width - 1) n 0
    rw [Nat.zero_mul, Nat.zero_add, Nat.mod_eq_of_lt hw, Nat.sub_sub width 1 1] at hfold
    rw [binaryField, readNumber, if_pos (by decide), Nat.sub_self]
    simp only [Nat.pow_eq]
    rw [hfold, Nat.mod_eq_of_lt h64]

/-! ### Headers -/

theorem length_fit (width : Nat) (bytes : List UInt8) : (fit width bytes).length = width := by
  rw [fit, List.length_take, List.length_append, List.length_replicate]
  omega

/-- What fits into a field and has no zeros is read up to the zeros that fill the field. -/
theorem untilZero_fit {width : Nat} {bytes : ByteArray} (hn : bytes.size ≤ width) (hz : 0 ∉ bytes.toList) :
    untilZero (fit width bytes.toList) = bytes := by
  have hlen : bytes.toList.length = bytes.size := Bytes.length_toList bytes
  have hfit : fit width bytes.toList = bytes.toList ++ List.replicate (width - bytes.size) 0 := by
    rw [fit, hlen, List.take_of_length_le]
    rw [List.length_append, List.length_replicate]
    omega
  have hrest : (List.replicate (width - bytes.size) (0 : UInt8)).takeWhile (· != 0) = [] := by
    cases width - bytes.size <;> simp [List.replicate_succ]
  rw [untilZero, hfit, List.takeWhile_append_of_pos, hrest, List.append_nil, Bytes.toByteArray_toList]
  intro b hb
  rw [bne_iff_ne]
  rintro rfl
  exact hz hb

theorem length_numberField {width : Nat} (hw : 1 < width) (n : Nat) : (numberField width n).length = width := by
  rw [numberField]
  split_ifs with h
  · exact length_octalField hw h
  · exact length_binaryField (by omega) n

/-- Whether all fields of a header have room for what they hold. -/
structure Header.Fits (h : Header) : Prop where
  name : h.name.size ≤ maxNameLength ∧ 0 ∉ h.name.toList
  mode : h.mode < 8 ^ 7
  uid : h.uid < 256 ^ 7
  gid : h.gid < 256 ^ 7
  size : h.size < 2 ^ 64
  mtime : h.mtime < 2 ^ 64

namespace Header

variable {h : Header}

theorem length_front (hf : h.Fits) : h.front.length = 148 := by
  have hmode : (octalField 8 h.mode).length = 8 := length_octalField (by decide) hf.mode
  simp only [front, List.length_append, length_fit, hmode, length_numberField (by decide : 1 < 8),
    length_numberField (by decide : 1 < 12)]
  rfl

theorem length_back (h : Header) : h.back.length = 356 := length_fit _ _

theorem byteSum_le (bytes : List UInt8) : byteSum bytes ≤ 255 * bytes.length := by
  have hfold : ∀ (bs : List UInt8) (acc : Nat), bs.foldl (fun n b => n + b.toNat) acc ≤ acc + 255 * bs.length := by
    intro bs
    induction bs with
    | nil => simp
    | cons b bs ih =>
      intro acc
      have := ih (acc + b.toNat)
      have := b.toNat_lt
      rw [List.foldl_cons, List.length_cons]
      omega
  have := hfold bytes 0
  rwa [Nat.zero_add] at this

theorem checksum_lt (hf : h.Fits) : checksum h.front h.back < 8 ^ 7 := by
  have h1 := byteSum_le h.front
  have h2 := byteSum_le h.back
  rw [length_front hf] at h1
  rw [length_back] at h2
  rw [checksum]
  omega

theorem toList_toBytes (h : Header) :
    h.toBytes.toList = h.front ++ octalField 8 (checksum h.front h.back) ++ h.back :=
  Bytes.toList_toByteArray _

theorem size_toBytes (hf : h.Fits) : h.toBytes.size = blockSize := by
  have hsum : (octalField 8 (checksum h.front h.back)).length = 8 :=
    length_octalField (by decide) (checksum_lt hf)
  rw [← Bytes.length_toList, toList_toBytes, List.length_append, List.length_append, length_front hf, hsum,
    length_back]
  rfl

/-- A part of some bytes at its place behind other parts. -/
theorem field_eq {bytes part : List UInt8} {start width : Nat} (before after : List (List UInt8))
    (h : bytes = (before ++ part :: after).flatten) (hs : (before.map List.length).sum = start)
    (hw : part.length = width) : (bytes.drop start).take width = part := by
  rw [h, List.flatten_append, List.flatten_cons, ← hs, ← List.length_flatten, List.drop_left, ← hw, List.take_left]

/-- The type stands behind the checksum. -/
theorem getD_back (h : Header) {bytes a : List UInt8} (hb : bytes = a ++ h.back) (ha : a.length = 156) :
    bytes.getD 156 0 = h.type := by
  rw [hb, List.getD_eq_getElem?_getD, List.getElem?_append_right (Nat.le_of_eq ha), ha, Nat.sub_self, back, fit]
  rfl

/-- A block that was written of a header is read as that header. -/
theorem ofBytes_toBytes (hf : h.Fits) : ofBytes h.toBytes = .ok h := by
  have hmode : (octalField 8 h.mode).length = 8 := length_octalField (by decide) hf.mode
  have hsum : (octalField 8 (checksum h.front h.back)).length = 8 :=
    length_octalField (by decide) (checksum_lt hf)
  have hfront := length_front hf
  have hname : (fit maxNameLength h.name.toList).length = 100 := length_fit _ _
  have huid := length_numberField (by decide : 1 < 8) h.uid
  have hgid := length_numberField (by decide : 1 < 8) h.gid
  have hsize := length_numberField (by decide : 1 < 12) h.size
  have hmtime := length_numberField (by decide : 1 < 12) h.mtime
  have hwhole := toList_toBytes h
  have hread := readOctal_octalField 8 (checksum h.front h.back)
  rw [ofBytes]
  generalize octalField 8 (checksum h.front h.back) = sum at hwhole hsum hread
  generalize h.toBytes.toList = bytes at hwhole ⊢
  simp only
  have hfront' : bytes = [h.front, sum, h.back].flatten := by simp [hwhole]
  have hparts : bytes = [fit maxNameLength h.name.toList, octalField 8 h.mode, numberField 8 h.uid,
      numberField 8 h.gid, numberField 12 h.size, numberField 12 h.mtime, sum, h.back].flatten := by
    simp [hwhole, front]
  -- what stands in front of the checksum, the checksum, and what stands behind it
  have ffront : (bytes.drop 0).take 148 = h.front := field_eq [] _ hfront' rfl hfront
  have fsum : (bytes.drop 148).take 8 = sum := field_eq [h.front] _ hfront' (by simp [hfront]) hsum
  have fback : (bytes.drop 156).take 356 = h.back :=
    field_eq [h.front, sum] [] hfront' (by simp [hfront, hsum]) (length_back h)
  -- the fields in front of the checksum
  have fname : (bytes.drop 0).take 100 = fit maxNameLength h.name.toList := field_eq [] _ hparts rfl hname
  have fmode : (bytes.drop 100).take 8 = octalField 8 h.mode := field_eq [_] _ hparts (by simp [hname]) hmode
  have fuid : (bytes.drop 108).take 8 = numberField 8 h.uid :=
    field_eq [_, _] _ hparts (by simp [hname, hmode]) huid
  have fgid : (bytes.drop 116).take 8 = numberField 8 h.gid :=
    field_eq [_, _, _] _ hparts (by simp [hname, hmode, huid]) hgid
  have fsize : (bytes.drop 124).take 12 = numberField 12 h.size :=
    field_eq [_, _, _, _] _ hparts (by simp [hname, hmode, huid, hgid]) hsize
  have fmtime : (bytes.drop 136).take 12 = numberField 12 h.mtime :=
    field_eq [_, _, _, _, _] _ hparts (by simp [hname, hmode, huid, hgid, hsize]) hmtime
  have ftype : bytes.getD 156 0 = h.type := getD_back h hwhole (by rw [List.length_append, hfront, hsum])
  rw [ffront, fsum, fback, fname, fmode, fuid, fgid, fsize, fmtime, ftype, hread, if_neg (not_not.2 rfl),
    readOctal_octalField, readNumber_numberField hf.uid (hf.uid.trans (by decide)),
    readNumber_numberField hf.gid (hf.gid.trans (by decide)),
    readNumber_numberField (hf.size.trans (by decide)) hf.size,
    readNumber_numberField (hf.mtime.trans (by decide)) hf.mtime, untilZero_fit hf.name.1 hf.name.2]

end Header

end ImageAssembly.Archive
