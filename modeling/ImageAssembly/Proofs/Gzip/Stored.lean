import ImageAssembly.Proofs.Gzip.Members

/-! Compressing. Content is put into stored blocks one after another, and what is written is a member, so that it is
read back. -/

namespace ImageAssembly.Gzip

variable {data body bytes plain : ByteArray} {last : Bool}

/-! ### Numbers -/

theorem value_range (v n : Nat) : value ((List.range n).map v.testBit) = v % 2 ^ n := by
  induction n with
  | zero => rw [pow_zero, Nat.mod_one]; rfl
  | succ n ih =>
    have hbit : (v.testBit n).toNat = v / 2 ^ n % 2 := Nat.toNat_testBit v n
    rw [List.range_succ, List.map_append, value_append, ih, List.length_map, List.length_range, pow_succ, Nat.mod_mul,
      ← hbit]
    simp [value]

/-- The bits of bytes write the same number as the bytes. -/
theorem value_bitsOf (bytes : List UInt8) : value (bitsOf bytes) = number bytes := by
  induction bytes with
  | nil => rfl
  | cons b bytes ih =>
    have hbyte : value (byteBits b) = b.toNat := by rw [byteBits, value_range, Nat.mod_eq_of_lt b.toNat_lt]
    rw [bitsOf_cons, value_append, hbyte, ih, length_byteBits, number]
    rfl

/-! ### Blocks -/

/-- What stands in front of the bytes of a stored block. -/
def blockHead (last : Bool) (length : Nat) : List UInt8 :=
  (if last then 1 else 0) :: (littleEndian 2 length ++ littleEndian 2 (0xFFFF - length))

/-- A stored block. -/
def stored (last : Bool) (body : ByteArray) : ByteArray := (blockHead last body.size).toByteArray ++ body

/-- A stored block that begins where a byte begins is a block. -/
theorem isBlock_stored (n : Nat) (out : ByteArray) (last : Bool) (hbody : body.size ≤ maxStored) :
    IsBlock .within (8 * n) out (bitsOf (stored last body).toList) last (out ++ body) := by
  have hmax : maxStored = 65535 := rfl
  have hflag : bitsOf [if last then 1 else 0] = [last] ++ ([false, false] ++ List.replicate 5 false) := by
    cases last <;> decide
  have hvalue {v : Nat} (hv : v < 256 ^ 2) : value (bitsOf (littleEndian 2 v)) = v := by
    rw [value_bitsOf, number_littleEndian, Nat.mod_eq_of_lt hv]
  have hlength (v : Nat) : (bitsOf (littleEndian 2 v)).length = 16 := by
    rw [length_bitsOf, length_littleEndian]
  have hbits : bitsOf (stored last body).toList =
      [last] ++ ([false, false] ++ (List.replicate 5 false ++ (bitsOf (littleEndian 2 body.size) ++
        (bitsOf (littleEndian 2 (0xFFFF - body.size)) ++ bitsOf body.toList)))) := by
    rw [stored, Bytes.toList_append, Bytes.toList_toByteArray, blockHead, ← List.singleton_append, bitsOf_append,
      bitsOf_append, bitsOf_append, hflag]
    simp only [List.append_assoc]
  rw [hbits]
  refine .intro (.stored (.intro ?_ (hlength _) (hlength _) (hvalue (by omega)) ?_))
  · rw [byteBoundary, List.length_replicate]
    omega
  · rw [hvalue (by omega), hvalue (by omega)]
    omega

/-- What is stored from a position on is one block, or a full one and what is stored behind it. -/
theorem storeFrom_eq (data out : ByteArray) (i : Nat) : storeFrom data out i =
    if data.size - i ≤ maxStored then out ++ stored true (data.extract i data.size)
    else storeFrom data (out ++ stored false (data.extract i (i + maxStored))) (i + maxStored) := by
  rw [storeFrom]
  split_ifs with h
  · have hbody : data.extract i (i + (data.size - i)) = data.extract i data.size := by
      refine Bytes.toList_inj ?_
      rw [Bytes.toList_extract, Bytes.toList_extract, Nat.add_sub_cancel_left]
    have hsize : (data.extract i data.size).size = data.size - i := by
      rw [ByteArray.size_extract, Nat.min_self]
    rw [stored, blockHead, hsize, if_pos rfl]
    simp only [Nat.min_eq_right h, hbody, ByteArray.append_assoc]
  · have hle := Nat.le_of_not_le h
    have hsize : (data.extract i (i + maxStored)).size = maxStored := by
      rw [ByteArray.size_extract]
      omega
    rw [stored, blockHead, hsize]
    simp only [Nat.min_eq_left hle, if_false, Bool.false_eq_true, ByteArray.append_assoc]

/-- Whether bytes are blocks that write other bytes, wherever a byte begins and whatever has been written. -/
def Inflates (bytes plain : ByteArray) : Prop :=
  ∀ n out, IsBlocks .within (8 * n) out (bitsOf bytes.toList) (out ++ plain)

theorem inflates_last (hbody : body.size ≤ maxStored) : Inflates (stored true body) body :=
  fun n out => .last (isBlock_stored n out true hbody)

theorem Inflates.cons (h : Inflates bytes plain) (hbody : body.size ≤ maxStored) :
    Inflates (stored false body ++ bytes) (body ++ plain) := by
  intro n out
  have hrest := h (n + (stored false body).size) (out ++ body)
  rw [Nat.mul_add, ← Bytes.length_toList, ← length_bitsOf] at hrest
  rw [Bytes.toList_append, bitsOf_append, ← ByteArray.append_assoc]
  exact .more (isBlock_stored n out false hbody) hrest

/-- What is stored from a position on is written by blocks. -/
theorem exists_inflates_storeFrom (data out : ByteArray) (i : Nat) :
    ∃ bytes, storeFrom data out i = out ++ bytes ∧ Inflates bytes (data.extract i data.size) := by
  induction hn : data.size - i using Nat.strong_induction_on generalizing out i with
  | _ n ih =>
    have hmax : maxStored = 65535 := rfl
    rw [storeFrom_eq]
    split_ifs with h
    · refine ⟨_, rfl, inflates_last ?_⟩
      rw [ByteArray.size_extract]
      omega
    · obtain ⟨bytes, hbytes, hinflates⟩ := ih (data.size - (i + maxStored)) (by omega)
        (out ++ stored false (data.extract i (i + maxStored))) (i + maxStored) rfl
      have hbody : (data.extract i (i + maxStored)).size ≤ maxStored := by
        rw [ByteArray.size_extract]
        omega
      refine ⟨stored false (data.extract i (i + maxStored)) ++ bytes, ?_, ?_⟩
      · rw [hbytes, ByteArray.append_assoc]
      · rw [← Bytes.extract_append_extract_size data i maxStored]
        exact hinflates.cons hbody

/-! ### Members -/

theorem isHeader_plainHeader : IsHeader plainHeader :=
  @IsHeader.intro 0 [0, 0, 0, 0, 0, 0xFF] [] [] [] [] (by decide) rfl rfl rfl rfl rfl

/-- Compressed data, taken apart. -/
theorem exists_body_compress (data : ByteArray) :
    ∃ body, (compress data).toList = plainHeader ++ (body ++ trailer data) ∧
      IsBlocks .within (8 * plainHeader.length) .empty (bitsOf body) data := by
  obtain ⟨bytes, hbytes, hinflates⟩ := exists_inflates_storeFrom data plainHeader.toByteArray 0
  have hblocks := hinflates plainHeader.length .empty
  rw [ByteArray.extract_zero_size, ByteArray.empty_append] at hblocks
  refine ⟨bytes.toList, ?_, hblocks⟩
  rw [compress, hbytes, ByteArray.append_assoc, Bytes.toList_append, Bytes.toList_append, Bytes.toList_toByteArray,
    Bytes.toList_toByteArray]

/-- What content is compressed to is a valid member that holds it. -/
theorem isMember_compress (data : ByteArray) : IsMember .within (compress data).toList data := by
  obtain ⟨body, hbytes, hblocks⟩ := exists_body_compress data
  rw [hbytes]
  exact .intro isHeader_plainHeader (List.append_nil _).symm (by decide) hblocks

/-- What has been compressed is decompressed. -/
theorem decompress_compress (data : ByteArray) : decompress (compress data) = .ok data :=
  (isMember_compress data).decompress

/-- Compressed data begins like a gzip member. -/
theorem hasMagic_compress (data : ByteArray) : hasMagic (compress data) = true :=
  hasMagic_of_decompress (decompress_compress data)

theorem areMembers_empty : AreMembers .within ByteArray.empty.toList [] := by
  rw [Bytes.toList_eq]
  exact .nil

theorem areMembers_compress_append {contents : List ByteArray} (h : AreMembers .within data.toList contents) :
    AreMembers .within (compress content ++ data).toList (content :: contents) := by
  rw [Bytes.toList_append]
  exact .cons (isMember_compress content) h

end ImageAssembly.Gzip
