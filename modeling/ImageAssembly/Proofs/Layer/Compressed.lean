import ImageAssembly.Proofs.Gzip.Checksum
import ImageAssembly.Proofs.Layer.Making

/-! Layers of given content. The content is stored as a member whose header has no name and no time, so that it alone
decides what is stored; read back, the member is the same layer. So is every member of this form, however its blocks
were made. -/

namespace ImageAssembly

variable {reach : Gzip.Reach} {content : ByteArray} {bytes : List UInt8}

namespace Gzip

/-- Whether bytes are a member without a name and a time in its header: after blocks that write the content, its
CRC-32 and its length modulo 2^32. -/
inductive IsBareMember (reach : Reach) (content : ByteArray) : List UInt8 → Prop
  | intro {extra system : UInt8} {body : List UInt8} {xs padding : List Bool} {check : UInt32}
    (hbody : bitsOf body = xs ++ padding) (hpadding : padding.length < 8)
    (hblocks : IsBlocks reach 80 .empty xs content)
    (hcheck : Checksum.IsCrc32 (dataBits content) check) :
    IsBareMember reach content ([0x1F, 0x8B, 8, 0, 0, 0, 0, 0, extra, system] ++
      (body ++ (littleEndian 4 check.toNat ++ littleEndian 4 (content.size % 2 ^ 32))))

theorem trailer_eq (content : ByteArray) :
    littleEndian 4 (crc32 content).toNat ++ littleEndian 4 (content.size % 2 ^ 32) = trailer content :=
  congrArg (littleEndian 4 (crc32 content).toNat ++ ·) (littleEndian_mod 4 content.size)

theorem IsBareMember.isMember (h : IsBareMember reach content bytes) : IsMember reach bytes content := by
  obtain ⟨hbody, hpadding, hblocks, hcheck⟩ := h
  have hheader (extra system : UInt8) : IsHeader [0x1F, 0x8B, 8, 0, 0, 0, 0, 0, extra, system] :=
    @IsHeader.intro 0 [0, 0, 0, 0, extra, system] [] [] [] [] (by decide) rfl rfl rfl rfl rfl
  rw [Checksum.isCrc32_iff.1 hcheck, trailer_eq]
  exact .intro (hheader _ _) hbody hpadding hblocks

theorem isBareMember_compress (content : ByteArray) : IsBareMember .within content (compress content).toList := by
  obtain ⟨body, hbytes, hblocks⟩ := exists_body_compress content
  rw [hbytes, ← trailer_eq]
  exact .intro (List.append_nil _).symm (by decide) hblocks (Checksum.isCrc32_crc32 content)

end Gzip

namespace Layer

variable {blob : ByteArray}

/-- A member makes a layer, with the digest of what it holds as the diff id. -/
theorem ofBlob_of_isMember (h : Gzip.IsMember reach blob.toList content) :
    MemoryLayer.ofBlob blob = .ok ⟨blob, .layerGzip, .sha256 blob, .sha256 content, rfl⟩ := by
  rw [ofBlob_of_hasMagic (Gzip.hasMagic_of_decompress h.decompress), h.decompress]

/-- Any content makes a layer that stores a valid member without a name and a time, with the CRC-32 and the length of
the content behind its blocks; what is stored makes the same layer again, whose diff id is the digest of the content.
The same holds of every member of this form, whatever its blocks are. -/
theorem ofBlob_ofTar (tar : ByteArray) :
    (Gzip.IsBareMember .within tar (MemoryLayer.ofTar tar).blob.toList ∧
      MemoryLayer.ofBlob (MemoryLayer.ofTar tar).blob = .ok (.ofTar tar) ∧
      (MemoryLayer.ofTar tar).mediaType = .layerGzip ∧ (MemoryLayer.ofTar tar).diffId = .sha256 tar) ∧
    ∀ reach (blob : ByteArray), Gzip.IsBareMember reach tar blob.toList →
      MemoryLayer.ofBlob blob = .ok ⟨blob, .layerGzip, .sha256 blob, .sha256 tar, rfl⟩ := by
  refine ⟨⟨Gzip.isBareMember_compress tar, ?_, rfl, rfl⟩, fun reach blob h => ofBlob_of_isMember h.isMember⟩
  exact ofBlob_of_isMember (Gzip.isMember_compress tar)

/-- Three bytes, the first in a block of its own. -/
def inTwoBlocks : ByteArray :=
  ([0x1F, 0x8B, 8, 0, 0, 0, 0, 0, 0, 3] ++ ((Gzip.stored false ⟨#[1]⟩ ++ Gzip.stored true ⟨#[2, 3]⟩).toList ++
    (Gzip.littleEndian 4 (Gzip.crc32 ⟨#[1, 2, 3]⟩).toNat ++ Gzip.littleEndian 4 3))).toByteArray

theorem isBareMember_inTwoBlocks : Gzip.IsBareMember .within ⟨#[1, 2, 3]⟩ inTwoBlocks.toList := by
  have hinflates : Gzip.Inflates (Gzip.stored false ⟨#[1]⟩ ++ Gzip.stored true ⟨#[2, 3]⟩) ⟨#[1, 2, 3]⟩ :=
    (Gzip.inflates_last (by decide)).cons (by decide)
  have hblocks := hinflates 10 .empty
  rw [ByteArray.empty_append] at hblocks
  rw [inTwoBlocks, Bytes.toList_toByteArray]
  exact .intro (List.append_nil _).symm (by decide) hblocks (Gzip.Checksum.isCrc32_crc32 _)

/-- Three bytes as they are stored, and in two blocks under another header: other bytes with the same diff id. -/
theorem ofBlob_ofTar_in_two_blocks : Gzip.IsBareMember .within ⟨#[1, 2, 3]⟩ inTwoBlocks.toList ∧
    inTwoBlocks.size = 31 ∧ (MemoryLayer.ofTar ⟨#[1, 2, 3]⟩).blob.size = 26 ∧
    MemoryLayer.ofBlob (MemoryLayer.ofTar ⟨#[1, 2, 3]⟩).blob = .ok (.ofTar ⟨#[1, 2, 3]⟩) ∧
    MemoryLayer.ofBlob inTwoBlocks =
      .ok ⟨inTwoBlocks, .layerGzip, .sha256 inTwoBlocks, .sha256 ⟨#[1, 2, 3]⟩, rfl⟩ := by
  obtain ⟨⟨-, htar, -⟩, hblob⟩ := ofBlob_ofTar ⟨#[1, 2, 3]⟩
  exact ⟨isBareMember_inTwoBlocks, by decide +kernel, by decide +kernel, htar, hblob _ _ isBareMember_inTwoBlocks⟩

end Layer

end ImageAssembly
