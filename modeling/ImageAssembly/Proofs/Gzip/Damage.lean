import ImageAssembly.Proofs.Gzip.Members

/-! Damaged members. The header and the blocks of a member tell where they end, so that of all bytes with the same
beginning one alone is a member. What is cut off, or has another trailer behind its blocks, is therefore not
decompressed. -/

namespace ImageAssembly.Gzip

variable {reach reach' : Reach} {data content content' : ByteArray}
  {bytes header header' body body' member rest rest' : List UInt8} {xs xs' padding padding' : List Bool}

theorem within_toByteArray (before bytes rest : List UInt8) :
    Within (before ++ (bytes ++ rest)).toByteArray.toList before.length (before.length + bytes.length) bytes :=
  ⟨before, rest, Bytes.toList_toByteArray _, rfl, rfl⟩

theorem IsHeader.unique (h : IsHeader header) (h' : IsHeader header') (heq : header ++ rest = header' ++ rest') :
    header = header' ∧ rest = rest' := by
  have hread := readHeader_eq_ok.2 ⟨header, within_toByteArray [] header rest, h⟩
  have hread' := readHeader_eq_ok.2 ⟨header', within_toByteArray [] header' rest', h'⟩
  rw [List.nil_append, heq] at hread
  have hlength := Except.ok.inj (hread.symm.trans hread')
  exact List.append_inj heq (by simpa using hlength)

/-- Blocks that are followed by the same bytes up to where a byte begins end at the same place. -/
theorem IsBlocks.unique {before : List UInt8} (hblocks : IsBlocks reach (8 * before.length) .empty xs content)
    (hbody : bitsOf body = xs ++ padding) (hpadding : padding.length < 8)
    (hblocks' : IsBlocks reach' (8 * before.length) .empty xs' content') (hbody' : bitsOf body' = xs' ++ padding')
    (hpadding' : padding'.length < 8) (heq : body ++ rest = body' ++ rest') :
    content = content' ∧ body = body' ∧ rest = rest' := by
  obtain ⟨hxs, hend⟩ := within_body_iff.2 ⟨body, padding, within_toByteArray before body rest, hbody, hpadding, rfl⟩
  obtain ⟨hxs', hend'⟩ :=
    within_body_iff.2 ⟨body', padding', within_toByteArray before body' rest', hbody', hpadding', rfl⟩
  have hread := inflateFrom_eq_ok.2 ⟨xs, hxs, hblocks.carry (carries_beyond reach)⟩
  have hread' := inflateFrom_eq_ok.2 ⟨xs', hxs', hblocks'.carry (carries_beyond reach')⟩
  rw [heq] at hread
  obtain ⟨rfl, hpos⟩ := Prod.mk.inj (Except.ok.inj (hread.symm.trans hread'))
  rw [← hpos] at hend'
  exact ⟨rfl, List.append_inj heq (by omega)⟩

/-- Behind a header and blocks a member has the trailer of what the blocks write, and nothing else. -/
theorem eq_of_isMember (hheader : IsHeader header) (hblocks : IsBlocks reach (8 * header.length) .empty xs content)
    (hbody : bitsOf body = xs ++ padding) (hpadding : padding.length < 8) (hmember : IsMember reach' member content')
    (heq : header ++ (body ++ rest) = member ++ rest') :
    content = content' ∧ member = header ++ (body ++ trailer content) ∧ rest = trailer content ++ rest' := by
  obtain @⟨header', body', xs', padding', content', hheader', hbody', hpadding', hblocks'⟩ := hmember
  rw [List.append_assoc, List.append_assoc] at heq
  obtain ⟨rfl, hrest⟩ := hheader.unique hheader' heq
  obtain ⟨rfl, rfl, htrailer⟩ := hblocks.unique hbody hpadding hblocks' hbody' hpadding' hrest
  exact ⟨rfl, rfl, htrailer⟩

/-- No member is the beginning of another. -/
theorem IsMember.unique {member' : List UInt8} (h : IsMember reach member content)
    (h' : IsMember reach' member' content') (heq : member ++ rest = member' ++ rest') :
    content = content' ∧ member = member' := by
  obtain @⟨header, body, xs, padding, content, hheader, hbody, hpadding, hblocks⟩ := h
  rw [List.append_assoc, List.append_assoc] at heq
  obtain ⟨rfl, hmember, -⟩ := eq_of_isMember hheader hblocks hbody hpadding h' heq
  exact ⟨rfl, hmember.symm⟩

/-! ### Ways of damage -/

end ImageAssembly.Gzip
