import ImageAssembly.Proofs.Gzip.Blocks
import ImageAssembly.Proofs.Gzip.Header

/-! Members. A header, blocks up to where a byte begins, and the checksum and the length of what the blocks write. The
copies of a valid member stay within its content; a reader takes members whose copies reach before the beginning too.
What stands behind a member does not matter to its reader. -/

namespace ImageAssembly.Gzip

variable {reach : Reach} {data content : ByteArray} {next : Nat} {bytes rest : List UInt8}

/-! ### Trailers -/

/-- A checksum has four bytes. -/
theorem crc32_mod (content : ByteArray) : (crc32 content).toNat % 256 ^ 4 = (crc32 content).toNat :=
  Nat.mod_eq_of_lt (crc32 content).toNat_lt

theorem within_trailer_iff {j : Nat} : Within data.toList j next (trailer content) ↔ ∃ mid check length,
    (Within data.toList j mid check ∧ check.length = 4 ∧ number check = (crc32 content).toNat) ∧
      Within data.toList mid next length ∧ length.length = 4 ∧ number length = content.size % Nat.pow 2 32 := by
  rw [trailer, Within.append_iff]
  constructor
  · rintro ⟨mid, hcheck, hlength⟩
    refine ⟨mid, _, _, ⟨hcheck, ?_, ?_⟩, hlength, ?_, ?_⟩
    · exact length_littleEndian _ _
    · rw [number_littleEndian, crc32_mod]
    · exact length_littleEndian _ _
    · exact number_littleEndian _ _
  · rintro ⟨mid, check, length, ⟨hcheck, hfour, hnumber⟩, hlength, hfour', hnumber'⟩
    obtain rfl := eq_littleEndian_iff.2 ⟨hfour, hnumber.trans (crc32_mod content).symm⟩
    obtain rfl := eq_littleEndian_iff.2 ⟨hfour', hnumber'⟩
    exact ⟨mid, hcheck, hlength⟩

/-! ### Members -/

/-- Whether bytes are a member that holds some content. -/
inductive IsMember (reach : Reach) : List UInt8 → ByteArray → Prop
  | intro {header body : List UInt8} {xs padding : List Bool} {content : ByteArray} (hheader : IsHeader header)
    (hbody : bitsOf body = xs ++ padding) (hpadding : padding.length < 8)
    (hblocks : IsBlocks reach (8 * header.length) .empty xs content) :
    IsMember reach (header ++ (body ++ trailer content)) content

theorem IsMember.beyond (h : IsMember reach bytes content) : IsMember .beyond bytes content := by
  obtain ⟨hheader, hbody, hpadding, hblocks⟩ := h
  exact .intro hheader hbody hpadding (hblocks.carry (carries_beyond reach))

/-- Bits that begin where a byte does, with those up to the end of their last byte, are bytes. -/
theorem within_body_iff {i j pos : Nat} {xs : List Bool} :
    Within (dataBits data) (8 * i) pos xs ∧ j = byteBoundary pos / 8 ↔
      ∃ body padding, Within data.toList i j body ∧ bitsOf body = xs ++ padding ∧ padding.length < 8 ∧
        pos = 8 * i + xs.length := by
  constructor
  · rintro ⟨hxs, rfl⟩
    have hend := byteBoundary_le (le_bitSize hxs)
    rw [← length_dataBits] at hend
    obtain ⟨padding, hpadding⟩ := exists_between (le_byteBoundary pos) hend
    have hnext := hpadding.next_eq
    rw [byteBoundary_eq] at hpadding
    obtain ⟨body, hbody, hbits⟩ := exists_bytes (hxs.append hpadding)
    refine ⟨body, padding, hbody, hbits, ?_, hxs.next_eq⟩
    rw [byteBoundary] at hnext
    omega
  · rintro ⟨body, padding, hbody, hbits, hpadding, rfl⟩
    have hwithin := within_bits hbody
    rw [hbits] at hwithin
    obtain ⟨pos, hxs, hrest⟩ := Within.append_iff.1 hwithin
    obtain rfl := hxs.next_eq
    refine ⟨hxs, ?_⟩
    have hend := hrest.next_eq
    rw [byteBoundary]
    omega

/-- A reader takes just a member that stands in front. -/
theorem readMember_eq_ok : readMember data = .ok (content, next) ↔
    ∃ bytes, Within data.toList 0 next bytes ∧ IsMember .beyond bytes content := by
  simp only [readMember, bind_eq_ok, Prod.exists, readHeader_eq_ok, inflateFrom_eq_ok, readNumber_eq_ok]
  constructor
  · rintro ⟨i, ⟨header, hheader, hisheader⟩, out, pos, ⟨xs, hxs, hblocks⟩, _, mid, ⟨check, hcheck, hfour, rfl⟩,
      _, _, ⟨length, hlength, hfour', rfl⟩, h⟩
    split_ifs at h with htrailer
    cases h
    have htrailer := within_trailer_iff.2 ⟨mid, check, length, ⟨hcheck, hfour, htrailer.1⟩, hlength, hfour', htrailer.2⟩
    obtain ⟨body, padding, hbody, hbits, hpadding, -⟩ := within_body_iff.1 ⟨hxs, rfl⟩
    rw [hheader.next_eq, Nat.zero_add] at hblocks
    exact ⟨_, hheader.append (hbody.append htrailer), .intro hisheader hbits hpadding hblocks⟩
  · rintro ⟨_, hmember, @⟨header, body, xs, padding, content, hisheader, hbits, hpadding, hblocks⟩⟩
    obtain ⟨i, hheader, h⟩ := Within.append_iff.1 hmember
    obtain ⟨j, hbody, htrailer⟩ := Within.append_iff.1 h
    obtain rfl : i = header.length := by rw [hheader.next_eq, Nat.zero_add]
    obtain ⟨hxs, rfl⟩ := within_body_iff.2 ⟨body, padding, hbody, hbits, hpadding, rfl⟩
    obtain ⟨mid, check, length, ⟨hcheck, hfour, hnumber⟩, hlength, hfour', hnumber'⟩ := within_trailer_iff.1 htrailer
    refine ⟨_, ⟨header, hheader, hisheader⟩, content, _, ⟨xs, hxs, hblocks⟩, _, mid, ⟨check, hcheck, hfour, rfl⟩,
      _, next, ⟨length, hlength, hfour', rfl⟩, ?_⟩
    rw [if_pos ⟨hnumber, hnumber'⟩]
    rfl

/-- What stands behind a member is not looked at. -/
theorem decompress_of_isMember (h : IsMember reach bytes content) (hdata : data.toList = bytes ++ rest) :
    decompress data = .ok content := by
  have hread : readMember data = .ok (content, bytes.length) :=
    readMember_eq_ok.2 ⟨bytes, ⟨[], rest, hdata, rfl, Nat.zero_add _⟩, h.beyond⟩
  rw [decompress, hread]
  rfl

theorem IsMember.decompress (h : IsMember reach data.toList content) : decompress data = .ok content :=
  decompress_of_isMember h (List.append_nil _).symm

/-- Only what begins like a member has a content. -/
theorem hasMagic_of_decompress (h : decompress data = .ok content) : hasMagic data = true := by
  obtain ⟨⟨content, next⟩, hread, rfl⟩ := map_eq_ok.1 h
  obtain ⟨i, hheader, -⟩ := bind_eq_ok.1 hread
  exact hasMagic_of_readHeader hheader

/-! ### Members in turn -/

/-- Whether bytes are members in turn that hold given contents. -/
inductive AreMembers (reach : Reach) : List UInt8 → List ByteArray → Prop
  | nil : AreMembers reach [] []
  | cons {bytes rest : List UInt8} {content : ByteArray} {contents : List ByteArray}
    (hmember : IsMember reach bytes content) (hrest : AreMembers reach rest contents) :
    AreMembers reach (bytes ++ rest) (content :: contents)

/-- What members hold altogether. -/
def joined (contents : List ByteArray) : ByteArray := contents.foldr (· ++ ·) .empty

theorem joined_of_empty {contents : List ByteArray} (h : ∀ c ∈ contents, c = .empty) : joined contents = .empty := by
  induction contents with
  | nil => rfl
  | cons c contents ih =>
    rw [joined, List.foldr_cons, ← joined, ih fun c hc => h c (List.mem_cons_of_mem _ hc), h c List.mem_cons_self]
    rfl

/-- Of members in turn the first alone is decompressed. -/
theorem AreMembers.decompress {contents : List ByteArray} (h : AreMembers reach data.toList (content :: contents)) :
    decompress data = .ok content := by
  generalize hbytes : data.toList = bytes at h
  cases h with
  | cons hmember _ => exact decompress_of_isMember hmember hbytes

end ImageAssembly.Gzip
