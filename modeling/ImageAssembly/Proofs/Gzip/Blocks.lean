import ImageAssembly.Proofs.Gzip.Tables

/-! Blocks. Three bits stand in front: whether the block is the last, and of which kind it is. -/

namespace ImageAssembly.Gzip

variable {reach reach' : Reach} {f : ByteArray → ByteArray} {data out out' : ByteArray} {pos next : Nat} {last : Bool}

/-! ### Stored blocks -/

/-- Whether bits are a stored block: bits up to where a byte begins, a length and its complement, and bytes. -/
inductive IsStored (pos : Nat) : List Bool → ByteArray → Prop
  | intro {padding length complement : List Bool} {body : ByteArray}
    (hpadding : pos + padding.length = byteBoundary pos) (hlength : length.length = 16)
    (hcomplement : complement.length = 16) (hsize : value length = body.size)
    (hsum : value length + value complement = 0xFFFF) :
    IsStored pos (padding ++ (length ++ (complement ++ bitsOf body.toList))) body

theorem takeBytes_eq_ok {i n : Nat} :
    (if 8 * i + 8 * n ≤ bitSize data then Except.ok (out ++ data.extract i (i + n), 8 * i + 8 * n)
      else .error Fault.incomplete) = .ok (out', next) ↔
    ∃ body, Within (dataBits data) (8 * i) next (bitsOf body.toList) ∧ body.size = n ∧ out' = out ++ body := by
  constructor
  · intro h
    split_ifs at h with hend
    cases h
    rw [bitSize, ← Bytes.length_toList] at hend
    obtain ⟨bytes, hbytes, hcount⟩ := exists_within (show i + n ≤ data.toList.length by omega)
    have hextract := toList_extract_of_within hbytes
    refine ⟨data.extract i (i + n), ?_, ?_, rfl⟩
    · rw [hextract, ← Nat.mul_add]
      exact within_bits hbytes
    · rw [← Bytes.length_toList, hextract, hcount]
  · rintro ⟨body, hbody, rfl, rfl⟩
    have hnext := hbody.next_eq
    rw [length_bitsOf, Bytes.length_toList, ← Nat.mul_add] at hnext
    have hend := le_bitSize hbody
    rw [hnext] at hbody hend
    rw [← Nat.mul_add, if_pos hend, Bytes.toList_inj (toList_extract_of_within (within_bitsOf_iff.1 hbody)), hnext]

theorem storedBlock_eq_ok : storedBlock data out pos = .ok (out', next) ↔
    ∃ xs body, Within (dataBits data) pos next xs ∧ IsStored pos xs body ∧ out' = out ++ body := by
  -- behind the two numbers a byte begins
  have hbehind {mid behind : Nat} {xs ys : List Bool} (hxs : Within (dataBits data) (byteBoundary pos) mid xs)
      (hys : Within (dataBits data) mid behind ys) (hlength : xs.length = 16) (hcomplement : ys.length = 16) :
      8 * (behind / 8) = behind := by
    rw [hys.next_eq, hxs.next_eq, hlength, hcomplement, byteBoundary]
    omega
  simp only [storedBlock, bind_eq_ok, Prod.exists, readBits_eq_ok, guard_eq_ok]
  constructor
  · rintro ⟨_, mid, ⟨xs, hxs, hlength, rfl⟩, _, behind, ⟨ys, hys, hcomplement, rfl⟩, hsum, h⟩
    rw [← hbehind hxs hys hlength hcomplement, Nat.mul_div_cancel_left _ (by decide)] at h
    obtain ⟨body, hbody, hsize, rfl⟩ := takeBytes_eq_ok.1 h
    rw [hbehind hxs hys hlength hcomplement] at hbody
    obtain ⟨padding, hpadding⟩ := exists_between (le_byteBoundary pos) hxs.start_le
    exact ⟨_, body, hpadding.append (hxs.append (hys.append hbody)),
      .intro hpadding.next_eq.symm hlength hcomplement hsize.symm (Decidable.not_not.1 hsum), rfl⟩
  · rintro ⟨_, body, hbits, ⟨hpadding, hlength, hcomplement, hsize, hsum⟩, rfl⟩
    obtain ⟨start, hgap, hnumbers⟩ := Within.append_iff.1 hbits
    obtain ⟨mid, hxs, hrest⟩ := Within.append_iff.1 hnumbers
    obtain ⟨behind, hys, hbody⟩ := Within.append_iff.1 hrest
    obtain rfl : start = byteBoundary pos := hgap.next_eq.trans hpadding
    refine ⟨_, mid, ⟨_, hxs, hlength, rfl⟩, _, behind, ⟨_, hys, hcomplement, rfl⟩, Decidable.not_not.2 hsum, ?_⟩
    rw [← hbehind hxs hys hlength hcomplement] at hbody ⊢
    rw [Nat.mul_div_cancel_left _ (by decide)]
    exact takeBytes_eq_ok.2 ⟨body, hbody, hsize.symm, rfl⟩

/-! ### Blocks -/

/-- Whether bits are what stands in a block of a kind, and what has been written then. -/
inductive IsBody (reach : Reach) (pos : Nat) (out : ByteArray) : List Bool → List Bool → ByteArray → Prop
  | stored {xs : List Bool} {body : ByteArray} (hstored : IsStored pos xs body) :
    IsBody reach pos out [false, false] xs (out ++ body)
  | fixed {xs : List Bool} {out' : ByteArray}
    (hcoded : IsCoded reach fixedLiteralLengths fixedDistanceLengths pos out xs out') :
    IsBody reach pos out [true, false] xs out'
  | dynamic {xs ys : List Bool} {literals distances : List Nat} {out' : ByteArray}
    (htables : IsTables xs literals distances)
    (hcoded : IsCoded reach literals distances (pos + xs.length) out ys out') :
    IsBody reach pos out [false, true] (xs ++ ys) out'

/-- Whether bits are a block, whether it is the last, and what has been written then. -/
inductive IsBlock (reach : Reach) (pos : Nat) (out : ByteArray) : List Bool → Bool → ByteArray → Prop
  | intro {last : Bool} {kind xs : List Bool} {out' : ByteArray} (hbody : IsBody reach (pos + 3) out kind xs out') :
    IsBlock reach pos out ([last] ++ (kind ++ xs)) last out'

/-- Whether bits are blocks up to the last one. -/
def IsBlocks (reach : Reach) : Nat → ByteArray → List Bool → ByteArray → Prop := Series (IsBlock reach)

theorem IsBody.length_kind {kind xs : List Bool} (h : IsBody reach pos out kind xs out') : kind.length = 2 := by
  cases h <;> rfl

theorem IsBlock.ne_nil {xs : List Bool} (h : IsBlock reach pos out xs last out') : xs ≠ [] := by
  cases h
  simp

theorem IsBody.carry {kind xs : List Bool} (h : IsBody reach pos out kind xs out') (hf : Carries reach reach' f) :
    IsBody reach' pos (f out) kind xs (f out') := by
  cases h with
  | stored hstored =>
    rw [hf.append]
    exact .stored hstored
  | fixed hcoded => exact .fixed (hcoded.carry hf)
  | dynamic htables hcoded => exact .dynamic htables (hcoded.carry hf)

theorem IsBlocks.carry {xs : List Bool} (h : IsBlocks reach pos out xs out') (hf : Carries reach reach' f) :
    IsBlocks reach' pos (f out) xs (f out') := by
  refine Series.carry (fun _ _ _ _ _ hblock => ?_) h
  obtain ⟨hbody⟩ := hblock
  exact .intro (hbody.carry hf)

/-- What stands in a block, by the number that tells its kind. -/
def readBody (data out : ByteArray) (kind pos : Nat) : Except Fault (ByteArray × Nat) :=
  if kind = 0 then storedBlock data out pos
  else if kind = 1 then codedBlock fixedLiterals fixedDistances data out pos
  else if kind = 2 then do
    let ((literals, distances), pos) ← readCodes data pos
    codedBlock literals distances data out pos
  else throw .corrupt

theorem readBody_eq_ok {kind : List Bool} (hkind : kind.length = 2) :
    readBody data out (value kind) pos = .ok (out', next) ↔
      ∃ xs, Within (dataBits data) pos next xs ∧ IsBody .beyond pos out kind xs out' := by
  obtain ⟨a, b, rfl⟩ := List.length_eq_two.1 hkind
  rw [readBody, fixedLiterals, fixedDistances]
  cases b with
  | false =>
    cases a with
    | false =>
      rw [if_pos (by decide), storedBlock_eq_ok]
      constructor
      · rintro ⟨xs, body, hxs, hstored, rfl⟩
        exact ⟨xs, hxs, .stored hstored⟩
      · rintro ⟨xs, hxs, @⟨_, body, hstored⟩⟩
        exact ⟨xs, body, hxs, hstored, rfl⟩
    | true =>
      rw [if_neg (by decide), if_pos (by decide), codedBlock_eq_ok]
      constructor
      · rintro ⟨xs, hxs, hcoded⟩
        exact ⟨xs, hxs, .fixed hcoded⟩
      · rintro ⟨xs, hxs, hbody⟩
        cases hbody with
        | fixed hcoded => exact ⟨xs, hxs, hcoded⟩
  | true =>
    cases a with
    | false =>
      rw [if_neg (by decide), if_neg (by decide), if_pos (by decide)]
      simp only [bind_eq_ok, Prod.exists, readCodes_eq_ok, Prod.mk.injEq]
      constructor
      · rintro ⟨_, _, mid, ⟨xs, literals, distances, hxs, htables, rfl, rfl⟩, hread⟩
        obtain ⟨ys, hys, hcoded⟩ := codedBlock_eq_ok.1 hread
        exact ⟨xs ++ ys, hxs.append hys, .dynamic htables (hxs.next_eq ▸ hcoded)⟩
      · rintro ⟨_, hbits, hbody⟩
        cases hbody with
        | @dynamic xs ys literals distances _ htables hcoded =>
          obtain ⟨mid, hxs, hys⟩ := Within.append_iff.1 hbits
          exact ⟨_, _, mid, ⟨xs, literals, distances, hxs, htables, rfl, rfl⟩,
            codedBlock_eq_ok.2 ⟨ys, hys, hxs.next_eq ▸ hcoded⟩⟩
    | true =>
      rw [if_neg (by decide), if_neg (by decide), if_neg (by decide)]
      exact ⟨nofun, fun ⟨_, _, hbody⟩ => nomatch hbody⟩

theorem readBody_bind {α : Type} (kind : Nat) (f : ByteArray × Nat → Except Fault α) :
    (readBody data out kind pos >>= f) =
      if kind = 0 then storedBlock data out pos >>= f
      else if kind = 1 then codedBlock fixedLiterals fixedDistances data out pos >>= f
      else if kind = 2 then
        readCodes data pos >>= fun ((literals, distances), pos) => codedBlock literals distances data out pos >>= f
      else throw .corrupt >>= f := by
  rw [readBody]
  split_ifs
  · rfl
  · rfl
  · cases readCodes data pos <;> rfl
  · rfl

theorem block_eq (data out : ByteArray) (pos : Nat) : block data out pos = (do
    let (last, pos) ← readBits data 1 pos
    let (kind, pos) ← readBits data 2 pos
    let (out, pos) ← readBody data out kind pos
    pure (last = 1, out, pos)) := by
  simp only [block, readBody_bind]

theorem block_eq_ok : block data out pos = .ok (last, out', next) ↔
    ∃ xs, Within (dataBits data) pos next xs ∧ IsBlock .beyond pos out xs last out' := by
  have hlast (x : Bool) : decide (value [x] = 1) = x := by cases x <;> rfl
  rw [block_eq]
  simp only [bind_eq_ok, Prod.exists, readBits_eq_ok]
  constructor
  · rintro ⟨_, mid, ⟨xs, hxs, hone, rfl⟩, _, behind, ⟨kind, hkind, htwo, rfl⟩, _, _, hread, hok⟩
    obtain ⟨x, rfl⟩ := List.length_eq_one_iff.1 hone
    obtain ⟨zs, hzs, hbody⟩ := (readBody_eq_ok htwo).1 hread
    cases hok
    rw [hkind.next_eq, hxs.next_eq, htwo] at hbody
    rw [hlast]
    exact ⟨_, hxs.append (hkind.append hzs), .intro hbody⟩
  · rintro ⟨_, hbits, @⟨_, kind, zs, _, hbody⟩⟩
    have htwo := hbody.length_kind
    obtain ⟨mid, hxs, hrest⟩ := Within.append_iff.1 hbits
    obtain ⟨behind, hkind, hzs⟩ := Within.append_iff.1 hrest
    obtain rfl : behind = pos + 3 := by rw [hkind.next_eq, hxs.next_eq, htwo]; rfl
    exact ⟨_, mid, ⟨_, hxs, rfl, rfl⟩, _, _, ⟨kind, hkind, htwo, rfl⟩, out', next,
      (readBody_eq_ok htwo).2 ⟨zs, hzs, hbody⟩, by rw [hlast]; rfl⟩

/-- Blocks are read up to the last one. -/
theorem inflateFrom_eq_ok : inflateFrom data out pos = .ok (out', next) ↔
    ∃ xs, Within (dataBits data) pos next xs ∧ IsBlocks .beyond pos out xs out' := by
  refine series_eq_ok (fun out pos => ?_) block_eq_ok IsBlock.ne_nil
  rw [inflateFrom]
  rfl

end ImageAssembly.Gzip
