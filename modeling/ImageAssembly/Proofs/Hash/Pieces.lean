import ImageAssembly.Digest
import ImageAssembly.Proofs.Text.Bytes

/-! Hashing in pieces. However a message is cut, the hasher comes to the hash of the whole, so that the digest
of what a source delivers is the digest of its bytes. -/

namespace ImageAssembly

/-! ### Blocks -/

namespace Sha256

/-- Takes one of the blocks of `data` into the chain. -/
def absorbBlock (data : ByteArray) (i : Nat) (s : Chain) : Chain :=
  compress s (data.extract (blockSize * i) (blockSize * i + blockSize))

theorem absorb_eq (s : Chain) (data : ByteArray) :
    absorb s data = Nat.fold (data.size / blockSize) (fun i _ s => absorbBlock data i s) s := rfl

theorem absorbBlock_append_left {a b : ByteArray} {i : Nat} (h : blockSize * i + blockSize ≤ a.size) (s : Chain) :
    absorbBlock (a ++ b) i s = absorbBlock a i s := by
  rw [absorbBlock, absorbBlock]
  congr 1
  refine Bytes.toList_inj ?_
  rw [Bytes.toList_extract, Bytes.toList_extract, Bytes.toList_append, List.drop_append_of_le_length,
    List.take_append_of_le_length]
  · rw [List.length_drop, Bytes.length_toList]
    omega
  · rw [Bytes.length_toList]
    omega

theorem absorbBlock_append_right {a b : ByteArray} {k i : Nat} (h : a.size = blockSize * k) (s : Chain) :
    absorbBlock (a ++ b) (k + i) s = absorbBlock b i s := by
  rw [absorbBlock, absorbBlock]
  congr 1
  refine Bytes.toList_inj ?_
  rw [Bytes.toList_extract, Bytes.toList_extract, Bytes.toList_append, Nat.mul_add, ← h, ← Bytes.length_toList a,
    List.drop_length_add_append]
  congr 1
  omega

/-- Steps that do the same lead to the same. -/
theorem fold_congr_step {α : Type} {f g : Nat → α → α} {n : Nat} (h : ∀ i < n, ∀ s, f i s = g i s) (s : α) :
    Nat.fold n (fun i _ s => f i s) s = Nat.fold n (fun i _ s => g i s) s := by
  induction n with
  | zero => rfl
  | succ n ih => rw [Nat.fold_succ, Nat.fold_succ, ih fun i hi => h i (by omega), h n (by omega)]

/-- Whole blocks may be taken in first. -/
theorem absorb_append {a : ByteArray} {k : Nat} (h : a.size = blockSize * k) (b : ByteArray) (s : Chain) :
    absorb s (a ++ b) = absorb (absorb s a) b := by
  have hpos : 0 < blockSize := by decide
  have hsize : (a ++ b).size / blockSize = k + b.size / blockSize := by
    rw [ByteArray.size_append, h, Nat.mul_add_div hpos]
  have hka : a.size / blockSize = k := by rw [h, Nat.mul_div_cancel_left _ hpos]
  have hfirst : Nat.fold k (fun i _ s => absorbBlock (a ++ b) i s) s = absorb s a := by
    rw [absorb_eq, hka]
    refine fold_congr_step (fun i hi s => absorbBlock_append_left ?_ s) s
    rw [h, ← Nat.mul_succ]
    exact Nat.mul_le_mul_left _ hi
  rw [absorb_eq, hsize, Nat.fold_add, hfirst, absorb_eq _ b]
  exact fold_congr_step (fun i _ s => absorbBlock_append_right h s) _

theorem size_blocks (data : ByteArray) :
    (data.extract 0 (blockSize * (data.size / blockSize))).size = blockSize * (data.size / blockSize) := by
  have := Nat.mul_div_le data.size blockSize
  rw [ByteArray.size_extract]
  omega

/-- Data is its whole blocks and what is behind them. -/
theorem extract_blocks (data : ByteArray) : data.extract 0 (blockSize * (data.size / blockSize)) ++
    data.extract (blockSize * (data.size / blockSize)) data.size = data := by
  rw [← ByteArray.extract_eq_extract_append_extract _ (Nat.zero_le _) (Nat.mul_div_le data.size blockSize),
    ByteArray.extract_zero_size]

/-- The bytes behind the last whole block make no difference. -/
theorem absorb_extract (s : Chain) (data : ByteArray) :
    absorb s (data.extract 0 (blockSize * (data.size / blockSize))) = absorb s data := by
  have hsplit : data.extract 0 (blockSize * (data.size / blockSize)) ++
      data.extract (blockSize * (data.size / blockSize)) data.size = data := extract_blocks data
  have hrest : (data.extract (blockSize * (data.size / blockSize)) data.size).size / blockSize = 0 := by
    rw [ByteArray.size_extract, Nat.min_self]
    exact Nat.div_eq_of_lt (by rw [blockSize]; omega)
  calc absorb s (data.extract 0 (blockSize * (data.size / blockSize)))
      = absorb (absorb s (data.extract 0 (blockSize * (data.size / blockSize))))
          (data.extract (blockSize * (data.size / blockSize)) data.size) := by
        rw [absorb_eq _ (data.extract (blockSize * (data.size / blockSize)) data.size), hrest, Nat.fold_zero]
    _ = absorb s data := by rw [← absorb_append (size_blocks data), hsplit]

/-! ### The hasher -/

namespace Hasher

/-- Whether a hasher has taken in a message: all of it but what it keeps back, in whole blocks. -/
def Represents (h : Hasher) (message : ByteArray) : Prop :=
  h.length = message.size ∧ ∃ (taken : ByteArray) (k : Nat), taken.size = blockSize * k ∧
    message = taken ++ h.pending ∧ h.chain = absorb initial taken

theorem represents_start : start.Represents .empty := ⟨rfl, .empty, 0, rfl, rfl, rfl⟩

theorem Represents.update {h : Hasher} {message : ByteArray} (hr : h.Represents message) (piece : ByteArray) :
    (h.update piece).Represents (message ++ piece) := by
  obtain ⟨hlength, taken, k, hk, hmessage, hchain⟩ := hr
  have hsize := size_blocks (h.pending ++ piece)
  refine ⟨?_, taken ++ (h.pending ++ piece).extract 0 (blockSize * ((h.pending ++ piece).size / blockSize)),
    k + (h.pending ++ piece).size / blockSize, ?_, ?_, ?_⟩
  · rw [ByteArray.size_append, ← hlength]
    rfl
  · rw [ByteArray.size_append, hk, hsize, Nat.mul_add]
  · rw [Hasher.update, ByteArray.append_assoc, extract_blocks, ← ByteArray.append_assoc, ← hmessage]
  · rw [Hasher.update, absorb_append hk, ← hchain, absorb_extract]

/-- The hasher comes to the hash of what it has taken in. -/
theorem Represents.finish {h : Hasher} {message : ByteArray} (hr : h.Represents message) :
    h.finish = hash message := by
  obtain ⟨hlength, taken, k, hk, hmessage, hchain⟩ := hr
  rw [Hasher.finish, hash, hchain, ← absorb_append hk, hlength, ← ByteArray.append_assoc, ← hmessage]

end Hasher

end Sha256

/-! ### Sources -/

namespace Feed

variable {ε α : Type}

/-- What a source comes to, in whatever pieces it delivers: some bytes, or a fault behind pieces that are lost. -/
inductive Yields : Except ε ByteArray → Feed ε → Prop
  | done : Yields (.ok .empty) .done
  | ended (rest : Feed ε) : Yields (.ok .empty) (.piece .empty rest)
  | failed (fault : ε) : Yields (.error fault) (.failed fault)
  | piece {outcome : Except ε ByteArray} {bytes : ByteArray} {rest : Feed ε} (hbytes : bytes.isEmpty = false)
    (hrest : Yields outcome rest) : Yields (outcome.map (bytes ++ ·)) (.piece bytes rest)

/-- What a step does with a piece behind a message, a whole source does with its bytes. -/
theorem Yields.fold (step : α → ByteArray → α) (r : α → ByteArray → Prop)
    (hstep : ∀ acc message piece, r acc message → r (step acc piece) (message ++ piece))
    {outcome : Except ε ByteArray} {feed : Feed ε} (h : Yields outcome feed) {acc : α} {message : ByteArray}
    (hacc : r acc message) : match outcome with
      | .ok data => ∃ acc', feed.fold step acc = .ok acc' ∧ r acc' (message ++ data)
      | .error fault => feed.fold step acc = .error fault := by
  induction h generalizing acc message with
  | done => exact ⟨acc, rfl, by rwa [ByteArray.append_empty]⟩
  | ended rest => exact ⟨acc, rfl, by rwa [ByteArray.append_empty]⟩
  | failed fault => rfl
  | @piece outcome bytes rest hbytes hrest ih =>
    have hnext := ih (hstep acc message bytes hacc)
    rw [Feed.fold, hbytes, if_neg Bool.false_ne_true]
    cases outcome with
    | error fault => exact hnext
    | ok data =>
      obtain ⟨acc', hfold, hacc'⟩ := hnext
      exact ⟨acc', hfold, by rwa [← ByteArray.append_assoc]⟩

/-- No piece of known bytes is taken for their end. -/
theorem isEmpty_piece {data : ByteArray} {i : Nat} (hi : i < data.size) :
    (data.extract i (i + pieceSize)).isEmpty = false := by
  have hpos : 0 < pieceSize := Nat.zero_lt_succ _
  rw [ByteArray.isEmpty, ByteArray.size_extract, beq_eq_false_iff_ne]
  omega

theorem yields_ofBytesFrom (data : ByteArray) (i : Nat) :
    Yields (.ok (data.extract i data.size)) (ofBytesFrom data i : Feed ε) := by
  fun_induction ofBytesFrom (ε := ε) data i with
  | case1 i hi ih =>
    rw [← Bytes.extract_append_extract_size data i pieceSize]
    exact ih.piece (isEmpty_piece hi)
  | case2 i hi =>
    rw [Bytes.extract_size_of_le (Nat.le_of_not_lt hi)]
    exact .done

theorem yields_ofBytes (data : ByteArray) : Yields (.ok data) (ofBytes data : Feed ε) := by
  have h := yields_ofBytesFrom (ε := ε) data 0
  rwa [ByteArray.extract_zero_size] at h

/-- Known bytes are delivered as they are. -/
theorem fold_append_ofBytes (data : ByteArray) : (ofBytes data : Feed ε).fold (· ++ ·) .empty = .ok data := by
  obtain ⟨acc, hfold, hacc⟩ := (yields_ofBytes (ε := ε) data).fold (· ++ ·) (· = ·)
    (fun acc message piece h => congrArg (· ++ piece) h) rfl
  rw [hfold, hacc, ByteArray.empty_append]

/-- A source has the digest and the number of the bytes that it comes to. Where it fails there is no digest, whatever
it has delivered before. -/
theorem Yields.ofFeed {outcome : Except ε ByteArray} {feed : Feed ε} (h : Yields outcome feed) :
    Digest.ofFeed feed = outcome.map fun data => (.sha256 data, data.size) := by
  have hfold := h.fold (fun h piece => h.update piece) Sha256.Hasher.Represents
    (fun h message piece hr => hr.update piece) Sha256.Hasher.represents_start
  rw [Digest.ofFeed]
  cases outcome with
  | error fault => rw [show feed.fold _ _ = _ from hfold]; rfl
  | ok data =>
    obtain ⟨h, hfold, hr⟩ := hfold
    rw [ByteArray.empty_append] at hr
    rw [hfold, Except.map, hr.finish, hr.1, Except.map, Digest.sha256]

/-- The first of known bytes, behind those that are there already. -/
theorem take_ofBytesFrom (n : Nat) (data : ByteArray) (i : Nat) (acc : ByteArray) :
    (ofBytesFrom data i : Feed ε).take n acc = .ok ((acc ++ data.extract i data.size).extract 0 n) := by
  fun_induction ofBytesFrom (ε := ε) data i generalizing acc with
  | case1 i hi ih =>
    rw [take, isEmpty_piece hi]
    by_cases hn : n ≤ acc.size
    · rw [if_pos (.inl hn), Bytes.extract_append_of_le hn]
    · rw [if_neg (by simp [hn]), ih, ByteArray.append_assoc, Bytes.extract_append_extract_size]
  | case2 i hi => rw [take, Bytes.extract_size_of_le (Nat.le_of_not_lt hi), ByteArray.append_empty]

/-- The digest and the number of known bytes. -/
theorem ofFeed_ofBytes (data : ByteArray) : Digest.ofFeed (ofBytes data : Feed ε) = .ok (.sha256 data, data.size) :=
  (yields_ofBytes data).ofFeed

/-! ### Readers -/

/-- A source that delivers pieces one after another, and then goes on as `last` does. -/
def ofPieces (pieces : List ByteArray) (last : Feed ε) : Feed ε := pieces.foldr .piece last

/-- Whether a source is at its end: nothing comes, or an empty piece. -/
inductive IsEnd : Feed ε → Prop
  | done : IsEnd .done
  | empty (rest : Feed ε) : IsEnd (.piece .empty rest)

/-- Whether bytes are made up of pieces, none of them empty. -/
inductive Cut : ByteArray → List ByteArray → Prop
  | nil : Cut .empty []
  | cons {piece data : ByteArray} {pieces : List ByteArray} (hpiece : piece.isEmpty = false) (h : Cut data pieces) :
    Cut (piece ++ data) (piece :: pieces)

variable {data : ByteArray} {pieces : List ByteArray}

theorem IsEnd.yields {last : Feed ε} (h : IsEnd last) : Yields (.ok .empty) last := by
  cases h with
  | done => exact .done
  | empty rest => exact .ended rest

/-- What is delivered in pieces comes in front of what is delivered behind them. -/
theorem Cut.yields (h : Cut data pieces) {outcome : Except ε ByteArray} {last : Feed ε} (hlast : Yields outcome last) :
    Yields (outcome.map (data ++ ·)) (ofPieces pieces last) := by
  induction h with
  | nil =>
    have hsame : outcome.map (ByteArray.empty ++ ·) = outcome := by
      cases outcome with
      | error fault => rfl
      | ok behind => exact congrArg Except.ok ByteArray.empty_append
    rw [hsame]
    exact hlast
  | @cons piece data pieces hpiece h ih =>
    have hsame : outcome.map (piece ++ data ++ ·) = (outcome.map (data ++ ·)).map (piece ++ ·) := by
      cases outcome with
      | error fault => rfl
      | ok behind => exact congrArg Except.ok ByteArray.append_assoc
    rw [hsame]
    exact ih.piece hpiece

/-- Nothing more is asked for where there are enough bytes. -/
theorem take_of_le {n : Nat} {acc : ByteArray} (h : n ≤ acc.size) (feed : Feed ε) :
    feed.take n acc = .ok (acc.extract 0 n) := by
  cases feed with
  | done => rfl
  | failed fault => exact if_pos h
  | piece bytes rest => exact if_pos (.inl h)

theorem IsEnd.take {last : Feed ε} (h : IsEnd last) (n : Nat) (acc : ByteArray) :
    last.take n acc = .ok (acc.extract 0 n) := by
  cases h with
  | done => rfl
  | empty rest => exact if_pos (.inr rfl)

/-- The first bytes of what is delivered in pieces, behind those that are there already. What comes behind the pieces
is asked only if there are too few. -/
theorem Cut.take (h : Cut data pieces) (last : Feed ε) (n : Nat) (acc : ByteArray) :
    (ofPieces pieces last).take n acc =
      if n ≤ (acc ++ data).size then .ok ((acc ++ data).extract 0 n) else last.take n (acc ++ data) := by
  induction h generalizing acc with
  | nil =>
    rw [ByteArray.append_empty]
    split_ifs with hn
    · exact take_of_le hn last
    · rfl
  | @cons piece data pieces hpiece h ih =>
    show (if n ≤ acc.size ∨ piece.isEmpty then _ else (ofPieces pieces last).take n (acc ++ piece)) = _
    by_cases hn : n ≤ acc.size
    · have hle : n ≤ (acc ++ (piece ++ data)).size := by
        rw [ByteArray.size_append]
        omega
      rw [if_pos (.inl hn), if_pos hle, Bytes.extract_append_of_le hn]
    · rw [if_neg (by simp [hn, hpiece]), ih, ByteArray.append_assoc]

/-- Nothing is lost of what a source delivers in pieces, however its bytes are cut. Where it ends, the digest is that of
all its bytes, with their number, and the first bytes are as many as are asked for, or all if there are fewer. Where it
fails there is no digest, and there are no first bytes unless as many as are asked for came before. -/
theorem pieces_delivered_whole {ε : Type} {data : ByteArray} {pieces : List ByteArray} (hcut : Cut data pieces)
    (n : Nat) :
    (∀ last : Feed ε, IsEnd last → Digest.ofFeed (ofPieces pieces last) = .ok (.sha256 data, data.size) ∧
      (ofPieces pieces last).take n .empty = .ok (data.extract 0 n) ∧ (data.extract 0 n).size = min data.size n) ∧
    ∀ fault : ε, Digest.ofFeed (ofPieces pieces (.failed fault)) = .error fault ∧
      (ofPieces pieces (.failed fault)).take n .empty =
        if data.size < n then .error fault else .ok (data.extract 0 n) := by
  have htake := fun last : Feed ε => hcut.take last n .empty
  simp only [ByteArray.empty_append] at htake
  constructor
  · intro last hlast
    have hyields := hcut.yields hlast.yields
    refine ⟨?_, ?_, ?_⟩
    · rw [hyields.ofFeed, Except.map, ByteArray.append_empty]
      rfl
    · rw [htake, hlast.take, ite_self]
    · rw [ByteArray.size_extract]
      omega
  · intro fault
    refine ⟨(hcut.yields (.failed fault)).ofFeed, ?_⟩
    rw [htake]
    split_ifs with h1 h2
    · omega
    · rfl
    · exact if_neg h1
    · omega

/-- The first two bytes of a compressed stream, which come in two pieces. -/
theorem pieces_delivered_whole_gzip : Cut ⟨#[0x1f, 0x8b, 8]⟩ [⟨#[0x1f]⟩, ⟨#[0x8b, 8]⟩] ∧
    Digest.ofFeed (ofPieces [⟨#[0x1f]⟩, ⟨#[0x8b, 8]⟩] (.done : Feed String)) =
      .ok (.sha256 ⟨#[0x1f, 0x8b, 8]⟩, 3) ∧
    (ofPieces [⟨#[0x1f]⟩, ⟨#[0x8b, 8]⟩] (.failed "cut off")).take 2 .empty = .ok ⟨#[0x1f, 0x8b]⟩ := by
  have hdata : (⟨#[0x1f]⟩ : ByteArray) ++ (⟨#[0x8b, 8]⟩ ++ .empty) = ⟨#[0x1f, 0x8b, 8]⟩ := rfl
  have hcut := Cut.cons (show (⟨#[0x1f]⟩ : ByteArray).isEmpty = false from rfl)
    (.cons (show (⟨#[0x8b, 8]⟩ : ByteArray).isEmpty = false from rfl) .nil)
  rw [hdata] at hcut
  obtain ⟨hend, hfailed⟩ := @pieces_delivered_whole String _ _ hcut 2
  exact ⟨hcut, (hend .done .done).1, (hfailed "cut off").2⟩

end Feed

end ImageAssembly
