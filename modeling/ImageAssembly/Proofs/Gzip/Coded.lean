import ImageAssembly.Gzip.Inflate
import ImageAssembly.Proofs.Gzip.Words

/-! Coded blocks. A symbol stands for a byte, ends the block, or begins a copy of what has been written; extra bits
tell the copy's length and distance. What the bits of a block are is said without a reader. A valid copy reaches back
to the first byte at most; the reader takes just the bits of blocks whose copies may also reach before it. -/

namespace ImageAssembly.Gzip

variable {literals distances : List Nat} {data out out' : ByteArray} {pos next : Nat} {xs : List Bool} {last : Bool}
  {f : ByteArray → ByteArray}

/-! ### Items in turn -/

/-- Bits that are items one after another, up to the first that is marked as the last. An item may depend on where
it begins and on what is written before it. -/
inductive Series (IsItem : Nat → ByteArray → List Bool → Bool → ByteArray → Prop) :
    Nat → ByteArray → List Bool → ByteArray → Prop
  | last {pos : Nat} {out out' : ByteArray} {xs : List Bool} (h : IsItem pos out xs true out') :
    Series IsItem pos out xs out'
  | more {pos : Nat} {out mid out' : ByteArray} {xs ys : List Bool} (h : IsItem pos out xs false mid)
    (hrest : Series IsItem (pos + xs.length) mid ys out') : Series IsItem pos out (xs ++ ys) out'

/-- A loop that reads items up to the last takes just such a series. The items have bits, so that the loop's guard
holds. -/
theorem series_eq_ok {run : ByteArray → Nat → Except Fault (ByteArray × Nat)}
    {read : ByteArray → Nat → Except Fault (Bool × ByteArray × Nat)}
    {IsItem : Nat → ByteArray → List Bool → Bool → ByteArray → Prop}
    (hrun : ∀ out pos, run out pos = match read out pos with
      | .error fault => .error fault
      | .ok (last, out, next) =>
        if last then .ok (out, next)
        else if pos < next ∧ pos < bitSize data then run out next
        else .error .incomplete)
    (hread : ∀ {out pos last out' next}, read out pos = .ok (last, out', next) ↔
      ∃ xs, Within (dataBits data) pos next xs ∧ IsItem pos out xs last out')
    (hne : ∀ {pos out xs last out'}, IsItem pos out xs last out' → xs ≠ []) :
    run out pos = .ok (out', next) ↔ ∃ xs, Within (dataBits data) pos next xs ∧ Series IsItem pos out xs out' := by
  constructor
  · intro h
    -- on the bits that are left
    induction hn : bitSize data - pos using Nat.strong_induction_on generalizing out pos with
    | _ n ih =>
      rw [hrun] at h
      cases hitem : read out pos with
      | error fault => simp [hitem] at h
      | ok result =>
        obtain ⟨last, written, mid⟩ := result
        obtain ⟨xs, hxs, his⟩ := hread.1 hitem
        simp only [hitem] at h
        split_ifs at h with hlast hguard
        · obtain ⟨rfl, rfl⟩ := Prod.mk.inj (Except.ok.inj h)
          exact ⟨xs, hxs, .last (hlast ▸ his)⟩
        · obtain ⟨ys, hys, hrest⟩ := ih (bitSize data - mid) (by omega) h rfl
          rw [Bool.not_eq_true] at hlast
          exact ⟨xs ++ ys, hxs.append hys, .more (hlast ▸ his) (hxs.next_eq ▸ hrest)⟩
  · rintro ⟨xs, hxs, hseries⟩
    induction hseries with
    | last h => rw [hrun, hread.2 ⟨_, hxs, h⟩]; rfl
    | @more pos _ _ _ xs ys h _ ih =>
      obtain ⟨mid, hxs, hys⟩ := Within.append_iff.1 hxs
      obtain rfl := hxs.next_eq
      have hpos := List.length_pos_of_ne_nil (hne h)
      have hle := le_bitSize hxs
      rw [hrun, hread.2 ⟨xs, hxs, h⟩]
      simp only [Bool.false_eq_true, if_false]
      rw [if_pos ⟨by omega, by omega⟩, ih hys]

theorem Series.carry {IsItem IsItem' : Nat → ByteArray → List Bool → Bool → ByteArray → Prop}
    (hitem : ∀ pos out xs last out', IsItem pos out xs last out' → IsItem' pos (f out) xs last (f out'))
    (h : Series IsItem pos out xs out') : Series IsItem' pos (f out) xs (f out') := by
  induction h with
  | last h => exact .last (hitem _ _ _ _ _ h)
  | more h _ ih => exact .more (hitem _ _ _ _ _ h) ih

/-! ### Copies -/

/-- How far back copies reach. -/
inductive Reach
  /-- To the first byte that has been written, as far as the format allows. -/
  | within
  /-- Before the beginning too, where zeros stand. -/
  | beyond

/-- Whether a copy may begin a distance before the end of what has been written. -/
def Reach.Allows (reach : Reach) (size distance : Nat) : Prop := reach = .within → distance ≤ size

variable {reach reach' : Reach}

/-- Whether what is written changes in the same way before and after every copy that may stand in a block and
everything else that is written. -/
structure Carries (reach reach' : Reach) (f : ByteArray → ByteArray) : Prop where
  append : ∀ out body, f (out ++ body) = f out ++ body
  allows : ∀ out distance, reach.Allows out.size distance → reach'.Allows (f out).size distance
  copy : ∀ out distance length, reach.Allows out.size distance →
    f (copyBack distance length out) = copyBack distance length (f out)

/-- Valid copies are copies. -/
theorem carries_beyond (reach : Reach) : Carries reach .beyond id where
  append _ _ := rfl
  allows _ _ _ := nofun
  copy _ _ _ _ := rfl

theorem push_eq (out : ByteArray) (b : UInt8) : out.push b = out ++ ⟨#[b]⟩ := by
  refine Bytes.toList_inj ?_
  rw [Bytes.toList_push, Bytes.toList_append, Bytes.toList_eq ⟨#[b]⟩]

theorem Carries.push (hf : Carries reach reach' f) (out : ByteArray) (b : UInt8) :
    f (out.push b) = (f out).push b := by
  rw [push_eq, push_eq, hf.append]

/-- Whether a number is given by an entry of a table and extra bits. -/
def IsExtra (table : Array (Nat × Nat)) (i : Nat) (xs : List Bool) (n : Nat) : Prop :=
  ∃ base, table[i]? = some (base, xs.length) ∧ n = base + value xs

/-- Whether bits tell the length and the distance of a copy, behind the symbol that begins it. -/
inductive IsCopy (distances : List Nat) (i : Nat) : List Bool → Nat → Nat → Prop
  | intro {xs w ys : List Bool} {length symbol distance : Nat} (hlength : IsExtra lengthTable i xs length)
    (hword : IsWord distances w symbol) (hdistance : IsExtra distanceTable symbol ys distance) :
    IsCopy distances i (xs ++ (w ++ ys)) length distance

theorem readExtra_eq_ok {table : Array (Nat × Nat)} {i n : Nat} : readExtra table i data pos = .ok (n, next) ↔
    ∃ xs, Within (dataBits data) pos next xs ∧ IsExtra table i xs n := by
  rw [readExtra]
  cases hentry : table[i]? with
  | none => simp [IsExtra, hentry]
  | some entry =>
    simp only [map_eq_ok, Prod.exists, readBits_eq_ok, IsExtra, hentry]
    constructor
    · rintro ⟨v, mid, ⟨xs, hxs, hlength, rfl⟩, heq⟩
      obtain ⟨rfl, rfl⟩ := Prod.mk.inj heq
      exact ⟨xs, hxs, entry.1, by rw [hlength], rfl⟩
    · rintro ⟨xs, hxs, base, hbase, rfl⟩
      obtain rfl := Option.some.inj hbase
      exact ⟨value xs, next, ⟨xs, hxs, rfl, rfl⟩, rfl⟩

theorem readCopy_eq_ok {symbol : Nat} : readCopy (.ofLengths distances) data out symbol pos = .ok (out', next) ↔
    ∃ xs length distance, Within (dataBits data) pos next xs ∧ IsCopy distances (symbol - 257) xs length distance ∧
      out' = copyBack distance length out := by
  simp only [readCopy, bind_eq_ok, Prod.exists, readExtra_eq_ok, decode_eq_ok]
  constructor
  · rintro ⟨length, _, ⟨xs, hxs, hlength⟩, _, _, ⟨w, hw, hword⟩, distance, _, ⟨ys, hys, hdistance⟩, heq⟩
    obtain ⟨rfl, rfl⟩ := Prod.mk.inj (Except.ok.inj heq)
    exact ⟨_, length, distance, hxs.append (hw.append hys), ⟨hlength, hword, hdistance⟩, rfl⟩
  · rintro ⟨_, length, distance, hbits, ⟨hlength, hword, hdistance⟩, rfl⟩
    obtain ⟨_, hxs, hbits⟩ := Within.append_iff.1 hbits
    obtain ⟨_, hw, hys⟩ := Within.append_iff.1 hbits
    exact ⟨length, _, ⟨_, hxs, hlength⟩, _, _, ⟨_, hw, hword⟩, distance, _, ⟨_, hys, hdistance⟩, rfl⟩

/-! ### Blocks -/

/-- Whether bits are a symbol of a coded block, whether the block ends with it, and what has been written then. -/
inductive IsToken (reach : Reach) (literals distances : List Nat) (out : ByteArray) :
    List Bool → Bool → ByteArray → Prop
  | literal {w : List Bool} {symbol : Nat} (hword : IsWord literals w symbol) (hlt : symbol < endOfBlock) :
    IsToken reach literals distances out w false (out.push symbol.toUInt8)
  | stop {w : List Bool} (hword : IsWord literals w endOfBlock) : IsToken reach literals distances out w true out
  | copy {w xs : List Bool} {i length distance : Nat} (hword : IsWord literals w (257 + i))
    (hcopy : IsCopy distances i xs length distance) (hreach : reach.Allows out.size distance) :
    IsToken reach literals distances out (w ++ xs) false (copyBack distance length out)

/-- Whether bits are the symbols of a block whose codes are given by the lengths of their words. -/
def IsCoded (reach : Reach) (literals distances : List Nat) : Nat → ByteArray → List Bool → ByteArray → Prop :=
  Series fun _ => IsToken reach literals distances

theorem IsToken.carry (h : IsToken reach literals distances out xs last out') (hf : Carries reach reach' f) :
    IsToken reach' literals distances (f out) xs last (f out') := by
  cases h with
  | literal hword hlt =>
    rw [hf.push]
    exact .literal hword hlt
  | stop hword => exact .stop hword
  | copy hword hcopy hreach =>
    rw [hf.copy _ _ _ hreach]
    exact .copy hword hcopy (hf.allows _ _ hreach)

theorem IsCoded.carry (h : IsCoded reach literals distances pos out xs out') (hf : Carries reach reach' f) :
    IsCoded reach' literals distances pos (f out) xs (f out') :=
  Series.carry (fun _ _ _ _ _ htoken => htoken.carry hf) h

theorem IsToken.ne_nil (h : IsToken reach literals distances out xs last out') : xs ≠ [] := by
  cases h with
  | literal hword => exact hword.ne_nil
  | stop hword => exact hword.ne_nil
  | copy hword => exact List.append_ne_nil_of_left_ne_nil hword.ne_nil _

theorem codedSymbol_eq_ok :
    codedSymbol (.ofLengths literals) (.ofLengths distances) data out pos = .ok (last, out', next) ↔
      ∃ xs, Within (dataBits data) pos next xs ∧ IsToken .beyond literals distances out xs last out' := by
  simp only [codedSymbol, bind_eq_ok, Prod.exists, decode_eq_ok]
  constructor
  · rintro ⟨symbol, mid, ⟨w, hw, hword⟩, h⟩
    split_ifs at h with hlt heq
    · cases h
      exact ⟨w, hw, .literal hword hlt⟩
    · cases h
      exact ⟨w, hw, .stop (heq ▸ hword)⟩
    · obtain ⟨i, rfl⟩ : ∃ i, symbol = 257 + i := Nat.exists_eq_add_of_le (by rw [endOfBlock] at *; omega)
      obtain ⟨⟨written, behind⟩, hread, hok⟩ := bind_eq_ok.1 h
      obtain ⟨xs, length, distance, hxs, hcopy, rfl⟩ := readCopy_eq_ok.1 hread
      rw [Nat.add_sub_cancel_left] at hcopy
      cases hok
      exact ⟨w ++ xs, hw.append hxs, .copy hword hcopy nofun⟩
  · rintro ⟨_, hbits, htoken⟩
    cases htoken with
    | @literal _ symbol hword hlt => exact ⟨symbol, next, ⟨_, hbits, hword⟩, by rw [if_pos hlt]; rfl⟩
    | stop hword => exact ⟨endOfBlock, next, ⟨_, hbits, hword⟩, by rw [if_neg (Nat.lt_irrefl _), if_pos rfl]; rfl⟩
    | @copy w xs i length distance hword hcopy _ =>
      obtain ⟨mid, hw, hxs⟩ := Within.append_iff.1 hbits
      have hread : readCopy (.ofLengths distances) data out (257 + i) mid = .ok (copyBack distance length out, next) :=
        readCopy_eq_ok.2 ⟨xs, length, distance, hxs, by rwa [Nat.add_sub_cancel_left], rfl⟩
      refine ⟨257 + i, mid, ⟨w, hw, hword⟩, ?_⟩
      rw [if_neg (by rw [endOfBlock]; omega), if_neg (by rw [endOfBlock]; omega), hread]
      rfl

/-- A coded block is read just where its symbols stand. -/
theorem codedBlock_eq_ok :
    codedBlock (.ofLengths literals) (.ofLengths distances) data out pos = .ok (out', next) ↔
      ∃ xs, Within (dataBits data) pos next xs ∧ IsCoded .beyond literals distances pos out xs out' := by
  refine series_eq_ok (fun out pos => ?_) codedSymbol_eq_ok IsToken.ne_nil
  rw [codedBlock]
  rfl

end ImageAssembly.Gzip
