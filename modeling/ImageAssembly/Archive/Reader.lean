import ImageAssembly.Archive.Header

/-! Reading tar archives: entries up to the first empty block, each with its header and its body. -/

namespace ImageAssembly.Archive

/-- An entry of an archive. -/
structure Entry where
  name : ByteArray
  header : Header
  body : ByteArray

/-- The next position at which a block begins. -/
def blockBoundary (i : Nat) : Nat := (i + blockSize - 1) / blockSize * blockSize

/-- The name that a long name's body holds. -/
def longNameOf (body : ByteArray) : ByteArray := untilZero body.toList

/-- The header at a position, or none at the end of the archive. -/
def headerAt (data : ByteArray) (i : Nat) : Except Fault (Option Header) :=
  let block := data.extract i (i + blockSize)
  if block.size = 0 then .ok none
  else if block.size < blockSize then .error .cutOff
  else if block.data.all (· == 0) then .ok none
  else (Header.ofBytes block).map some

/-- The body behind the header at a position. -/
def bodyAt (data : ByteArray) (i : Nat) (h : Header) : ByteArray :=
  data.extract (i + blockSize) (i + blockSize + h.size)

/-- The position behind the header at a position and its body. -/
def nextHeader (i : Nat) (h : Header) : Nat := i + blockSize + blockBoundary h.size

theorem lt_nextHeader (i : Nat) (h : Header) : i < nextHeader i h := by
  have : 0 < blockSize := by decide
  rw [nextHeader]; omega

/-- The entries from a position on; `name` is what a long name's entry has said. -/
def entriesFrom (data : ByteArray) (name : Option ByteArray) (i : Nat) : Except Fault (List Entry) :=
  if _ : i < data.size then
    match headerAt data i with
    | .error fault => .error fault
    | .ok none => .ok []
    | .ok (some header) =>
      let body := bodyAt data i header
      if header.type = longNameType then entriesFrom data (some (longNameOf body)) (nextHeader i header)
      else (entriesFrom data none (nextHeader i header)).map (⟨name.getD header.name, header, body⟩ :: ·)
  else .ok []
termination_by data.size - i
decreasing_by all_goals exact Nat.sub_lt_sub_left ‹_› (lt_nextHeader i header)

/-- The entries of an archive. -/
def entries (data : ByteArray) : Except Fault (List Entry) := entriesFrom data none 0

end ImageAssembly.Archive
