/-! A file that is written through a buffer. Small pieces gather in the buffer; what has left it stands in
the file. -/

namespace ImageAssembly.Export

/-- All that has been written, and how much of it stands in the file. -/
structure Sink where
  bytes : ByteArray
  flushed : Nat

namespace Sink

def capacity : Nat := 8192

def empty : Sink := ⟨.empty, 0⟩

/-- The number of bytes in the buffer. -/
def pending (s : Sink) : Nat := s.bytes.size - s.flushed

/-- What stands in the file. -/
def visible (s : Sink) : ByteArray := s.bytes.extract 0 s.flushed

/-- Writes a piece. A piece that does not fit empties the buffer first; one as large as the buffer passes
it by. -/
def write (s : Sink) (piece : ByteArray) : Sink :=
  let spare := capacity - s.pending
  let bytes := s.bytes ++ piece
  if piece.size < spare then ⟨bytes, s.flushed⟩
  else if capacity ≤ piece.size then ⟨bytes, bytes.size⟩
  else if spare < piece.size then ⟨bytes, s.bytes.size⟩
  else ⟨bytes, s.flushed⟩

/-- Writes bytes from a position on, in pieces of the buffer's size. -/
def copyFrom (s : Sink) (data : ByteArray) (i : Nat) : Sink :=
  if _ : i < data.size then
    copyFrom (s.write (data.extract i (i + capacity))) data (i + capacity)
  else s
termination_by data.size - i
decreasing_by have : capacity = 8192 := rfl; omega

def copy (s : Sink) (data : ByteArray) : Sink := s.copyFrom data 0

end Sink

end ImageAssembly.Export
