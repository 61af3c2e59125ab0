/-! A source of bytes that delivers them in pieces and then ends or fails. An empty piece is the end,
as it is for a reader. -/

namespace ImageAssembly

/-- What a source delivers. -/
inductive Feed (ε : Type)
  | done
  | failed (fault : ε)
  | piece (bytes : ByteArray) (rest : Feed ε)

namespace Feed

variable {ε α : Type}

/-- The largest piece that a source of known bytes delivers. -/
def pieceSize : Nat := 65536

def ofBytesFrom (data : ByteArray) (start : Nat) : Feed ε :=
  if _ : start < data.size then
    .piece (data.extract start (start + pieceSize)) (ofBytesFrom data (start + pieceSize))
  else .done
termination_by data.size - start
decreasing_by have : pieceSize = 65536 := rfl; omega

/-- Known bytes, delivered in pieces. -/
def ofBytes (data : ByteArray) : Feed ε := ofBytesFrom data 0

/-- Bytes that may turn out not to be there. -/
def ofExcept : Except ε ByteArray → Feed ε
  | .ok data => ofBytes data
  | .error fault => .failed fault

/-- Combines the pieces from the left until the end. -/
def fold (step : α → ByteArray → α) : α → Feed ε → Except ε α
  | acc, .done => .ok acc
  | _, .failed fault => .error fault
  | acc, .piece bytes rest => if bytes.isEmpty then .ok acc else fold step (step acc bytes) rest

/-- The first `n` bytes, or all if there are fewer. Nothing after them is asked for. -/
def take (n : Nat) (acc : ByteArray) : Feed ε → Except ε ByteArray
  | .done => .ok (acc.extract 0 n)
  | .failed fault => if n ≤ acc.size then .ok (acc.extract 0 n) else .error fault
  | .piece bytes rest =>
    if n ≤ acc.size ∨ bytes.isEmpty then .ok (acc.extract 0 n) else take n (acc ++ bytes) rest

end Feed

end ImageAssembly
