/-! Reading numbers from bytes at a bit position, lowest bits first. -/

namespace ImageAssembly.Gzip

/-- Why compressed data is refused. -/
inductive Fault
  | unexpectedEnd
  | invalidHeader
  | fieldTooLong
  | incomplete
  | corrupt
  | checksum
  deriving DecidableEq, Repr

def Fault.message : Fault → String
  | .unexpectedEnd => "unexpected end of file"
  | .invalidHeader => "invalid gzip header"
  | .fieldTooLong => "gzip header field too long"
  | .incomplete => "incomplete deflate stream"
  | .corrupt => "corrupt deflate stream"
  | .checksum => "corrupt gzip stream does not have a matching checksum"

/-- The number of bits in `data`. -/
def bitSize (data : ByteArray) : Nat := 8 * data.size

/-- The bit at a position. -/
def bitAt (data : ByteArray) (pos : Nat) : Nat := (data.get! (pos / 8)).toNat / Nat.pow 2 (pos % 8) % 2

/-- The next bit and the position behind it. -/
def readBit (data : ByteArray) (pos : Nat) : Except Fault (Nat × Nat) :=
  if pos < bitSize data then .ok (bitAt data pos, pos + 1) else .error .incomplete

/-- The number that the `n` bits from `pos` on write, the first the lowest. -/
def bitsAt (data : ByteArray) (pos : Nat) : Nat → Nat
  | 0 => 0
  | n + 1 => bitAt data pos + 2 * bitsAt data (pos + 1) n

/-- The next `n` bits as a number, and the position behind them. -/
def readBits (data : ByteArray) (n pos : Nat) : Except Fault (Nat × Nat) :=
  if pos + n ≤ bitSize data then .ok (bitsAt data pos n, pos + n) else .error .incomplete

/-- The first position at or after `pos` where a byte begins. -/
def byteBoundary (pos : Nat) : Nat := (pos + 7) / 8 * 8

end ImageAssembly.Gzip
