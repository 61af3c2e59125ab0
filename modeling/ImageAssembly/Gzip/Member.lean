import ImageAssembly.Gzip.Crc32
import ImageAssembly.Gzip.Inflate

/-! Gzip members: a header, compressed data, and a trailer with the checksum and the length of what was
compressed. -/

namespace ImageAssembly.Gzip

/-- Whether data begins like a gzip member. -/
def hasMagic (data : ByteArray) : Bool := 2 ≤ data.size && data.get! 0 == 0x1F && data.get! 1 == 0x8B

/-- The number in `n` bytes from `i` on, lowest first. -/
def numberAt (data : ByteArray) (i : Nat) : Nat → Nat
  | 0 => 0
  | n + 1 => (data.get! i).toNat + 256 * numberAt data (i + 1) n

/-- The number in the next `n` bytes, and the position behind them. -/
def readNumber (data : ByteArray) (n i : Nat) : Except Fault (Nat × Nat) :=
  if i + n ≤ data.size then .ok (numberAt data i n, i + n) else .error .unexpectedEnd

/-- The longest name or comment. -/
def maxFieldLength : Nat := 65535

/-- The position behind a text that a zero byte ends, of which `length` bytes have been passed. -/
def skipText (data : ByteArray) (i length : Nat) : Except Fault Nat :=
  if _ : i < data.size then
    if data.get! i = 0 then .ok (i + 1)
    else if maxFieldLength ≤ length then .error .fieldTooLong
    else skipText data (i + 1) (length + 1)
  else .error .unexpectedEnd
termination_by data.size - i

def hasFlag (flags bit : Nat) : Bool := flags / Nat.pow 2 bit % 2 == 1

/-- The position behind the header. -/
def readHeader (data : ByteArray) : Except Fault Nat := do
  let (magic, i) ← readNumber data 10 0
  let flags := magic / 0x1000000 % 256
  if magic % 0x1000000 ≠ 0x088B1F ∨ 0x20 ≤ flags then throw .invalidHeader
  let i ← if hasFlag flags 2 then do
      let (length, i) ← readNumber data 2 i
      if i + length ≤ data.size then pure (i + length) else throw .unexpectedEnd
    else pure i
  let i ← if hasFlag flags 3 then skipText data i 0 else pure i
  let i ← if hasFlag flags 4 then skipText data i 0 else pure i
  if hasFlag flags 1 then do
    let (check, next) ← readNumber data 2 i
    if check = (crc32 (data.extract 0 i)).toNat % 65536 then pure next else throw .checksum
  else pure i

/-- What the first member of `data` holds, and the position behind it. -/
def readMember (data : ByteArray) : Except Fault (ByteArray × Nat) := do
  let i ← readHeader data
  let (out, pos) ← inflateFrom data .empty (8 * i)
  let i := byteBoundary pos / 8
  let (check, i) ← readNumber data 4 i
  let (length, i) ← readNumber data 4 i
  if check = (crc32 out).toNat ∧ length = out.size % Nat.pow 2 32 then pure (out, i) else throw .checksum

/-- What the first member of `data` holds; nothing behind it is looked at. -/
def decompress (data : ByteArray) : Except Fault ByteArray := (readMember data).map (·.1)

/-! ### Writing -/

/-- A number in `n` bytes, lowest first. -/
def littleEndian : (n : Nat) → Nat → List UInt8
  | 0, _ => []
  | n + 1, v => v.toUInt8 :: littleEndian n (v / 256)

/-- The longest stored block. -/
def maxStored : Nat := 65535

/-- Appends stored blocks that hold the bytes from `i` on. -/
def storeFrom (data : ByteArray) (out : ByteArray) (i : Nat) : ByteArray :=
  let length := min maxStored (data.size - i)
  let last := data.size - i ≤ maxStored
  let head := (if last then 1 else 0) :: (littleEndian 2 length ++ littleEndian 2 (0xFFFF - length))
  let out := out ++ head.toByteArray ++ data.extract i (i + length)
  if _ : data.size - i ≤ maxStored then out else storeFrom data out (i + maxStored)
termination_by data.size - i
decreasing_by have : maxStored = 65535 := rfl; omega

/-- A header without name and time. -/
def plainHeader : List UInt8 := [0x1F, 0x8B, 8, 0, 0, 0, 0, 0, 0, 0xFF]

def trailer (data : ByteArray) : List UInt8 :=
  littleEndian 4 (crc32 data).toNat ++ littleEndian 4 data.size

/-- A member that holds `data`, in stored blocks. -/
def compress (data : ByteArray) : ByteArray :=
  storeFrom data plainHeader.toByteArray 0 ++ (trailer data).toByteArray

end ImageAssembly.Gzip
