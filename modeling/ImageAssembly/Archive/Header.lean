/-! Headers of tar archives: blocks of 512 bytes with fields at fixed places. Numbers are written in octal
digits, those too large for their field as binary numbers behind a mark, and a checksum over the other
bytes guards the block. -/

namespace ImageAssembly.Archive

/-- What an archive tells of an entry. -/
structure Header where
  name : ByteArray
  mode : Nat
  uid : Nat
  gid : Nat
  size : Nat
  mtime : Nat
  type : UInt8

def blockSize : Nat := 512

/-- The length of a name that fits into a header. -/
def maxNameLength : Nat := 100

/-- The type of a regular file. -/
def regularType : UInt8 := 0x30

/-- The type of an entry whose body is the name of the next one. -/
def longNameType : UInt8 := 0x4C

/-- Fills bytes with zeros up to a width; what is longer is cut off. -/
def fit (width : Nat) (bytes : List UInt8) : List UInt8 :=
  (bytes ++ List.replicate (width - bytes.length) 0).take width

/-- A number in octal digits that end before the last byte of its field. -/
def octalField (width n : Nat) : List UInt8 :=
  let digits := (Nat.toDigits 8 n).map fun c => c.toNat.toUInt8
  List.replicate (width - 1 - digits.length) 0x30 ++ digits ++ [0]

/-- The mark of a binary number, on the first byte of its field. -/
def binaryMark : UInt8 := 0x80

/-- A number in binary behind a mark, highest byte first. -/
def binaryField (width n : Nat) : List UInt8 :=
  binaryMark :: (List.range (width - 1)).map fun i => (n / Nat.pow 256 (width - 2 - i)).toUInt8

/-- A number in octal digits if these fit, else in binary. -/
def numberField (width n : Nat) : List UInt8 :=
  if n < Nat.pow 8 (width - 1) then octalField width n else binaryField width n

/-- The mark of the archive format. -/
def magic : List UInt8 := "ustar  ".toUTF8.toList ++ [0]

/-- The bytes in front of the checksum. -/
def Header.front (h : Header) : List UInt8 :=
  fit maxNameLength h.name.toList ++ octalField 8 h.mode ++ numberField 8 h.uid ++ numberField 8 h.gid
    ++ numberField 12 h.size ++ numberField 12 h.mtime

/-- The bytes behind the checksum. -/
def Header.back (h : Header) : List UInt8 := fit 356 (h.type :: (List.replicate 100 0 ++ magic))

def byteSum (bytes : List UInt8) : Nat := bytes.foldl (fun n b => n + b.toNat) 0

/-- The sum of all bytes, those of the checksum itself counted as spaces. -/
def checksum (front back : List UInt8) : Nat := byteSum front + 8 * 0x20 + byteSum back

/-- The block of a header. -/
def Header.toBytes (h : Header) : ByteArray :=
  (h.front ++ octalField 8 (checksum h.front h.back) ++ h.back).toByteArray

/-- Why an archive cannot be read. -/
inductive Fault
  | cutOff
  | checksum
  | number
  deriving DecidableEq, Repr

def Fault.message : Fault → String
  | .cutOff => "failed to read entire block"
  | .checksum => "archive header checksum mismatch"
  | .number => "numeric field was not a number"

/-- The number that octal digits in a field write. -/
def readOctal (field : List UInt8) : Option Nat :=
  let digits := (field.takeWhile (· != 0)).filter (· != 0x20)
  digits.foldlM (fun n b => if 0x30 ≤ b ∧ b ≤ 0x37 then some (8 * n + (b.toNat - 48)) else none) 0

/-- The number in a field; of a binary one the last 64 bits count. -/
def readNumber : List UInt8 → Option Nat
  | [] => readOctal []
  | b :: r =>
    if binaryMark ≤ b then
      some ((r.foldl (fun n b => 256 * n + b.toNat) (b.toNat - binaryMark.toNat)) % Nat.pow 2 64)
    else readOctal (b :: r)

/-- Bytes up to the first zero. -/
def untilZero (bytes : List UInt8) : ByteArray := (bytes.takeWhile (· != 0)).toByteArray

/-- The header in a block. -/
def Header.ofBytes (block : ByteArray) : Except Fault Header :=
  let bytes := block.toList
  let field := fun start width => (bytes.drop start).take width
  if readOctal (field 148 8) ≠ some (checksum (field 0 148) (field 156 356)) then .error .checksum
  else match readOctal (field 100 8), readNumber (field 108 8), readNumber (field 116 8),
      readNumber (field 124 12), readNumber (field 136 12) with
    | some mode, some uid, some gid, some size, some mtime =>
      .ok ⟨untilZero (field 0 100), mode, uid, gid, size, mtime, bytes.getD 156 0⟩
    | _, _, _, _, _ => .error .number

end ImageAssembly.Archive
