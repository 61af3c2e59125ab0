/-! The CRC-32 checksum: the remainder of a message as a polynomial over two elements, its bits taken
lowest first, with the register inverted before and after. -/

namespace ImageAssembly.Gzip

/-- One bit of the division. -/
def crcBit (r : UInt32) : UInt32 :=
  if r &&& 1 = 1 then (r >>> 1) ^^^ 0xEDB88320 else r >>> 1

/-- The eight bits of a byte. -/
def crcByteSlow (r : UInt32) : UInt32 := Nat.fold 8 (fun _ _ r => crcBit r) r

/-- The remainders of the single bytes. -/
def crcTable : Array UInt32 := (Array.range 256).map fun i => crcByteSlow i.toUInt32

/-- Takes a byte into the register. -/
def crcByte (r : UInt32) (b : UInt8) : UInt32 :=
  crcTable[((r ^^^ b.toUInt32) &&& 0xFF).toNat]! ^^^ (r >>> 8)

/-- The checksum of a message. -/
def crc32 (data : ByteArray) : UInt32 := (data.foldl crcByte 0xFFFFFFFF) ^^^ 0xFFFFFFFF

end ImageAssembly.Gzip
