import ImageAssembly.Archive.Header

/-! Writing tar archives: for each entry a header and a body that is filled up to whole blocks, and two
empty blocks at the end. -/

namespace ImageAssembly.Archive

def zeros (n : Nat) : ByteArray := ⟨Array.replicate n 0⟩

/-- What fills a body of `length` bytes up to whole blocks. -/
def filling (length : Nat) : ByteArray := zeros ((blockSize - length % blockSize) % blockSize)

/-- The header of a regular file with fixed metadata. -/
def fileHeader (name : ByteArray) (size : Nat) : Header := ⟨name, 0o644, 0, 0, size, 0, regularType⟩

/-- The entry that holds a name too long for a header. -/
def longName (name : ByteArray) : ByteArray :=
  let header : Header :=
    ⟨"././@LongLink".toUTF8, 0o644, 0, 0, name.size + 1, 0, longNameType⟩
  header.toBytes ++ name ++ zeros 1 ++ filling (name.size + 1)

/-- What stands in front of a body. -/
def opening (name : String) (size : Nat) : List ByteArray :=
  let bytes := name.toUTF8
  if maxNameLength < bytes.size then
    [longName bytes, (fileHeader (bytes.extract 0 maxNameLength) size).toBytes]
  else [(fileHeader bytes size).toBytes]

/-- The end of an archive. -/
def ending : ByteArray := zeros (2 * blockSize)

end ImageAssembly.Archive
