import ImageAssembly.Text.Hexadecimal

/-! The SHA-256 hash. A message is padded to whole blocks of 64 bytes, which are taken into a chain
of eight words one after the other. `hash` does this to a message that is there at once; a `Hasher`
takes it in pieces and keeps back what does not yet fill a block. -/

namespace ImageAssembly.Sha256

/-- The eight words that the blocks read so far have led to. -/
structure Chain where
  a : UInt32
  b : UInt32
  c : UInt32
  d : UInt32
  e : UInt32
  f : UInt32
  g : UInt32
  h : UInt32
  deriving DecidableEq, Repr, Inhabited

def initial : Chain :=
  ⟨0x6a09e667, 0xbb67ae85, 0x3c6ef372, 0xa54ff53a, 0x510e527f, 0x9b05688c, 0x1f83d9ab, 0x5be0cd19⟩

def roundConstants : Array UInt32 := #[
  0x428a2f98, 0x71374491, 0xb5c0fbcf, 0xe9b5dba5, 0x3956c25b, 0x59f111f1, 0x923f82a4, 0xab1c5ed5,
  0xd807aa98, 0x12835b01, 0x243185be, 0x550c7dc3, 0x72be5d74, 0x80deb1fe, 0x9bdc06a7, 0xc19bf174,
  0xe49b69c1, 0xefbe4786, 0x0fc19dc6, 0x240ca1cc, 0x2de92c6f, 0x4a7484aa, 0x5cb0a9dc, 0x76f988da,
  0x983e5152, 0xa831c66d, 0xb00327c8, 0xbf597fc7, 0xc6e00bf3, 0xd5a79147, 0x06ca6351, 0x14292967,
  0x27b70a85, 0x2e1b2138, 0x4d2c6dfc, 0x53380d13, 0x650a7354, 0x766a0abb, 0x81c2c92e, 0x92722c85,
  0xa2bfe8a1, 0xa81a664b, 0xc24b8b70, 0xc76c51a3, 0xd192e819, 0xd6990624, 0xf40e3585, 0x106aa070,
  0x19a4c116, 0x1e376c08, 0x2748774c, 0x34b0bcb5, 0x391c0cb3, 0x4ed8aa4a, 0x5b9cca4f, 0x682e6ff3,
  0x748f82ee, 0x78a5636f, 0x84c87814, 0x8cc70208, 0x90befffa, 0xa4506ceb, 0xbef9a3f7, 0xc67178f2]

def rotateRight (x n : UInt32) : UInt32 := (x >>> n) ||| (x <<< (32 - n))

/-- The word whose four bytes, highest first, begin at `i`. -/
def wordAt (block : ByteArray) (i : Nat) : UInt32 :=
  let byte := fun j => (block.get! (i + j)).toUInt32
  (byte 0 <<< 24) ||| (byte 1 <<< 16) ||| (byte 2 <<< 8) ||| byte 3

/-- The next word of the schedule from the sixteen before it. -/
def nextWord (w : Array UInt32) : UInt32 :=
  let t := w.size
  let x := w[t - 15]!
  let y := w[t - 2]!
  let s0 := rotateRight x 7 ^^^ rotateRight x 18 ^^^ (x >>> 3)
  let s1 := rotateRight y 17 ^^^ rotateRight y 19 ^^^ (y >>> 10)
  w[t - 16]! + s0 + w[t - 7]! + s1

/-- The sixty-four words that a block is spread to. -/
def schedule (block : ByteArray) : Array UInt32 :=
  let first := Nat.fold 16 (fun i _ w => w.push (wordAt block (4 * i))) (Array.emptyWithCapacity 64)
  Nat.fold 48 (fun _ _ w => w.push (nextWord w)) first

/-- One of the sixty-four rounds. -/
def round (s : Chain) (k w : UInt32) : Chain :=
  let s1 := rotateRight s.e 6 ^^^ rotateRight s.e 11 ^^^ rotateRight s.e 25
  let choice := (s.e &&& s.f) ^^^ ((~~~ s.e) &&& s.g)
  let t1 := s.h + s1 + choice + k + w
  let s0 := rotateRight s.a 2 ^^^ rotateRight s.a 13 ^^^ rotateRight s.a 22
  let majority := (s.a &&& s.b) ^^^ (s.a &&& s.c) ^^^ (s.b &&& s.c)
  ⟨t1 + (s0 + majority), s.a, s.b, s.c, s.d + t1, s.e, s.f, s.g⟩

/-- Takes one block into the chain. -/
def compress (s : Chain) (block : ByteArray) : Chain :=
  let w := schedule block
  let r := Nat.fold 64 (fun i _ s => round s roundConstants[i]! w[i]!) s
  ⟨s.a + r.a, s.b + r.b, s.c + r.c, s.d + r.d, s.e + r.e, s.f + r.f, s.g + r.g, s.h + r.h⟩

/-- The size of a block. -/
def blockSize : Nat := 64

/-- Takes the whole blocks of `data` into the chain. -/
def absorb (s : Chain) (data : ByteArray) : Chain :=
  Nat.fold (data.size / blockSize)
    (fun i _ s => compress s (data.extract (blockSize * i) (blockSize * i + blockSize))) s

/-- What is appended to a message of `length` bytes: a one bit, zeros, and the length in bits. -/
def padding (length : Nat) : ByteArray :=
  let zeros := (119 - length % blockSize) % blockSize
  let lengthBytes := (List.range 8).map fun i => (8 * length / Nat.pow 256 (7 - i)).toUInt8
  ((0x80 : UInt8) :: (List.replicate zeros 0 ++ lengthBytes)).toByteArray

/-- The chain that a whole message leads to. -/
def hash (message : ByteArray) : Chain := absorb initial (message ++ padding message.size)

/-! ### In pieces -/

/-- A message of which some pieces have been taken in. -/
structure Hasher where
  chain : Chain
  /-- The bytes after the last whole block. -/
  pending : ByteArray
  length : Nat

namespace Hasher

def start : Hasher := ⟨initial, .empty, 0⟩

/-- Takes in a piece. -/
def update (h : Hasher) (piece : ByteArray) : Hasher :=
  let data := h.pending ++ piece
  ⟨absorb h.chain data, data.extract (blockSize * (data.size / blockSize)) data.size,
    h.length + piece.size⟩

/-- The chain that the whole message leads to. -/
def finish (h : Hasher) : Chain := absorb h.chain (h.pending ++ padding h.length)

end Hasher

/-! ### As text -/

/-- The eight hexadecimal digits of a word. -/
def wordDigits (w : UInt32) : List Char :=
  (List.range 8).map fun i => Text.Hexadecimal.digit (w.toNat / Nat.pow 16 (7 - i) % 16)

/-- The sixty-four hexadecimal digits of a chain. -/
def Chain.digits (s : Chain) : List Char :=
  [s.a, s.b, s.c, s.d, s.e, s.f, s.g, s.h].flatMap wordDigits

theorem length_digits (s : Chain) : s.digits.length = 64 := by
  simp [Chain.digits, wordDigits]

theorem exists_digit_of_mem_digits {s : Chain} {c : Char} (h : c ∈ s.digits) :
    ∃ n < 16, c = Text.Hexadecimal.digit n := by
  simp only [Chain.digits, List.mem_flatMap, wordDigits, List.mem_map] at h
  obtain ⟨w, -, i, -, rfl⟩ := h
  exact ⟨_, Nat.mod_lt _ (by decide), rfl⟩

end ImageAssembly.Sha256
