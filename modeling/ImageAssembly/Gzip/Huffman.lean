import ImageAssembly.Gzip.Bits

/-! Canonical prefix codes. A code is given by the length of each symbol's word, zero for a symbol
without one; words of one length are consecutive numbers in the order of the symbols, and shorter
words come first. -/

namespace ImageAssembly.Gzip

/-- A code: how many words there are of each length, and the symbols in the order of their words. -/
structure Code where
  counts : Array Nat
  symbols : Array Nat
  deriving Repr

/-- The longest word. -/
def maxWordLength : Nat := 15

namespace Code

/-- The symbols whose words have length `n`. -/
def symbolsOfLength (lengths : List Nat) (n : Nat) : List Nat :=
  (lengths.zipIdx.filter fun (l, _) => l == n).map (·.2)

def ofLengths (lengths : List Nat) : Code :=
  let byLength := (List.range maxWordLength).map fun n => symbolsOfLength lengths (n + 1)
  ⟨(0 :: byLength.map List.length).toArray, byLength.flatten.toArray⟩

/-- The part of all texts that the words cover, in units of the longest words. -/
def coverage (lengths : List Nat) : Nat :=
  lengths.foldl (fun n l => if l = 0 then n else n + Nat.pow 2 (maxWordLength - l)) 0

def isComplete (lengths : List Nat) : Bool := coverage lengths == Nat.pow 2 maxWordLength

/-- Whether there is no word, or only one of a single bit. -/
def isSparse (lengths : List Nat) : Bool := [[], [1]].contains (lengths.filter (· ≠ 0))

/-- Reads bit after bit until they make a word, or until no word is left that they could begin. `first`
is the first word of the present length, `index` the number of shorter words. -/
def decodeFrom (c : Code) (data : ByteArray) (code first index : Nat) :
    (left : Nat) → (pos : Nat) → Except Fault (Nat × Nat)
  | 0, _ => .error .corrupt
  | left + 1, pos => match readBit data pos with
    | .error fault => .error fault
    | .ok (bit, pos) =>
      let code := 2 * code + bit
      let count := c.counts[maxWordLength - left]!
      if code < first + count then
        .ok (c.symbols[index + (code - first)]!, pos)
      else if c.symbols.size ≤ index + count then .error .corrupt
      else decodeFrom c data code (2 * (first + count)) (index + count) left pos

/-- The next symbol, and the position behind its word. -/
def decode (c : Code) (data : ByteArray) (pos : Nat) : Except Fault (Nat × Nat) :=
  c.decodeFrom data 0 0 0 maxWordLength pos

end Code

end ImageAssembly.Gzip
