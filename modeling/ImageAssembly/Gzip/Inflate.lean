import ImageAssembly.Gzip.Huffman

/-! Decompression. Data comes in blocks; a block is stored as it is, or coded in symbols that stand
for bytes and for copies of what was written before, by a fixed code or by one that the block
carries. -/

namespace ImageAssembly.Gzip

/-! ### Symbols -/

/-- Base and number of extra bits of the copy lengths, from symbol 257 on. -/
def lengthTable : Array (Nat × Nat) := #[
  (3, 0), (4, 0), (5, 0), (6, 0), (7, 0), (8, 0), (9, 0), (10, 0), (11, 1), (13, 1), (15, 1), (17, 1),
  (19, 2), (23, 2), (27, 2), (31, 2), (35, 3), (43, 3), (51, 3), (59, 3), (67, 4), (83, 4), (99, 4),
  (115, 4), (131, 5), (163, 5), (195, 5), (227, 5), (258, 0)]

/-- Base and number of extra bits of the copy distances. -/
def distanceTable : Array (Nat × Nat) := #[
  (1, 0), (2, 0), (3, 0), (4, 0), (5, 1), (7, 1), (9, 2), (13, 2), (17, 3), (25, 3), (33, 4), (49, 4),
  (65, 5), (97, 5), (129, 6), (193, 6), (257, 7), (385, 7), (513, 8), (769, 8), (1025, 9), (1537, 9),
  (2049, 10), (3073, 10), (4097, 11), (6145, 11), (8193, 12), (12289, 12), (16385, 13), (24577, 13)]

/-- The symbol that ends a block. -/
def endOfBlock : Nat := 256

/-- A table entry with its extra bits read. -/
def readExtra (table : Array (Nat × Nat)) (i : Nat) (data : ByteArray) (pos : Nat) :
    Except Fault (Nat × Nat) :=
  match table[i]? with
  | none => .error .corrupt
  | some (base, extra) => (readBits data extra pos).map fun (n, pos) => (base + n, pos)

/-- Appends `n` bytes, each a copy of the one `distance` before it. What stands before the beginning
counts as zeros. -/
def copyBack (distance : Nat) : Nat → ByteArray → ByteArray
  | 0, out => out
  | n + 1, out =>
    let b := if distance ≤ out.size then out.get! (out.size - distance) else 0
    copyBack distance n (out.push b)

/-- The copy that a length symbol begins: its length symbol has been read. -/
def readCopy (distances : Code) (data out : ByteArray) (symbol pos : Nat) :
    Except Fault (ByteArray × Nat) := do
  let (length, pos) ← readExtra lengthTable (symbol - 257) data pos
  let (symbol, pos) ← distances.decode data pos
  let (distance, pos) ← readExtra distanceTable symbol data pos
  pure (copyBack distance length out, pos)

/-- One symbol of a coded block: whether it ends the block, what is written so far, and the position
behind it. -/
def codedSymbol (literals distances : Code) (data out : ByteArray) (pos : Nat) :
    Except Fault (Bool × ByteArray × Nat) := do
  let (symbol, pos) ← literals.decode data pos
  if symbol < endOfBlock then pure (false, out.push symbol.toUInt8, pos)
  else if symbol = endOfBlock then pure (true, out, pos)
  else
    let (out, pos) ← readCopy distances data out symbol pos
    pure (false, out, pos)

/-- The symbols of a coded block up to its end. Every symbol takes at least one bit. -/
def codedBlock (literals distances : Code) (data out : ByteArray) (pos : Nat) :
    Except Fault (ByteArray × Nat) :=
  match codedSymbol literals distances data out pos with
  | .error fault => .error fault
  | .ok (last, out, next) =>
    if last then .ok (out, next)
    else if _ : pos < next ∧ pos < bitSize data then codedBlock literals distances data out next
    else .error .incomplete
termination_by bitSize data - pos
decreasing_by omega

/-! ### Codes -/

/-- The lengths of the words of the fixed codes. -/
def fixedLiteralLengths : List Nat :=
  List.replicate 144 8 ++ List.replicate 112 9 ++ List.replicate 24 7 ++ List.replicate 8 8

def fixedDistanceLengths : List Nat := List.replicate 32 5

def fixedLiterals : Code := .ofLengths fixedLiteralLengths

def fixedDistances : Code := .ofLengths fixedDistanceLengths

/-- The symbols of the code for code lengths, in the order in which their lengths are written. -/
def lengthOrder : List Nat := [16, 17, 18, 0, 8, 7, 9, 6, 10, 5, 11, 4, 12, 3, 13, 2, 14, 1, 15]

/-- The next `n` numbers of three bits. -/
def readTriples (data : ByteArray) : (n : Nat) → (pos : Nat) → Except Fault (List Nat × Nat)
  | 0, pos => .ok ([], pos)
  | n + 1, pos => do
    let (l, pos) ← readBits data 3 pos
    let (ls, pos) ← readTriples data n pos
    pure (l :: ls, pos)

/-- Code lengths, themselves coded: a symbol below sixteen is a length, the others repeat the last
length or zero. `acc` holds the lengths so far, the last first; `left` bounds how many symbols may
follow. -/
def readLengths (code : Code) (data : ByteArray) (wanted : Nat) :
    (left : Nat) → (acc : List Nat) → (pos : Nat) → Except Fault (List Nat × Nat)
  | 0, acc, pos => if acc.length = wanted then .ok (acc.reverse, pos) else .error .corrupt
  | left + 1, acc, pos =>
    if wanted ≤ acc.length then
      if acc.length = wanted then .ok (acc.reverse, pos) else .error .corrupt
    else do
      let (symbol, pos) ← code.decode data pos
      if symbol < 16 then readLengths code data wanted left (symbol :: acc) pos
      else
        let (base, extra, value) ←
          if symbol = 16 then match acc with
            | [] => throw .corrupt
            | last :: _ => pure (3, 2, last)
          else if symbol = 17 then pure (3, 3, 0)
          else pure (11, 7, 0)
        let (n, pos) ← readBits data extra pos
        readLengths code data wanted left (List.replicate (base + n) value ++ acc) pos

/-- A code whose words cover all texts, or that has no word or a single bit as its only one. -/
def checkedCode (lengths : List Nat) : Except Fault Code :=
  if Code.isComplete lengths ∨ Code.isSparse lengths then .ok (.ofLengths lengths)
  else .error .corrupt

/-- The codes that a block carries. -/
def readCodes (data : ByteArray) (pos : Nat) : Except Fault ((Code × Code) × Nat) := do
  let (literals, pos) ← readBits data 5 pos
  let (distances, pos) ← readBits data 5 pos
  let (triples, pos) ← readBits data 4 pos
  let literals := literals + 257
  let distances := distances + 1
  if literals > 286 ∨ distances > 30 then throw .corrupt
  let (ls, pos) ← readTriples data (triples + 4) pos
  let lengths := (List.range 19).map fun s => ((lengthOrder.zip ls).lookup s).getD 0
  if !Code.isComplete lengths then throw .corrupt
  let wanted := literals + distances
  let (all, pos) ← readLengths (.ofLengths lengths) data wanted wanted [] pos
  let literalCode ← checkedCode (all.take literals)
  let distanceCode ← checkedCode (all.drop literals)
  pure ((literalCode, distanceCode), pos)

/-! ### Blocks -/

/-- A stored block: its length, the length inverted, and the bytes. -/
def storedBlock (data out : ByteArray) (pos : Nat) : Except Fault (ByteArray × Nat) := do
  let (length, pos) ← readBits data 16 (byteBoundary pos)
  let (inverted, pos) ← readBits data 16 pos
  if length + inverted ≠ 0xFFFF then throw .corrupt
  if pos + 8 * length ≤ bitSize data then
    pure (out ++ data.extract (pos / 8) (pos / 8 + length), pos + 8 * length)
  else throw .incomplete

/-- One block, whose first bit tells whether it is the last. -/
def block (data out : ByteArray) (pos : Nat) : Except Fault (Bool × ByteArray × Nat) := do
  let (last, pos) ← readBits data 1 pos
  let (kind, pos) ← readBits data 2 pos
  let (out, pos) ←
    if kind = 0 then storedBlock data out pos
    else if kind = 1 then codedBlock fixedLiterals fixedDistances data out pos
    else if kind = 2 then do
      let ((literals, distances), pos) ← readCodes data pos
      codedBlock literals distances data out pos
    else throw .corrupt
  pure (last = 1, out, pos)

/-- Blocks up to the last one: what they write, and the position behind them. -/
def inflateFrom (data out : ByteArray) (pos : Nat) : Except Fault (ByteArray × Nat) :=
  match block data out pos with
  | .error fault => .error fault
  | .ok (last, out, next) =>
    if last then .ok (out, next)
    else if _ : pos < next ∧ pos < bitSize data then inflateFrom data out next
    else .error .incomplete
termination_by bitSize data - pos
decreasing_by omega

end ImageAssembly.Gzip
