/-! Positions in YAML text, and the classes of its characters. -/

namespace ImageAssembly.Yaml

/-- The text cannot be read on. -/
inductive Malformed
  | malformed
  deriving Repr, DecidableEq

/-- The outcome of reading a part of the text. -/
abbrev Scan (α : Type) := Except Malformed α

def fail {α : Type} : Scan α := .error .malformed

/-- A position: the bytes before it, the lines before it, and the characters of its own line before
it. -/
structure Mark where
  index : Nat
  line : Nat
  column : Nat
  deriving Repr, DecidableEq, Inhabited

/-- The position behind a character that ends no line. -/
def Mark.right (m : Mark) (c : Char) : Mark := ⟨m.index + c.utf8Size, m.line, m.column + 1⟩

/-- The position behind a line break of `n` bytes. -/
def Mark.down (m : Mark) (n : Nat) : Mark := ⟨m.index + n, m.line + 1, 0⟩

/-- A position and the text from there on. -/
structure Cursor where
  mark : Mark
  rest : List Char
  deriving Repr, Inhabited

/-- Passes `n` characters of one line. -/
def Cursor.skip (c : Cursor) (n : Nat) : Cursor :=
  ⟨(c.rest.take n).foldl Mark.right c.mark, c.rest.drop n⟩

/-! ### Characters -/

/-- Whether text may hold a character at all. -/
def isAllowed (c : Char) : Bool :=
  let n := c.toNat
  n == 9 || n == 10 || n == 13 || (0x20 ≤ n && n ≤ 0x7E) || n == 0x85 || (0xA0 ≤ n && n ≤ 0xD7FF)
    || (0xE000 ≤ n && n ≤ 0xFFFD) || 0x10000 ≤ n

/-- The most bytes of a piece. Text is taken in piece by piece, each checked as a whole before any of it
is read, and no character is divided between two. -/
def pieceSize : Nat := 16384

/-- The text in front of the first piece with a character that text may not hold, and whether there is
such a piece. `piece` is what the current one holds so far, last character first, and `size` its
bytes; `taken` are the pieces before it. -/
def allowedPieces (taken piece : List Char) (size : Nat) : List Char → List Char × Bool
  | [] => ((piece ++ taken).reverse, false)
  | c :: r =>
    let fits := size + c.utf8Size ≤ pieceSize
    let taken := if fits then taken else piece ++ taken
    if isAllowed c then
      if fits then allowedPieces taken (c :: piece) (size + c.utf8Size) r
      else allowedPieces taken [c] c.utf8Size r
    else (taken.reverse, true)

def isBreak (c : Char) : Bool :=
  c == '\n' || c == '\r' || c == '\u0085' || c == '\u2028' || c == '\u2029'

def isBlank (c : Char) : Bool := c == ' ' || c == '\t'

/-- A letter, digit, underscore or hyphen. -/
def isWordChar (c : Char) : Bool := c.isAlphanum || c == '_' || c == '-'

/-- Whether a blank, a line break or the end of the text comes next. -/
def atBlank : List Char → Bool
  | [] => true
  | c :: _ => isBlank c || isBreak c

/-- Whether a line break or the end of the text comes next. -/
def atBreak : List Char → Bool
  | [] => true
  | c :: _ => isBreak c

/-- Whether a marker of the beginning or the end of a document comes next. -/
def atDocumentMarker : List Char → Bool
  | '-' :: '-' :: '-' :: r => atBlank r
  | '.' :: '.' :: '.' :: r => atBlank r
  | _ => false

/-- What a line break is kept as: only the separators of lines and paragraphs stay themselves. -/
def keptBreak (c : Char) : Char := if c == '\u2028' || c == '\u2029' then c else '\n'

def isFlowIndicator (c : Char) : Bool := c == ',' || c == '[' || c == ']' || c == '\x7b' || c == '\x7d'

/-- Takes characters of one line. -/
def Cursor.span (p : Char → Bool) (c : Cursor) : List Char × Cursor :=
  let taken := c.rest.takeWhile p
  (taken, c.skip taken.length)

/-- Passes a line break, if one comes next. -/
def Cursor.skipBreak (c : Cursor) : Cursor :=
  match c.rest with
  | '\r' :: '\n' :: r => ⟨c.mark.down 2, r⟩
  | b :: r => if isBreak b then ⟨c.mark.down b.utf8Size, r⟩ else c
  | [] => c

end ImageAssembly.Yaml
