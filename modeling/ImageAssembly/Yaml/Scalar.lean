import ImageAssembly.Text.Hexadecimal
import ImageAssembly.Yaml.Cursor

/-! The four ways of writing a scalar: plain, in single or double quotes, and as a block of lines. Line
breaks within a scalar are folded: one alone becomes a space, of several the first is dropped. -/

namespace ImageAssembly.Yaml

/-! ### Folding -/

/-- A scalar that is being read. All parts are held last first. -/
structure Fold where
  text : List Char := []
  /-- Blanks after the last character, as long as no line has ended. -/
  blanks : List Char := []
  /-- The first line break after the last character. -/
  firstBreak : List Char := []
  /-- The line breaks after that. -/
  moreBreaks : List Char := []
  /-- Whether a line has ended since the last character. -/
  broken : Bool := false
  deriving Inhabited

namespace Fold

def blank (f : Fold) (c : Char) : Fold := if f.broken then f else { f with blanks := c :: f.blanks }

def lineBreak (f : Fold) (c : Char) : Fold :=
  if f.broken then { f with moreBreaks := keptBreak c :: f.moreBreaks }
  else { f with blanks := [], firstBreak := [keptBreak c], broken := true }

/-- Puts what stood between characters into the text. -/
def join (f : Fold) : Fold :=
  if f.broken then
    let between :=
      if f.firstBreak = ['\n'] then if f.moreBreaks.isEmpty then [' '] else f.moreBreaks
      else f.moreBreaks ++ f.firstBreak
    { text := between ++ f.text }
  else { text := f.blanks ++ f.text }

def push (f : Fold) (c : Char) : Fold := { f.join with text := c :: f.join.text }

def toText (f : Fold) : String := String.ofList f.text.reverse

end Fold

/-! ### Plain scalars -/

/-- Whether a plain scalar ends before the next character. -/
def endsPlain (flow : Bool) (c : Char) (r : List Char) : Bool :=
  (c == ':' && atBlank r) || (flow && isFlowIndicator c)

/-- A colon that may neither end a plain scalar nor stand in it. -/
def badColon (flow : Bool) (c : Char) (r : List Char) : Bool :=
  flow && c == ':' && match r with
    | d :: _ => isFlowIndicator d || d == '?'
    | [] => false

/-- Reads a plain scalar on. Lines after the first must be indented by `indent`, and a blank before
them, as `between` tells, may be followed by a comment or the end of the document. -/
def plainFrom (flow : Bool) (indent : Int) (f : Fold) (between : Bool) (m : Mark) :
    List Char → Scan (Fold × Cursor)
  | [] => .ok (f, ⟨m, []⟩)
  | '\r' :: '\n' :: r => plainFrom flow indent (f.lineBreak '\n') true (m.down 2) r
  | c :: r =>
    if isBreak c then plainFrom flow indent (f.lineBreak c) true (m.down c.utf8Size) r
    else if isBlank c then
      if f.broken ∧ (m.column : Int) < indent ∧ c = '\t' then fail
      else plainFrom flow indent (f.blank c) true (m.right c) r
    else if between && !flow && m.column < indent then .ok (f, ⟨m, c :: r⟩)
    else if between && ((m.column == 0 && atDocumentMarker (c :: r)) || c == '#') then
      .ok (f, ⟨m, c :: r⟩)
    else if badColon flow c r then fail
    else if endsPlain flow c r then .ok (f, ⟨m, c :: r⟩)
    else plainFrom flow indent (f.push c) false (m.right c) r

/-! ### Quoted scalars -/

/-- The place of the next character in a quoted scalar. -/
inductive QuotePlace
  | inside
  | escape
  | code (left value : Nat)
  deriving DecidableEq

/-- The character that a single-letter escape stands for. -/
def escapeChar? (c : Char) : Option Char :=
  if c == '0' then some '\x00'
  else if c == 'a' then some '\x07'
  else if c == 'b' then some '\x08'
  else if c == 't' || c == '\t' then some '\t'
  else if c == 'n' then some '\n'
  else if c == 'v' then some '\x0b'
  else if c == 'f' then some '\x0c'
  else if c == 'r' then some '\r'
  else if c == 'e' then some '\x1b'
  else if c == ' ' || c == '"' || c == '/' || c == '\\' then some c
  else if c == 'N' then some '\u0085'
  else if c == '_' then some '\u00a0'
  else if c == 'L' then some '\u2028'
  else if c == 'P' then some '\u2029'
  else none

/-- The number of digits of a character code behind its escape letter. -/
def codeLength? (c : Char) : Option Nat :=
  if c == 'x' then some 2 else if c == 'u' then some 4 else if c == 'U' then some 8 else none

/-- The character of a code, if there is one. -/
def charOfCode? (n : Nat) : Option Char := if n.isValidChar then some (Char.ofNat n) else none

/-- A line break behind a backslash is dropped, and with it the blanks around. -/
def Fold.escapedBreak (f : Fold) : Fold := { f.join with broken := true }

/-- Reads a quoted scalar on, up to and with the closing quote. -/
def quotedFrom (single : Bool) (f : Fold) (place : QuotePlace) (between : Bool) (m : Mark) :
    List Char → Scan (Fold × Cursor)
  | [] => fail
  | '\r' :: '\n' :: r => match place with
    | .inside => quotedFrom single (f.lineBreak '\n') .inside true (m.down 2) r
    | .escape => quotedFrom single f.escapedBreak .inside true (m.down 2) r
    | .code _ _ => fail
  | '\'' :: '\'' :: r =>
    if single then quotedFrom single (f.push '\'') .inside false ((m.right '\'').right '\'') r
    else if place = .inside then quotedFrom single ((f.push '\'').push '\'') .inside false
      ((m.right '\'').right '\'') r
    else fail
  | c :: r => match place with
    | .inside =>
      if isBreak c then quotedFrom single (f.lineBreak c) .inside true (m.down c.utf8Size) r
      else if isBlank c then quotedFrom single (f.blank c) .inside true (m.right c) r
      else if between && m.column == 0 && atDocumentMarker (c :: r) then fail
      else if c == (if single then '\'' else '"') then .ok (f.join, ⟨m.right c, r⟩)
      else if !single && c == '\\' then quotedFrom single f .escape false (m.right c) r
      else quotedFrom single (f.push c) .inside false (m.right c) r
    | .escape =>
      if isBreak c then quotedFrom single f.escapedBreak .inside true (m.down c.utf8Size) r
      else match escapeChar? c, codeLength? c with
        | some d, _ => quotedFrom single (f.push d) .inside false (m.right c) r
        | none, some n => quotedFrom single f (.code n 0) false (m.right c) r
        | none, none => fail
    | .code left value => match Text.Hexadecimal.value? c with
      | none => fail
      | some d =>
        if 2 ≤ left then quotedFrom single f (.code (left - 1) (16 * value + d)) false (m.right c) r
        else match charOfCode? (16 * value + d) with
          | some d => quotedFrom single (f.push d) .inside false (m.right c) r
          | none => fail

/-! ### Block scalars -/

/-- What becomes of the line breaks at the end of a block. -/
inductive Chomp
  | strip
  | clip
  | keep
  deriving DecidableEq, Repr

/-- The header of a block: its chomping, and the indentation that it asks for. -/
structure BlockHeader where
  chomp : Chomp
  increment : Option Nat

def chompOf? (c : Char) : Option Chomp :=
  if c == '-' then some .strip else if c == '+' then some .keep else none

/-- A digit from one to nine. -/
def incrementOf? (c : Char) : Option Nat :=
  if '1' ≤ c ∧ c ≤ '9' then some (c.toNat - 48) else none

/-- Reads the indicators of a header; a zero stands for no indentation and is refused. -/
def readHeader (c : Cursor) : Scan (BlockHeader × Cursor) :=
  match c.rest with
  | a :: r => match chompOf? a, incrementOf? a with
    | some chomp, _ => match r with
      | b :: _ => match incrementOf? b with
        | some n => .ok (⟨chomp, some n⟩, c.skip 2)
        | none => if b = '0' then fail else .ok (⟨chomp, none⟩, c.skip 1)
      | [] => .ok (⟨chomp, none⟩, c.skip 1)
    | none, some n => match r with
      | b :: _ => match chompOf? b with
        | some chomp => .ok (⟨chomp, some n⟩, c.skip 2)
        | none => .ok (⟨.clip, some n⟩, c.skip 1)
      | [] => .ok (⟨.clip, some n⟩, c.skip 1)
    | none, none => if a = '0' then fail else .ok (⟨.clip, none⟩, c)
  | [] => .ok (⟨.clip, none⟩, c)

/-- Passes blanks, a comment and the line break behind them; nothing else may stand there. -/
def skipLineEnd (c : Cursor) : Scan Cursor :=
  let (_, c) := c.span isBlank
  let c := if c.rest.head? = some '#' then (c.span fun d => !isBreak d).2 else c
  if atBreak c.rest then .ok c.skipBreak else fail

/-- The indentation and the empty lines in front of a line. -/
structure Gap where
  /-- The line breaks, last first. -/
  breaks : List Char
  deepest : Nat

/-- Passes empty lines and indentation; with no indentation known, all spaces count as such. -/
def gapFrom (indent : Nat) (g : Gap) (m : Mark) : List Char → Scan (Gap × Cursor)
  | [] => .ok ({ g with deepest := max g.deepest m.column }, ⟨m, []⟩)
  | '\r' :: '\n' :: r =>
    gapFrom indent ⟨'\n' :: g.breaks, max g.deepest m.column⟩ (m.down 2) r
  | c :: r =>
    let inIndent := indent = 0 ∨ m.column < indent
    if c = ' ' ∧ inIndent then gapFrom indent g (m.right c) r
    else if c = '\t' ∧ inIndent then fail
    else if isBreak c then
      gapFrom indent ⟨keptBreak c :: g.breaks, max g.deepest m.column⟩ (m.down c.utf8Size) r
    else .ok ({ g with deepest := max g.deepest m.column }, ⟨m, c :: r⟩)

/-- A block that is being read; the parts are held last first. -/
structure BlockText where
  text : List Char := []
  /-- The break after the last line. -/
  firstBreak : List Char := []
  /-- The breaks of the empty lines after it. -/
  moreBreaks : List Char := []
  /-- Whether the last line began with a blank. -/
  blankStart : Bool := false

/-- Puts the breaks in front of the next line into the text. -/
def BlockText.joinLine (b : BlockText) (literal blankStart : Bool) : List Char :=
  if !literal && b.firstBreak = ['\n'] && !b.blankStart && !blankStart then
    b.moreBreaks ++ (if b.moreBreaks.isEmpty then [' '] else []) ++ b.text
  else b.moreBreaks ++ b.firstBreak ++ b.text

/-- Reads the lines of a block; each takes at least one character, so `left` bounds their number. -/
def blockLines (literal : Bool) (indent : Nat) :
    (left : Nat) → BlockText → Cursor → Scan (BlockText × Cursor)
  | 0, b, c => .ok (b, c)
  | left + 1, b, c =>
    if c.mark.column ≠ indent ∨ c.rest.isEmpty then .ok (b, c)
    else do
      let blankStart := (c.rest.head?.map isBlank).getD false
      let joined := b.joinLine literal blankStart
      let (line, c) := c.span fun d => !isBreak d
      let firstBreak := (c.rest.head?.map fun d => [keptBreak d]).getD []
      let c := c.skipBreak
      let (gap, c) ← gapFrom indent ⟨[], 0⟩ c.mark c.rest
      blockLines literal indent left ⟨line.reverse ++ joined, firstBreak, gap.breaks, blankStart⟩ c

/-- A block behind its first indicator, inside `parent` columns of indentation. -/
def readBlock (literal : Bool) (parent : Int) (c : Cursor) : Scan (String × Cursor) := do
  let (header, c) ← readHeader c
  let c ← skipLineEnd c
  let asked := match header.increment with
    | some n => (if 0 ≤ parent then parent + n else n).toNat
    | none => 0
  let (gap, c) ← gapFrom asked ⟨[], 0⟩ c.mark c.rest
  let indent := if asked = 0 then max (max gap.deepest (parent + 1).toNat) 1 else asked
  let (b, c) ← blockLines literal indent (c.rest.length + 1) { moreBreaks := gap.breaks } c
  let ending := match header.chomp with
    | .strip => []
    | .clip => b.firstBreak
    | .keep => b.moreBreaks ++ b.firstBreak
  pure (String.ofList (ending ++ b.text).reverse, c)

end ImageAssembly.Yaml
