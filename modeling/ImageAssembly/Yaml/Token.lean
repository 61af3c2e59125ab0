import ImageAssembly.Yaml.Scalar

/-! The tokens of YAML text. Collections in block style have no brackets: their beginning and end follow
from the indentation. A scalar or collection turns out to be a key only when the colon behind it is
read, so the tokens that open a mapping and a key are put in front of it afterwards; a token is
delivered once nothing can be put in front of it any more. -/

namespace ImageAssembly.Yaml

/-- The bytes of a tag. Escapes can write any, so they need not be those of a text. -/
abbrev Tag := List UInt8

/-- The tag that an ASCII text writes. -/
def Tag.ofText (s : String) : Tag := s.toList.map Char.toUInt8

inductive Token
  | streamEnd
  | version (major minor : Nat)
  | handle (name : String) (start : Tag)
  | documentStart
  | documentEnd
  | blockSequenceStart
  | blockMappingStart
  | blockEnd
  | flowSequenceStart
  | flowSequenceEnd
  | flowMappingStart
  | flowMappingEnd
  | blockEntry
  | flowEntry
  | key
  | value
  | alias (name : String)
  | anchor (name : String)
  | tag (handle : String) (suffix : Tag)
  | scalar (text : String) (plain : Bool)
  deriving DecidableEq, Repr, Inhabited

/-! ### Anchors, tags and directives -/

/-- A name behind `&` or `*`, which a blank or an indicator must follow. -/
def readAnchor (c : Cursor) : Scan (String × Cursor) :=
  let (name, c) := (c.skip 1).span isWordChar
  let ends := atBlank c.rest ||
    (c.rest.head?.map ['?', ':', ',', ']', '\x7d', '%', '@', '\x60'].contains).getD false
  if name.isEmpty || !ends then fail else .ok (String.ofList name, c)

/-- Characters of a tag; within angle brackets some indicators of flow style may stand too. -/
def isTagChar (verbatim : Bool) (c : Char) : Bool :=
  isWordChar c || [';', '/', '?', ':', '@', '&', '=', '+', '$', '.', '%', '!', '~', '*', '\'', '(', ')'].contains c
    || (verbatim && [',', '[', ']'].contains c)

/-- How many bytes of a character follow its first byte. -/
def followingBytes? (b : Nat) : Option Nat :=
  if b < 0x80 then some 0
  else if 0xC0 ≤ b ∧ b < 0xE0 then some 1
  else if 0xE0 ≤ b ∧ b < 0xF0 then some 2
  else if 0xF0 ≤ b ∧ b < 0xF8 then some 3
  else none

/-- Replaces percent escapes by the bytes that they write, which must be grouped as those of characters
are; `left` bytes of a character are still to come. -/
def unescapeTag (acc : Tag) (left : Nat) : List Char → Scan Tag
  | [] => if left = 0 then .ok acc.reverse else fail
  | '%' :: a :: b :: r => match Text.Hexadecimal.number? [a, b] with
    | none => fail
    | some byte =>
      if left = 0 then match followingBytes? byte with
        | none => fail
        | some n => unescapeTag (byte.toUInt8 :: acc) n r
      else if byte / 0x40 = 2 then unescapeTag (byte.toUInt8 :: acc) (left - 1) r
      else fail
  | '%' :: _ => fail
  | c :: r => if left = 0 then unescapeTag (c.toUInt8 :: acc) 0 r else fail

/-- The bytes of a tag behind those of `head`; there must be some in all, and a zero ends them. -/
def readTagText (verbatim : Bool) (head : List Char) (c : Cursor) : Scan (Tag × Cursor) := do
  let (taken, c) := c.span (isTagChar verbatim)
  if head.isEmpty && taken.isEmpty then fail
  let text ← unescapeTag [] 0 taken
  pure ((head.tail.map Char.toUInt8 ++ text).takeWhile (· != 0), c)

/-- A handle: a name between exclamation marks, or one mark. Without the second mark it is none yet. -/
def readHandle (directive : Bool) (c : Cursor) : Scan (List Char × Cursor) :=
  if c.rest.head? = some '!' then
    let (name, c) := (c.skip 1).span isWordChar
    if c.rest.head? = some '!' then .ok ('!' :: (name ++ ['!']), c.skip 1)
    else if directive && !name.isEmpty then fail
    else .ok ('!' :: name, c)
  else fail

/-- Whether a handle has both its marks. -/
def isNamedHandle (handle : List Char) : Bool := 2 ≤ handle.length && handle.getLast? == some '!'

/-- A tag: in angle brackets, behind a handle, or local. -/
def readTag (flow : Bool) (c : Cursor) : Scan (Token × Cursor) := do
  let (handle, suffix, c) ←
    if (c.rest.drop 1).head? = some '<' then do
      let (suffix, c) ← readTagText true [] (c.skip 2)
      if c.rest.head? = some '>' then pure ("", suffix, c.skip 1) else fail
    else do
      let (handle, c) ← readHandle false c
      if isNamedHandle handle then do
        let (suffix, c) ← readTagText false [] c
        pure (String.ofList handle, suffix, c)
      else do
        let (suffix, c) ← readTagText false handle c
        pure (if suffix.isEmpty then ("", .ofText "!", c) else ("!", suffix, c))
  if atBlank c.rest || (flow && c.rest.head? == some ',') then pure (.tag handle suffix, c) else fail

def skipBlanks (c : Cursor) : Cursor := (c.span isBlank).2

/-- A part of a version number, of at most nine digits. -/
def readVersionPart (c : Cursor) : Scan (Nat × Cursor) :=
  let (digits, c) := c.span Char.isDigit
  if digits.isEmpty || 9 < digits.length then fail
  else .ok (digits.foldl (fun n d => 10 * n + (d.toNat - 48)) 0, c)

/-- A directive: the version of the language, or a handle for tags. -/
def readDirective (c : Cursor) : Scan (Token × Cursor) := do
  let (name, c) := (c.skip 1).span isWordChar
  if name.isEmpty || !atBlank c.rest then fail
  let (token, c) ←
    if name = "YAML".toList then do
      let (major, c) ← readVersionPart (skipBlanks c)
      if c.rest.head? ≠ some '.' then fail
      let (minor, c) ← readVersionPart (c.skip 1)
      pure (Token.version major minor, c)
    else if name = "TAG".toList then do
      let (handle, c) ← readHandle true (skipBlanks c)
      if !(c.rest.head?.map isBlank).getD false then fail
      let (start, c) ← readTagText true [] (skipBlanks c)
      if !atBlank c.rest then fail
      pure (Token.handle (String.ofList handle) start, c)
    else fail
  let c ← skipLineEnd c
  pure (token, c)

/-! ### The reader -/

/-- Where a key may have begun, at one level of nesting in flow style. -/
structure KeyPlace where
  possible : Bool := false
  /-- Nothing else than a key may stand there. -/
  required : Bool := false
  /-- The number of tokens in front of it. -/
  number : Nat := 0
  mark : Mark := ⟨0, 0, 0⟩
  deriving Inhabited, Repr

structure Reader where
  cursor : Cursor
  tokens : Array Token
  /-- The number of tokens that are delivered. -/
  delivered : Nat
  /-- The column of the innermost block collection. -/
  indent : Int
  /-- The columns of those around it, inner ones first. -/
  indents : List Int
  /-- Whether a key may begin at the next token. -/
  keyAllowed : Bool
  /-- The key places, that of the innermost level first. -/
  keys : List KeyPlace
  /-- Whether the text goes on, but cannot be read on. -/
  cut : Bool
  ended : Bool
  deriving Inhabited

namespace Reader

def start (text : List Char) (cut : Bool) : Reader where
  cursor := ⟨⟨0, 0, 0⟩, text⟩
  tokens := #[]
  delivered := 0
  indent := -1
  indents := []
  keyAllowed := true
  keys := [{}]
  cut := cut
  ended := false

/-- Whether the next token stands within brackets. -/
def inFlow (s : Reader) : Bool := 2 ≤ s.keys.length

def emit (s : Reader) (t : Token) : Reader := { s with tokens := s.tokens.push t }

def setTopKey (s : Reader) (k : KeyPlace) : Reader := { s with keys := k :: s.keys.tail }

/-- A key cannot begin at the last possible place any more. -/
def dropKey (s : Reader) : Scan Reader :=
  match s.keys with
  | k :: _ => if k.possible && k.required then fail else .ok (s.setTopKey { k with possible := false })
  | [] => .ok s

/-- Remembers that a key may begin here. -/
def saveKey (s : Reader) : Scan Reader :=
  if s.keyAllowed then
    s.dropKey.map fun s => s.setTopKey
      { possible := true, required := !s.inFlow && s.indent == s.cursor.mark.column,
        number := s.tokens.size, mark := s.cursor.mark }
  else .ok s

/-- Keys stand on one line and are not too long. -/
def isStale (s : Reader) (k : KeyPlace) : Bool :=
  k.possible && (k.mark.line < s.cursor.mark.line || k.mark.index + 1024 < s.cursor.mark.index)

/-- Gives up the key places that lie too far back. -/
def dropStale (s : Reader) : Scan Reader :=
  if s.keys.any fun k => s.isStale k && k.required then fail
  else .ok { s with keys := s.keys.map fun k => if s.isStale k then { k with possible := false } else k }

/-- Delivers the tokens in front of the first place where a key may begin. -/
def deliver (s : Reader) : Reader :=
  { s with delivered := s.keys.foldl (fun n k => if k.possible then min n k.number else n) s.tokens.size }

/-- Opens a block collection at a column that lies deeper; its token becomes number `at`. -/
def openBlock (s : Reader) (column number : Nat) (t : Token) : Reader :=
  if s.inFlow || column ≤ s.indent then s
  else { s with
    indents := s.indent :: s.indents
    indent := column
    tokens := s.tokens.insertIdxIfInBounds number t }

/-- Closes block collections that lie deeper than a column. -/
def closeBlocks (s : Reader) (column : Int) : Reader :=
  if s.inFlow then s
  else
    let closed := (s.indent :: s.indents).takeWhile fun i => column < i
    let left := (s.indent :: s.indents).drop closed.length
    { s with
      tokens := s.tokens ++ Array.replicate closed.length Token.blockEnd
      indent := left.headD (-1)
      indents := left.tail }

/-- Passes blanks, comments and line breaks, and a byte order mark at the beginning of a line. Tabs count
as blanks only where no key may begin. -/
def skipGap (flow allowed comment : Bool) (m : Mark) : List Char → Bool × Cursor
  | [] => (allowed, ⟨m, []⟩)
  | '\r' :: '\n' :: r => skipGap flow (allowed || !flow) false (m.down 2) r
  | c :: r =>
    if isBreak c then skipGap flow (allowed || !flow) false (m.down c.utf8Size) r
    else if comment || c = ' ' || (c = '\t' && (flow || !allowed)) then
      skipGap flow allowed comment (m.right c) r
    else if c = '\ufeff' ∧ m.column = 0 then skipGap flow allowed comment (m.right c) r
    else if c = '#' then skipGap flow allowed true (m.right c) r
    else (allowed, ⟨m, c :: r⟩)

def skipToToken (s : Reader) : Reader :=
  let (allowed, c) := skipGap s.inFlow s.keyAllowed false s.cursor.mark s.cursor.rest
  { s with cursor := c, keyAllowed := allowed }

/-- A token of `n` characters. -/
def indicator (s : Reader) (n : Nat) (t : Token) : Reader :=
  { s.emit t with cursor := s.cursor.skip n }

/-- A token of which the text has been read up to `c`. -/
def content (s : Reader) (t : Token) (c : Cursor) : Reader := { s.emit t with cursor := c }

def allowKey (s : Reader) (b : Bool) : Reader := { s with keyAllowed := b }

def column (s : Reader) : Nat := s.cursor.mark.column

/-- The end of the text. -/
def readEnd (s : Reader) : Scan Reader := do
  let s := { s with cursor := if s.column = 0 then s.cursor else ⟨s.cursor.mark.down 0, s.cursor.rest⟩ }
  let s ← (s.closeBlocks (-1)).dropKey
  pure { s.emit .streamEnd with keyAllowed := false, ended := true }

def readDocumentMarker (s : Reader) (t : Token) : Scan Reader := do
  let s ← (s.closeBlocks (-1)).dropKey
  pure ((s.allowKey false).indicator 3 t)

def readDirectiveToken (s : Reader) : Scan Reader := do
  let s ← (s.closeBlocks (-1)).dropKey
  let (t, c) ← readDirective s.cursor
  pure ((s.allowKey false).content t c)

def openFlow (s : Reader) (t : Token) : Scan Reader := do
  let s ← s.saveKey
  pure (({ s with keys := {} :: s.keys }.allowKey true).indicator 1 t)

def closeFlow (s : Reader) (t : Token) : Scan Reader := do
  let s ← s.dropKey
  let s := if s.inFlow then { s with keys := s.keys.tail } else s
  pure ((s.allowKey false).indicator 1 t)

def readFlowEntry (s : Reader) : Scan Reader := do
  let s ← s.dropKey
  pure ((s.allowKey true).indicator 1 .flowEntry)

/-- Begins a block collection at an indicator, where one may begin. -/
def openAtIndicator (s : Reader) (t : Token) : Scan Reader :=
  if s.inFlow then .ok s
  else if s.keyAllowed then .ok (s.openBlock s.column s.tokens.size t)
  else fail

def readBlockEntry (s : Reader) : Scan Reader := do
  let s ← s.openAtIndicator .blockSequenceStart
  let s ← s.dropKey
  pure ((s.allowKey true).indicator 1 .blockEntry)

def readKey (s : Reader) : Scan Reader := do
  let s ← s.openAtIndicator .blockMappingStart
  let s ← s.dropKey
  pure ((s.allowKey !s.inFlow).indicator 1 .key)

def readValue (s : Reader) : Scan Reader :=
  match s.keys.head? with
  | some k =>
    if k.possible then
      let s := { s with tokens := s.tokens.insertIdxIfInBounds k.number Token.key }
      let s := s.openBlock k.mark.column k.number .blockMappingStart
      .ok (((s.setTopKey { k with possible := false }).allowKey false).indicator 1 .value)
    else do
      let s ← s.openAtIndicator .blockMappingStart
      pure ((s.allowKey !s.inFlow).indicator 1 .value)
  | none => fail

def readAnchorToken (s : Reader) (token : String → Token) : Scan Reader := do
  let s ← s.saveKey
  let (name, c) ← readAnchor s.cursor
  pure ((s.allowKey false).content (token name) c)

def readTagToken (s : Reader) : Scan Reader := do
  let s ← s.saveKey
  let (t, c) ← readTag s.inFlow s.cursor
  pure ((s.allowKey false).content t c)

def readBlockScalar (s : Reader) (literal : Bool) : Scan Reader := do
  let s ← s.dropKey
  let (text, c) ← readBlock literal s.indent (s.cursor.skip 1)
  pure ((s.allowKey true).content (.scalar text false) c)

def readQuoted (s : Reader) (single : Bool) : Scan Reader := do
  let s ← s.saveKey
  let c := s.cursor.skip 1
  let (f, c) ← quotedFrom single {} .inside false c.mark c.rest
  pure ((s.allowKey false).content (.scalar f.toText false) c)

def readPlain (s : Reader) : Scan Reader := do
  let s ← s.saveKey
  let (f, c) ← plainFrom s.inFlow (s.indent + 1) {} false s.cursor.mark s.cursor.rest
  pure ((s.allowKey f.broken).content (.scalar f.toText true) c)

/-- Whether a plain scalar may begin with `c` in front of `r`. -/
def beginsPlain (flow : Bool) (c : Char) (r : List Char) : Bool :=
  let indicators := ['-', '?', ':', ',', '[', ']', '\x7b', '\x7d', '#', '&', '*', '!', '|', '>', '\'', '"',
    '%', '@', '\x60']
  (!isBlank c && !isBreak c && !indicators.contains c)
    || (c == '-' && !(r.head?.map isBlank).getD false)
    || (!flow && (c == '?' || c == ':') && !atBlank r)

/-- Asks for `n` characters of a text that is cut off; an end of its own is as good as any. -/
def demand (n : Nat) (s : Reader) : Scan Reader :=
  if s.cut && (s.cursor.rest.take n).length < n then fail else .ok s

/-- Reads the next token. Four characters tell what it is, and one more than its own where it ends. -/
def readToken (s : Reader) : Scan Reader := do
  let s ← s.skipToToken.dropStale
  let s ← (s.closeBlocks s.column).demand 4
  match s.cursor.rest with
  | [] => s.readEnd
  | c :: r =>
    let flow := s.inFlow
    if s.column = 0 ∧ c = '%' then s.readDirectiveToken
    else if s.column = 0 ∧ atDocumentMarker (c :: r) then
      s.readDocumentMarker (if c = '-' then .documentStart else .documentEnd)
    else if c = '[' then s.openFlow .flowSequenceStart
    else if c = '\x7b' then s.openFlow .flowMappingStart
    else if c = ']' then s.closeFlow .flowSequenceEnd
    else if c = '\x7d' then s.closeFlow .flowMappingEnd
    else if c = ',' then s.readFlowEntry
    else if c = '-' ∧ atBlank r then s.readBlockEntry
    else if c = '?' ∧ (flow ∨ atBlank r) then s.readKey
    else if c = ':' ∧ (flow ∨ atBlank r) then s.readValue
    else if c = '*' then s.readAnchorToken .alias
    else if c = '&' then s.readAnchorToken .anchor
    else if c = '!' then s.readTagToken
    else if c = '|' ∧ !flow then s.readBlockScalar true
    else if c = '>' ∧ !flow then s.readBlockScalar false
    else if c = '\'' then s.readQuoted true
    else if c = '"' then s.readQuoted false
    else if beginsPlain flow c r then s.readPlain
    else fail

/-- Reads tokens to the end or the first fault. Every token takes a character, so `left` bounds their
number. -/
def readAll : (left : Nat) → Reader → Reader
  | 0, s => s
  | left + 1, s =>
    if s.ended then s
    else match (s.readToken.bind (demand 1)).bind dropStale with
      | .ok s => readAll left s.deliver
      | .error _ => s

end Reader

/-- The tokens that are delivered before the first fault. -/
def tokens (text : String) : List Token :=
  let (chars, cut) := allowedPieces [] [] 0 text.toList
  let s := Reader.readAll (chars.length + 2) (Reader.start chars cut)
  (s.tokens.extract 0 s.delivered).toList

end ImageAssembly.Yaml
