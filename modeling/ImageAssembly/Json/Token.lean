import ImageAssembly.Text.Hexadecimal

/-! The tokens of JSON text, read from bytes one at a time. Reading goes on up to the first byte that
no token can contain, for which a last `bad` token stands. A string keeps what its escapes said until
its text is asked for, since a text that nobody asks for may hold unpaired surrogates. -/

namespace ImageAssembly.Json

/-- A number as it is written, by its digits. -/
structure Numeral where
  negative : Bool
  whole : List Nat
  /-- The digits after the point; none if there is no point. -/
  fraction : List Nat
  /-- The sign and the digits of the exponent. -/
  exponent : Option (Bool × List Nat)
  deriving DecidableEq, Repr, Inhabited

/-- A piece of a string: a byte of text, or a UTF-16 unit that an escape gave. -/
inductive Piece
  | byte (b : UInt8)
  | unit (n : Nat)
  deriving DecidableEq, Repr

inductive Token
  | openArray
  | closeArray
  | openObject
  | closeObject
  | comma
  | colon
  | null
  | bool (b : Bool)
  | number (n : Numeral)
  | string (text : Option String)
  | bad
  deriving DecidableEq, Repr

/-! ### Strings -/

/-- The bytes of a character. -/
def pushChar (acc : ByteArray) (code : Nat) : ByteArray := acc ++ (Char.ofNat code).toString.toUTF8

def isHighSurrogate (n : Nat) : Bool := 0xD800 ≤ n && n < 0xDC00

def isLowSurrogate (n : Nat) : Bool := 0xDC00 ≤ n && n < 0xE000

/-- The UTF-8 bytes of a string, if its surrogates come in pairs. -/
def assembleBytes : ByteArray → List Piece → Option ByteArray
  | acc, [] => some acc
  | acc, .byte b :: r => assembleBytes (acc.push b) r
  | acc, .unit hi :: .unit lo :: r =>
    if isHighSurrogate hi then
      if isLowSurrogate lo then
        assembleBytes (pushChar acc (0x10000 + (hi - 0xD800) * 0x400 + (lo - 0xDC00))) r
      else none
    else if isLowSurrogate hi then none
    else assembleBytes (pushChar acc hi) (.unit lo :: r)
  | acc, .unit n :: r =>
    if isHighSurrogate n || isLowSurrogate n then none else assembleBytes (pushChar acc n) r

/-- The text of a string, if it is one. -/
def pieceText? (pieces : List Piece) : Option String :=
  (assembleBytes .empty pieces).bind String.fromUTF8?

/-- The byte that a single-letter escape stands for. -/
def escapeByte? (b : UInt8) : Option UInt8 :=
  if b = 0x22 ∨ b = 0x5C ∨ b = 0x2F then some b
  else if b = 0x62 then some 0x08
  else if b = 0x66 then some 0x0C
  else if b = 0x6E then some 0x0A
  else if b = 0x72 then some 0x0D
  else if b = 0x74 then some 0x09
  else none

/-! ### Numbers -/

/-- The part of a number that was read last. -/
inductive Part
  | sign
  | zero
  | whole
  | point
  | fraction
  | mark
  | exponentSign
  | exponent
  deriving DecidableEq, Repr

/-- A number of which all digits so far are held last first. -/
structure Partial where
  part : Part
  numeral : Numeral
  deriving Repr

/-- What a byte does to a number. -/
inductive Advance
  | more (p : Partial)
  | over
  | bad

def digit? (b : UInt8) : Option Nat :=
  if 0x30 ≤ b ∧ b ≤ 0x39 then some (b.toNat - 48) else none

def Numeral.pushExponent (n : Numeral) (d : Nat) : Numeral :=
  match n.exponent with
  | none => { n with exponent := some (false, [d]) }
  | some (negative, ds) => { n with exponent := some (negative, d :: ds) }

/-- Whether a number may end after a part. -/
def Part.mayEnd : Part → Bool
  | .zero | .whole | .fraction | .exponent => true
  | .sign | .point | .mark | .exponentSign => false

def isPointByte (b : UInt8) : Bool := b == 0x2E

def isMarkByte (b : UInt8) : Bool := b == 0x65 || b == 0x45

/-- Takes a byte into a number. -/
def Partial.advance (p : Partial) (b : UInt8) : Advance :=
  let n := p.numeral
  let ending := if p.part.mayEnd then Advance.over else .bad
  match p.part, digit? b with
  | .sign, some d => .more ⟨if d = 0 then .zero else .whole, { n with whole := [d] }⟩
  | .zero, some _ => .bad
  | .whole, some d => .more ⟨.whole, { n with whole := d :: n.whole }⟩
  | .point, some d | .fraction, some d => .more ⟨.fraction, { n with fraction := d :: n.fraction }⟩
  | .mark, some d | .exponentSign, some d | .exponent, some d => .more ⟨.exponent, n.pushExponent d⟩
  | .zero, none | .whole, none =>
    if isPointByte b then .more ⟨.point, n⟩
    else if isMarkByte b then .more ⟨.mark, { n with exponent := some (false, []) }⟩
    else ending
  | .fraction, none =>
    if isMarkByte b then .more ⟨.mark, { n with exponent := some (false, []) }⟩ else ending
  | .mark, none =>
    if b = 0x2B then .more ⟨.exponentSign, n⟩
    else if b = 0x2D then .more ⟨.exponentSign, { n with exponent := some (true, []) }⟩
    else ending
  | .sign, none | .point, none | .exponentSign, none | .exponent, none => ending

/-- The number, its digits put in order. -/
def Partial.numeralToken (p : Partial) : Token :=
  let n := p.numeral
  if p.part.mayEnd then
    .number ⟨n.negative, n.whole.reverse, n.fraction.reverse,
      n.exponent.map fun (negative, ds) => (negative, ds.reverse)⟩
  else .bad

/-! ### The reader -/

/-- The token that is being read; what it has gathered is held last first. -/
inductive State
  | between
  | word (rest : List UInt8) (token : Token)
  | number (p : Partial)
  | string (pieces : List Piece)
  | escape (pieces : List Piece)
  | code (pieces : List Piece) (left value : Nat)
  deriving Repr

/-- A byte that no token can contain: nothing behind it is read. -/
def badToken : List Token × Option State := ([.bad], none)

/-- Begins at a byte between tokens: a token that it is by itself, and the state that follows. -/
def State.begin (b : UInt8) : List Token × Option State :=
  if b = 0x20 ∨ b = 0x09 ∨ b = 0x0A ∨ b = 0x0D then ([], some .between)
  else if b = 0x5B then ([.openArray], some .between)
  else if b = 0x5D then ([.closeArray], some .between)
  else if b = 0x7B then ([.openObject], some .between)
  else if b = 0x7D then ([.closeObject], some .between)
  else if b = 0x2C then ([.comma], some .between)
  else if b = 0x3A then ([.colon], some .between)
  else if b = 0x22 then ([], some (.string []))
  else if b = 0x6E then ([], some (.word [0x75, 0x6C, 0x6C] .null))
  else if b = 0x74 then ([], some (.word [0x72, 0x75, 0x65] (.bool true)))
  else if b = 0x66 then ([], some (.word [0x61, 0x6C, 0x73, 0x65] (.bool false)))
  else if b = 0x2D then ([], some (.number ⟨.sign, ⟨true, [], [], none⟩⟩))
  else match digit? b with
    | some d => ([], some (.number ⟨if d = 0 then .zero else .whole, ⟨false, [d], [], none⟩⟩))
    | none => badToken

/-- Takes one byte: the tokens that it completes, and the state that follows. A number is complete
whatever ends it. -/
def State.step (s : State) (b : UInt8) : List Token × Option State :=
  match s with
  | .between => State.begin b
  | .word [] _ => badToken
  | .word [last] token => if b = last then ([token], some .between) else badToken
  | .word (c :: r) token => if b = c then ([], some (.word r token)) else badToken
  | .number p => match p.advance b with
    | .more p => ([], some (.number p))
    | .over => let (ts, s) := State.begin b; (p.numeralToken :: ts, s)
    | .bad => badToken
  | .string pieces =>
    if b = 0x22 then ([.string (pieceText? pieces.reverse)], some .between)
    else if b = 0x5C then ([], some (.escape pieces))
    else if b < 0x20 then badToken
    else ([], some (.string (.byte b :: pieces)))
  | .escape pieces =>
    if b = 0x75 then ([], some (.code pieces 4 0))
    else match escapeByte? b with
      | some c => ([], some (.string (.byte c :: pieces)))
      | none => badToken
  | .code pieces left value => match Text.Hexadecimal.value? (Char.ofUInt8 b) with
    | some d =>
      if left ≤ 1 then ([], some (.string (.unit (16 * value + d) :: pieces)))
      else ([], some (.code pieces (left - 1) (16 * value + d)))
    | none => badToken

/-- The tokens that the end of the text completes. -/
def State.finish : State → List Token
  | .between => []
  | .number p => [p.numeralToken]
  | .word _ _ | .string _ | .escape _ | .code _ _ _ => [.bad]

/-- The tokens from a state on, put behind those of `acc`, which are held last first. -/
def tokensFrom (acc : List Token) : State → List UInt8 → List Token
  | s, [] => (s.finish.reverse ++ acc).reverse
  | s, b :: r => match s.step b with
    | (ts, some s') => tokensFrom (ts.reverse ++ acc) s' r
    | (ts, none) => (ts.reverse ++ acc).reverse

/-- The tokens of a text. -/
def tokens (text : List UInt8) : List Token := tokensFrom [] .between text

end ImageAssembly.Json
