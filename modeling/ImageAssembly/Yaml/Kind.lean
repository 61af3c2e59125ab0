import ImageAssembly.Decimal.Numeral
import ImageAssembly.Decimal.Shortest
import ImageAssembly.Text.Hexadecimal
import ImageAssembly.Text.Integer
import ImageAssembly.Text.Quoted
import ImageAssembly.Yaml.Node

/-! What a scalar would be if no text were wanted: nothing, a truth value, a number or a text. A plain
scalar tells by its form; a tag of the core set asks for one kind. -/

namespace ImageAssembly.Yaml

open Decimal
open Text.Integer (bound)

/-- What stands where something else was expected. -/
inductive Kind
  | nothing
  | boolean (b : Bool)
  | integer (n : Int)
  /-- An integer that takes more than 64 bits. -/
  | wide (n : Int)
  | double (x : Binary64)
  | text (s : String)
  | sequence
  | map

/-- A double in full, with a point, or its name. -/
def describeDouble (x : Binary64) : String :=
  let size := if x.isFinite then String.ofList x.shortest.positional
    else if x.isInfinite then "inf" else "NaN"
  if x.isNegative then "-" ++ size else size

def describeInteger (n : Int) : String := if n < 0 then "-" ++ n.natAbs.repr else n.toNat.repr

def Kind.describe : Kind → String
  | .nothing => "unit value"
  | .boolean b => "boolean \x60" ++ (if b then "true" else "false") ++ "\x60"
  | .integer n => "integer \x60" ++ describeInteger n ++ "\x60"
  | .wide n => "integer \x60" ++ describeInteger n ++ "\x60 as " ++ (if n < 0 then "i128" else "u128")
  | .double x => "floating point \x60" ++ describeDouble x ++ "\x60"
  | .text s => "string " ++ Text.quoted s
  | .sequence => "sequence"
  | .map => "map"

/-! ### Forms -/

def isNull (s : String) : Bool := s == "null" || s == "Null" || s == "NULL" || s == "~"

def boolean? (s : String) : Option Bool :=
  if s == "true" || s == "True" || s == "TRUE" then some true
  else if s == "false" || s == "False" || s == "FALSE" then some false
  else none

/-- Digits with a zero in front of others, signed or not: not a number. -/
def isPaddedNumber (s : List Char) : Bool :=
  let ds := match s with
    | '-' :: r => r
    | '+' :: r => r
    | r => r
  match ds with
  | '0' :: r => !r.isEmpty && r.all Char.isDigit
  | _ => false

def radixValue? (radix : Nat) (ds : List Char) : Option Nat :=
  if ds.isEmpty then none
  else ds.foldlM (fun n c => (Text.Hexadecimal.value? c).bind fun d =>
    if d < radix then some (radix * n + d) else none) 0

/-- A natural number in decimal, hexadecimal, octal or binary digits. -/
def natural? (padded : Bool) : List Char → Option Nat
  | '0' :: 'x' :: r => radixValue? 16 r
  | '0' :: 'o' :: r => radixValue? 8 r
  | '0' :: 'b' :: r => radixValue? 2 r
  | r => if padded then none else radixValue? 10 r

/-- An integer in any of these forms, signed or not. -/
def integer? (s : List Char) : Option Int :=
  let padded := isPaddedNumber s
  match s with
  | '+' :: r => (natural? padded r).map Int.ofNat
  | '-' :: r => (natural? padded r).map fun n => -(n : Int)
  | r => (natural? padded r).map Int.ofNat

/-- The kind of an integer by its size; one of more than 128 bits is none. -/
def integerKind? (s : List Char) : Option Kind :=
  (integer? s).bind fun n =>
    if -bound 63 ≤ n ∧ n < bound 64 then some (.integer n)
    else if -bound 127 ≤ n ∧ n < bound 128 then some (.wide n)
    else none

/-- A double: an infinity, no number, or a numeral of finite value. -/
def double? (s : String) : Option Binary64 :=
  let cs := s.toList
  if [".inf", ".Inf", ".INF", "+.inf", "+.Inf", "+.INF"].contains s then some .infinity
  else if ["-.inf", "-.Inf", "-.INF"].contains s then some (Binary64.infinity.negate)
  else if [".nan", ".NaN", ".NAN"].contains s then some .notANumber
  else
    let unsigned := if cs.head? = some '+' then cs.tail else cs
    if cs.head? = some '+' ∧ (unsigned.head? = some '+' ∨ unsigned.head? = some '-') then none
    else (numeral? unsigned).filter Binary64.isFinite

/-- The kind of a scalar by its form alone. -/
def formKind (s : String) : Kind :=
  if s == "" || isNull s then .nothing
  else match boolean? s, integerKind? s.toList with
    | some b, _ => .boolean b
    | none, some k => k
    | none, none =>
      if isPaddedNumber s.toList then .text s
      else match double? s with
        | some x => .double x
        | none => .text s

/-- The tag of the core set with a name. -/
def coreTag (name : String) : Tag := .ofText ("tag:yaml.org,2002:" ++ name)

/-- The kind of a scalar, or the kind that its tag asks for and its text is not. -/
def scalarKind (tag : Option Tag) (plain : Bool) (s : String) : Except String Kind :=
  match tag with
  | none => .ok (if plain then formKind s else .text s)
  | some tag =>
    if tag = coreTag "bool" then match boolean? s with
      | some b => .ok (.boolean b)
      | none => .error "a boolean"
    else if tag = coreTag "int" then match integerKind? s.toList with
      | some k => .ok k
      | none => .error "an integer"
    else if tag = coreTag "float" then match double? s with
      | some x => .ok (.double x)
      | none => .error "a float"
    else if tag = coreTag "null" then if isNull s then .ok .nothing else .error "null"
    else if plain && tag.head? == some '!'.toUInt8 then .ok (formKind s)
    else .ok (.text s)

end ImageAssembly.Yaml
