import ImageAssembly.Decimal.Shortest
import ImageAssembly.Text.Hexadecimal

/-! JSON values and their one written form: no blanks, members in the order of the list, and escapes
for quotes, backslashes and controls only. -/

namespace ImageAssembly.Json

open Decimal

/-- A number: an integer, or a finite double. -/
inductive Number
  | integer (n : Int)
  | double (x : Binary64)
  deriving DecidableEq, Repr, Inhabited

inductive Value
  | null
  | bool (b : Bool)
  | number (n : Number)
  | string (s : String)
  | array (items : List Value)
  | object (members : List (String × Value))
  deriving Inhabited

/-! ### Writing -/

/-- Doubles are written shortest; those of moderate size with a point, others with an exponent. -/
def renderDouble (x : Binary64) : List Char :=
  let v := x.shortest
  let digits :=
    if x.isZero then ['0', '.', '0']
    else if -5 ≤ v.leading ∧ v.leading < 16 then v.positional
    else v.scientific
  if x.isNegative then '-' :: digits else digits

def renderInteger (n : Int) : List Char :=
  if n < 0 then '-' :: Nat.toDigits 10 n.natAbs else Nat.toDigits 10 n.toNat

def Number.render : Number → List Char
  | .integer n => renderInteger n
  | .double x => renderDouble x

/-- A character inside a string. -/
def escapeChar (c : Char) : List Char :=
  if c = '"' then ['\\', '"']
  else if c = '\\' then ['\\', '\\']
  else if 0x20 ≤ c.toNat then [c]
  else if c.toNat = 8 then ['\\', 'b']
  else if c.toNat = 9 then ['\\', 't']
  else if c.toNat = 10 then ['\\', 'n']
  else if c.toNat = 12 then ['\\', 'f']
  else if c.toNat = 13 then ['\\', 'r']
  else ['\\', 'u', '0', '0', Text.Hexadecimal.digit (c.toNat / 16), Text.Hexadecimal.digit (c.toNat % 16)]

def renderString (s : String) : List Char := '"' :: (s.toList.flatMap escapeChar ++ ['"'])

mutual

/-- The written form of a value. -/
def Value.render : Value → List Char
  | .null => ['n', 'u', 'l', 'l']
  | .bool true => ['t', 'r', 'u', 'e']
  | .bool false => ['f', 'a', 'l', 's', 'e']
  | .number n => n.render
  | .string s => renderString s
  | .array items => '[' :: (renderItems items ++ [']'])
  | .object members => '\x7b' :: (renderMembers members ++ ['\x7d'])

def renderItems : List Value → List Char
  | [] => []
  | [v] => v.render
  | v :: w :: r => v.render ++ ',' :: renderItems (w :: r)

def renderMembers : List (String × Value) → List Char
  | [] => []
  | [(k, v)] => renderString k ++ ':' :: v.render
  | (k, v) :: e :: r => renderString k ++ ':' :: (v.render ++ ',' :: renderMembers (e :: r))

end

def Value.toText (v : Value) : String := String.ofList v.render

/-- The bytes of the written form. -/
def Value.toBytes (v : Value) : ByteArray := v.toText.toUTF8

end ImageAssembly.Json
