/-! Decimal integer texts: an optional sign and digits, read from the left, with a bound on the
value. -/

namespace ImageAssembly.Text.Integer

/-- Why a text is no integer of the wanted range. -/
inductive Fault
  | invalidDigit
  | tooLarge
  | tooSmall
  deriving Repr, DecidableEq

def Fault.message : Fault → String
  | .invalidDigit => "invalid digit found in string"
  | .tooLarge => "number too large to fit in target type"
  | .tooSmall => "number too small to fit in target type"

/-- The value of a decimal digit. -/
def digitValue? (c : Char) : Option Nat :=
  if c.isDigit then some (c.toNat - 48) else none

/-- Reads digits onto `acc`; the first digit that takes the value above `limit` is the fault, unless
a character that is no digit stands before it. -/
def magnitude (limit : Nat) (beyond : Fault) : Nat → List Char → Except Fault Nat
  | acc, [] => .ok acc
  | acc, c :: r => match digitValue? c with
    | none => .error .invalidDigit
    | some d => if 10 * acc + d ≤ limit then magnitude limit beyond (10 * acc + d) r
      else .error beyond

/-- The first natural number that takes more than `bits` bits. -/
def bound (bits : Nat) : Nat := Nat.pow 2 bits

/-- A signed integer of `bits` bits in two's complement. -/
def signed (bits : Nat) : List Char → Except Fault Int
  | [] => .error .invalidDigit
  | '-' :: [] => .error .invalidDigit
  | '+' :: [] => .error .invalidDigit
  | '-' :: r => (magnitude (bound (bits - 1)) .tooSmall 0 r).map fun n => -(n : Int)
  | '+' :: r => (magnitude (bound (bits - 1) - 1) .tooLarge 0 r).map Int.ofNat
  | r => (magnitude (bound (bits - 1) - 1) .tooLarge 0 r).map Int.ofNat

/-- The decimal digits of `n`, filled with zeros on the left up to `width`. -/
def padded (width n : Nat) : List Char :=
  let digits := Nat.toDigits 10 n
  List.replicate (width - digits.length) '0' ++ digits

end ImageAssembly.Text.Integer
