import ImageAssembly.Decimal.Binary64

/-! Decimal numerals as text: an optional sign, digits with perhaps a point among them, and perhaps an
exponent. -/

namespace ImageAssembly.Decimal

/-- The number that a run of digits writes. -/
def digitsValue (ds : List Char) : Nat := ds.foldl (fun n c => 10 * n + (c.toNat - 48)) 0

/-- An exponent behind its letter: an optional sign and digits up to the end. -/
def exponent? (s : List Char) : Option Int :=
  let (negative, ds) := match s with
    | '-' :: r => (true, r)
    | '+' :: r => (false, r)
    | r => (false, r)
  if ds.isEmpty || !ds.all Char.isDigit then none
  else
    -- greater exponents than this all lead to the same numbers
    let e : Int := if 12 < (ds.dropWhile (· == '0')).length then 1000000000000 else digitsValue ds
    some (if negative then -e else e)

/-- The double nearest to an unsigned numeral. -/
def unsignedNumeral? (s : List Char) : Option Binary64 :=
  let whole := s.takeWhile Char.isDigit
  let r := s.dropWhile Char.isDigit
  let (fraction, r) := match r with
    | '.' :: r => (r.takeWhile Char.isDigit, r.dropWhile Char.isDigit)
    | r => ([], r)
  if whole.isEmpty && fraction.isEmpty then none
  else
    let scaled := fun (e : Int) => Binary64.ofDecimal (digitsValue (whole ++ fraction)) (e - fraction.length)
    match r with
    | [] => some (scaled 0)
    | c :: r => if c == 'e' || c == 'E' then (exponent? r).map scaled else none

/-- The double nearest to a numeral. -/
def numeral? (s : List Char) : Option Binary64 :=
  match s with
  | '-' :: r => (unsignedNumeral? r).map Binary64.negate
  | '+' :: r => unsignedNumeral? r
  | r => unsignedNumeral? r

end ImageAssembly.Decimal
