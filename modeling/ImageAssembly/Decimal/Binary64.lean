/-! Double-precision numbers, held as their bits. A magnitude is `m * 2 ^ q` with a significand
below `2 ^ 53`; every operation here is exact arithmetic on natural numbers followed by one rounding
to the nearest double, a half going to the even neighbour. -/

namespace ImageAssembly.Decimal

/-- The quotient rounded to the nearest natural number, a half to the even neighbour. -/
def roundHalfEven (num den : Nat) : Nat :=
  let q := num / den
  let r := num % den
  if 2 * r < den then q
  else if den < 2 * r then q + 1
  else if q % 2 = 0 then q else q + 1

/-- A double by its sign, exponent and fraction bits. -/
structure Binary64 where
  bits : UInt64
  deriving DecidableEq, Repr, Inhabited

namespace Binary64

/-- The bits of positive infinity. -/
def infinityBits : Nat := 0x7FF0000000000000

def infinity : Binary64 := ⟨infinityBits.toUInt64⟩

/-- The quiet value that is no number. -/
def notANumber : Binary64 := ⟨0x7FF8000000000000⟩

def zero : Binary64 := ⟨0⟩

/-- The number with the sign bit turned over. -/
def negate (x : Binary64) : Binary64 := ⟨x.bits ^^^ 0x8000000000000000⟩

def isNegative (x : Binary64) : Bool := x.bits &&& 0x8000000000000000 != 0

/-- The bits without the sign. -/
def magnitudeBits (x : Binary64) : Nat := x.bits.toNat % Nat.pow 2 63

def isFinite (x : Binary64) : Bool := x.magnitudeBits < infinityBits

def isInfinite (x : Binary64) : Bool := x.magnitudeBits == infinityBits

def isZero (x : Binary64) : Bool := x.magnitudeBits == 0

/-- The significand of a finite magnitude. -/
def significand (x : Binary64) : Nat :=
  let f := x.magnitudeBits % Nat.pow 2 52
  if x.magnitudeBits < Nat.pow 2 52 then f else Nat.pow 2 52 + f

/-- The power of two that the significand of a finite magnitude counts. -/
def exponent (x : Binary64) : Int :=
  if x.magnitudeBits < Nat.pow 2 52 then -1074 else (x.magnitudeBits / Nat.pow 2 52 : Nat) - 1075

/-- Numerator and denominator of a finite magnitude. -/
def ratio (x : Binary64) : Nat × Nat :=
  (x.significand * Nat.pow 2 x.exponent.toNat, Nat.pow 2 (-x.exponent).toNat)

/-- The double nearest to `num / den`, infinity from the middle of the last gap on. -/
def ofRatio (num den : Nat) : Binary64 :=
  if num = 0 ∨ den = 0 then zero
  else
    let e : Int := (num.log2 : Int) - (den.log2 : Int)
    -- the quotient lies between `2 ^ (e - 1)` and `2 ^ (e + 1)`
    let e := if num * Nat.pow 2 (-e).toNat < den * Nat.pow 2 e.toNat then e - 1 else e
    let q : Int := max (e - 52) (-1074)
    let m := roundHalfEven (num * Nat.pow 2 (-q).toNat) (den * Nat.pow 2 q.toNat)
    let bits := (q + 1074).toNat * Nat.pow 2 52 + m
    if bits < infinityBits then ⟨bits.toUInt64⟩ else infinity

def ofNat (n : Nat) : Binary64 := ofRatio n 1

/-- The product of two finite magnitudes. -/
def mul (x y : Binary64) : Binary64 :=
  ofRatio (x.ratio.1 * y.ratio.1) (x.ratio.2 * y.ratio.2)

/-- The quotient of two finite magnitudes. -/
def div (x y : Binary64) : Binary64 :=
  ofRatio (x.ratio.1 * y.ratio.2) (x.ratio.2 * y.ratio.1)

/-- The double nearest to `digits * 10 ^ scale`. Scales that lead beyond every finite double, or
below every positive one, are cut off before the power is formed. -/
def ofDecimal (digits : Nat) (scale : Int) : Binary64 :=
  let length : Int := (Nat.toDigits 10 digits).length
  if digits = 0 then zero
  else if length + scale > 400 then infinity
  else if length + scale < -400 then zero
  else ofRatio (digits * Nat.pow 10 scale.toNat) (Nat.pow 10 (-scale).toNat)

/-- The power of ten nearest to its exact value. -/
def powerOfTen (k : Nat) : Binary64 := ofRatio (Nat.pow 10 k) 1

end Binary64

end ImageAssembly.Decimal
