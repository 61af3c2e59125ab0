import ImageAssembly.Json.Token
import ImageAssembly.Json.Value
import ImageAssembly.Text.Integer

/-! The value of a written number. Integers that fit into 64 bits stay integers. All other numbers
become doubles by the scale of their first digits: as many digits as fit into 64 bits make a
significand, which is rounded to a double and then multiplied or divided by a power of ten, each time
with a rounding of its own. -/

namespace ImageAssembly.Json

open Decimal
open Text.Integer (bound)

/-- The greatest natural number of 64 bits. -/
def maxNatural : Nat := bound 64 - 1

/-- The greatest explicit exponent that is counted. -/
def maxExponent : Int := bound 31 - 1

/-- Appends digits to a significand as long as it fits; returns it with how many were taken. -/
def absorb (significand taken : Nat) : List Nat → Nat × Nat
  | [] => (significand, taken)
  | d :: r =>
    if 10 * significand + d ≤ maxNatural then absorb (10 * significand + d) (taken + 1) r
    else (significand, taken)

/-- The double that a significand and a power of ten lead to, or nothing if it is too large. -/
def scaleDouble (x : Binary64) (exponent : Int) : Option Binary64 :=
  if exponent.natAbs ≤ 308 then
    if 0 ≤ exponent then
      let y := x.mul (.powerOfTen exponent.toNat)
      if y.isInfinite then none else some y
    else some (x.div (.powerOfTen exponent.natAbs))
  else if x.isZero then some x
  else if 0 ≤ exponent then none
  else scaleDouble (x.div (.powerOfTen 308)) (exponent + 308)
termination_by exponent.natAbs

/-- The explicit exponent: its sign and size, or nothing when it is beyond every count. -/
def Numeral.explicitExponent? (n : Numeral) : Option Int :=
  match n.exponent with
  | none => some 0
  | some (negative, ds) =>
    let e : Int := (ds.foldl (fun e d => 10 * e + d) 0 : Nat)
    if maxExponent < e then none else some (if negative then -e else e)

/-- The magnitude of a number that is no integer of 64 bits. -/
def Numeral.magnitude? (n : Numeral) : Option Binary64 :=
  let (whole, taken) := absorb 0 0 n.whole
  let (significand, places) := absorb whole 0 n.fraction
  let start : Int := ((n.whole.length - taken : Nat) : Int) - (places : Int)
  match n.explicitExponent? with
  | some e =>
    let exponent := max (-maxExponent - 1) (min maxExponent (start + e))
    scaleDouble (.ofNat significand) exponent
  | none =>
    let negative := (n.exponent.map (·.1)).getD false
    if significand ≠ 0 ∧ !negative then none else some .zero

/-- The integer that a number without point and exponent is. -/
def Numeral.integer? (n : Numeral) : Option Int :=
  if n.fraction.isEmpty ∧ n.exponent.isNone then
    let v : Nat := n.whole.foldl (fun v d => 10 * v + d) 0
    if n.negative then if 0 < v ∧ v ≤ bound 63 then some (-(v : Int)) else none
    else if v ≤ maxNatural then some v else none
  else none

/-- The value of a number, or nothing if it is too large for a double. -/
def Numeral.value? (n : Numeral) : Option Number :=
  match n.integer? with
  | some v => some (.integer v)
  | none => n.magnitude?.map fun x => .double (if n.negative then x.negate else x)

end ImageAssembly.Json
