import ImageAssembly.Decimal.Binary64

/-! The fewest decimal digits that read back as a double. The reals that round to a double form an
interval; on the grids of one, two, up to seventeen digits the first grid with a point in it wins, of
two points the nearer, and of two equally near ones the even. -/

namespace ImageAssembly.Decimal

/-- A decimal number `digits * 10 ^ scale`. -/
structure Scaled where
  digits : Nat
  scale : Int
  deriving DecidableEq, Repr, Inhabited

namespace Binary64

/-- Whether `d * 10 ^ s` rounds to the magnitude of `x`: it lies between the middles of the gaps
below and above, or on one when the significand is even. All is counted in quarters of the
significand's unit, since the gap below a power of two is half as wide. -/
def reads (x : Binary64) (d : Nat) (s : Int) : Bool :=
  let m := x.significand
  let q := x.exponent - 2
  let below := if m = Nat.pow 2 52 ∧ -1074 < x.exponent then 4 * m - 1 else 4 * m - 2
  let above := 4 * m + 2
  -- compare `d * 10 ^ s` with `k * 2 ^ q`
  let left := d * Nat.pow 10 s.toNat * Nat.pow 2 (-q).toNat
  let right := fun k : Nat => k * Nat.pow 2 q.toNat * Nat.pow 10 (-s).toNat
  if m % 2 = 0 then right below ≤ left && left ≤ right above
  else right below < left && left < right above

/-- The point of the grid of multiples of `10 ^ s` that reads back, if there is one. -/
def onGrid (x : Binary64) (s : Int) : Option Nat :=
  let num := x.ratio.1 * Nat.pow 10 (-s).toNat
  let den := x.ratio.2 * Nat.pow 10 s.toNat
  let d := num / den
  match x.reads d s, x.reads (d + 1) s with
  | true, true => some (roundHalfEven num den)
  | true, false => some d
  | false, true => some (d + 1)
  | false, false => none

/-- The greatest `k` with `10 ^ k` at most the magnitude of `x`. -/
def decimalExponent (x : Binary64) : Int :=
  let (num, den) := x.ratio
  -- the digit counts determine it up to one
  let k : Int := ((Nat.toDigits 10 num).length : Int) - (Nat.toDigits 10 den).length
  if num * Nat.pow 10 (-k).toNat < den * Nat.pow 10 k.toNat then k - 1 else k

/-- Tries the last `n` of the seventeen grids, coarse ones first; the leading digit counts `10 ^ k`. -/
def firstGrid (x : Binary64) (k : Int) : Nat → Scaled
  | 0 => ⟨0, 0⟩
  | n + 1 =>
    let s := k - (16 - (n : Int))
    match x.onGrid s with
    | some d => ⟨d, s⟩
    | none => firstGrid x k n

/-- Moves the zeros at the end of the digits into the scale. -/
def Scaled.normal : Nat → Scaled → Scaled
  | 0, v => v
  | fuel + 1, v =>
    if v.digits % 10 = 0 ∧ v.digits ≠ 0 then Scaled.normal fuel ⟨v.digits / 10, v.scale + 1⟩ else v

/-- The shortest decimal that reads back as the finite magnitude of `x`. -/
def shortest (x : Binary64) : Scaled :=
  if x.isZero then ⟨0, 0⟩ else Scaled.normal 18 (firstGrid x x.decimalExponent 17)

end Binary64

/-- The digits with the point put in, `.0` standing after a whole number; no exponent is written. -/
def Scaled.positional (v : Scaled) : List Char :=
  let ds := Nat.toDigits 10 v.digits
  if 0 ≤ v.scale then ds ++ List.replicate v.scale.toNat '0' ++ ['.', '0']
  else
    let places := (-v.scale).toNat
    if places < ds.length then
      ds.take (ds.length - places) ++ '.' :: ds.drop (ds.length - places)
    else '0' :: '.' :: (List.replicate (places - ds.length) '0' ++ ds)

/-- The power of ten of the leading digit. -/
def Scaled.leading (v : Scaled) : Int := (Nat.toDigits 10 v.digits).length - 1 + v.scale

/-- One digit before the point, the others after it, and a signed exponent. -/
def Scaled.scientific (v : Scaled) : List Char :=
  let e := v.leading
  let exponent := (if e < 0 then '-' else '+') :: Nat.toDigits 10 e.natAbs
  match Nat.toDigits 10 v.digits with
  | [] => []
  | [d] => d :: 'e' :: exponent
  | d :: ds => d :: '.' :: (ds ++ 'e' :: exponent)

end ImageAssembly.Decimal
