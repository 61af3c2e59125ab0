import ImageAssembly.Decimal.Binary64

/-! Byte counts for people: in the greatest unit that is not above the count, with one decimal place
from kilobytes on. The count passes through a double before it is divided. -/

namespace ImageAssembly.CommandLine

open Decimal

/-- One decimal place of `count / unit`, a half going to the even digit. -/
def inUnits (count unit : Nat) : String :=
  let (num, den) := (Binary64.ofNat count).ratio
  let tenths := roundHalfEven (10 * num) (den * unit)
  (tenths / 10).repr ++ "." ++ (tenths % 10).repr

def formatBytes (count : Nat) : String :=
  if Nat.pow 2 30 ≤ count then inUnits count (Nat.pow 2 30) ++ " GB"
  else if Nat.pow 2 20 ≤ count then inUnits count (Nat.pow 2 20) ++ " MB"
  else if Nat.pow 2 10 ≤ count then inUnits count (Nat.pow 2 10) ++ " KB"
  else count.repr ++ " B"

end ImageAssembly.CommandLine
