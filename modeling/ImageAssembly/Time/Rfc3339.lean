import ImageAssembly.Text.Integer
import ImageAssembly.Time.Instant

/-! Timestamps as RFC 3339 writes them. Instants are written in UTC with a final `Z`; a text may
name any offset. Years outside 0 to 9999 are written with a sign and are not read. -/

namespace ImageAssembly.Time

open Text.Integer (padded digitValue?)

/-! ### Writing -/

/-- Four digits, or a sign and at least four. -/
def writeYear (year : Int) : List Char :=
  if 0 ≤ year ∧ year ≤ 9999 then padded 4 year.toNat
  else (if year < 0 then '-' else '+') :: padded 4 year.natAbs

/-- The date and time up to the whole second; a leap second is second 60. -/
def writeSecond (t : Instant) : List Char :=
  let d := t.date
  let s := t.secondOfDay
  let leap := if t.nanos < second then 0 else 1
  writeYear d.year ++ '-' :: padded 2 d.month ++ '-' :: padded 2 d.day ++ 'T' :: padded 2 (s / 3600)
    ++ ':' :: padded 2 (s / 60 % 60) ++ ':' :: padded 2 (s % 60 + leap)

/-- As many groups of three fraction digits as are needed. -/
def writeFraction (nanos : Nat) : List Char :=
  if nanos = 0 then []
  else if nanos % 1000000 = 0 then '.' :: padded 3 (nanos / 1000000)
  else if nanos % 1000 = 0 then '.' :: padded 6 (nanos / 1000)
  else '.' :: padded 9 nanos

/-- The timestamp of a build: whole seconds. -/
def Instant.toSecondText (t : Instant) : String := String.ofList (writeSecond t ++ ['Z'])

/-- The timestamp of a document: exact. -/
def Instant.toExactText (t : Instant) : String :=
  String.ofList (writeSecond t ++ writeFraction (t.nanos % second) ++ ['Z'])

/-! ### Reading -/

/-- A number of exactly `n` digits. -/
def readDigits : Nat → Nat → List Char → Option (Nat × List Char)
  | 0, acc, s => some (acc, s)
  | _ + 1, _, [] => none
  | n + 1, acc, c :: r => (digitValue? c).bind fun d => readDigits n (10 * acc + d) r

/-- One character of a given kind. -/
def readChar (accepts : Char → Bool) : List Char → Option (List Char)
  | [] => none
  | c :: r => if accepts c then some r else none

/-- Fraction digits, those beyond the ninth dropped. -/
def readFractionDigits : Nat → Nat → List Char → Nat × List Char
  | left, acc, [] => (acc * Nat.pow 10 left, [])
  | left, acc, c :: r => match digitValue? c, left with
    | none, _ => (acc * Nat.pow 10 left, c :: r)
    | some d, left + 1 => readFractionDigits left (10 * acc + d) r
    | some _, 0 => readFractionDigits 0 acc r

/-- A fraction, if a point stands here; at least one digit follows it. -/
def readFraction : List Char → Option (Nat × List Char)
  | '.' :: c :: r => if c.isDigit then some (readFractionDigits 9 0 (c :: r)) else none
  | '.' :: [] => none
  | s => some (0, s)

/-- Minutes east of UTC. -/
def readOffset : List Char → Option (Int × List Char)
  | [] => none
  | c :: r =>
    if c = 'Z' ∨ c = 'z' then some (0, r)
    else if c = '+' ∨ c = '-' ∨ c = '\u2212' then do
      let (h, r) ← readDigits 2 0 r
      let r ← readChar (· == ':') r
      let (m, r) ← readDigits 2 0 r
      if h ≤ 23 ∧ m ≤ 59 then
        some (if c = '+' then (60 * h + m : Nat) else -(60 * h + m : Nat), r)
      else none
    else none

/-- The instant of a local date, time and offset; the seconds' count may be 60. -/
def assemble (d : Date) (hour minute sec nanos : Nat) (offset : Int) : Option Instant :=
  if d.IsValid ∧ hour ≤ 23 ∧ minute ≤ 59 ∧ sec ≤ 60 then
    let s := min sec 59
    let total := d.dayNumber * 86400 + (3600 * hour + 60 * minute + s : Nat) - 60 * offset
    Instant.of? total (if sec = 60 then nanos + second else nanos)
  else none

/-- The instant that a whole text names. -/
def Instant.ofText? (text : String) : Option Instant := do
  let (year, r) ← readDigits 4 0 text.toList
  let r ← readChar (· == '-') r
  let (month, r) ← readDigits 2 0 r
  let r ← readChar (· == '-') r
  let (day, r) ← readDigits 2 0 r
  let r ← readChar (fun c => c == 'T' || c == 't' || c == ' ') r
  let (hour, r) ← readDigits 2 0 r
  let r ← readChar (· == ':') r
  let (minute, r) ← readDigits 2 0 r
  let r ← readChar (· == ':') r
  let (sec, r) ← readDigits 2 0 r
  let (nanos, r) ← readFraction r
  let (offset, r) ← readOffset r
  if r.isEmpty then assemble ⟨year, month, day⟩ hour minute sec nanos offset else none

end ImageAssembly.Time
