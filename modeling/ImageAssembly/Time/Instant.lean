import ImageAssembly.Time.Calendar

/-! Points of time in UTC: seconds from 1 January 1970 and nanoseconds within the second. A leap
second is the second after a minute's last, held as that last second with a thousand million
nanoseconds or more. Nothing keeps a point from having so many behind any other second. -/

namespace ImageAssembly.Time

/-- Nanoseconds of a second. -/
def second : Nat := 1000000000

/-- A point of time. -/
structure Instant where
  seconds : Int
  nanos : Nat
  nanos_ok : nanos < 2 * second
  deriving DecidableEq

namespace Instant

/-- A whole second. -/
def ofSeconds (seconds : Int) : Instant := ⟨seconds, 0, by decide⟩

/-- 1 January 1970. -/
def epoch : Instant := ofSeconds 0

instance : Inhabited Instant := ⟨epoch⟩

/-- The point of a second and nanoseconds, of which a leap second's stand behind a minute's last second alone. -/
def of? (seconds : Int) (nanos : Nat) : Option Instant :=
  if h : nanos < 2 * second ∧ (nanos < second ∨ seconds % 60 = 59) then some ⟨seconds, nanos, h.1⟩ else none

/-- The first second that a timestamp can name. -/
def firstSecond : Int := Date.dayNumber ⟨-262143, 1, 1⟩ * 86400

/-- The last second that a timestamp can name. -/
def lastSecond : Int := Date.dayNumber ⟨262142, 12, 31⟩ * 86400 + 86399

/-- A whole second of the supported years. -/
def ofSeconds? (seconds : Int) : Option Instant :=
  if firstSecond ≤ seconds ∧ seconds ≤ lastSecond then some (ofSeconds seconds) else none

/-- The instant without its part of a second. -/
def truncate (t : Instant) : Instant := ⟨t.seconds, if t.nanos < second then 0 else second, by split <;> decide⟩

def date (t : Instant) : Date := Date.ofDayNumber (t.seconds / 86400)

/-- Seconds since midnight. -/
def secondOfDay (t : Instant) : Nat := (t.seconds % 86400).toNat

end Instant

end ImageAssembly.Time
