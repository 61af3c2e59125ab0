import ImageAssembly.Text.Blank
import ImageAssembly.Text.Integer
import ImageAssembly.Time.Instant

/-! The build timestamp, given as whole seconds since 1970 in an environment variable. Without a
value it is the beginning of 1970: the clock is never read. -/

namespace ImageAssembly.Time.SourceDate

/-- The variable that carries the timestamp. -/
def variableName : String := "SOURCE_DATE_EPOCH"

/-- Why a value is no timestamp. -/
inductive Cause
  | notInteger (fault : Text.Integer.Fault)
  | outOfRange
  deriving Repr, DecidableEq

/-- A refused value, without the blanks around it. -/
structure Fault where
  value : String
  cause : Cause
  deriving Repr, DecidableEq

def Cause.message : Cause → String
  | .notInteger fault => fault.message
  | .outOfRange => "timestamp out of range"

def Fault.message (f : Fault) : String :=
  "Invalid " ++ variableName ++ " '" ++ f.value ++ "': " ++ f.cause.message

/-- The timestamp of a variable's value; an unset or blank one is the epoch. -/
def read (value : Option String) : Except Fault Instant :=
  let text := Text.trim (value.getD "")
  if text = "" then .ok .epoch
  else match Text.Integer.signed 64 text.toList with
    | .error fault => .error ⟨text, .notInteger fault⟩
    | .ok seconds => match Instant.ofSeconds? seconds with
      | none => .error ⟨text, .outOfRange⟩
      | some t => .ok t

end ImageAssembly.Time.SourceDate
