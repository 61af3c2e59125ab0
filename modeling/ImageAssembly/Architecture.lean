import ImageAssembly.Text.Blank
import ImageAssembly.Text.Cut

/-! The platform that an image is built for: an architecture and, where it has several, a variant. -/

namespace ImageAssembly

/-- An architecture and its variant, empty when there is none. -/
structure Architecture where
  name : String
  variant : String := ""
  deriving DecidableEq, Repr, Inhabited

namespace Architecture

/-- Why a text names no architecture. -/
inductive Cause
  | missingName
  | tooManySeparators
  deriving Repr, DecidableEq

/-- A refused text, without the blanks around it. -/
structure Fault where
  text : String
  cause : Cause
  deriving Repr, DecidableEq

def Cause.message : Cause → String
  | .missingName => "expected <arch>[/<variant>]"
  | .tooManySeparators => "too many '/' separators"

def Fault.message (f : Fault) : String :=
  "Invalid architecture '" ++ f.text ++ "': " ++ f.cause.message

/-- Reads `name` or `name/variant`, blanks around the whole text dropped. -/
def parse (s : String) : Except Fault Architecture :=
  let text := Text.trim s
  let (name, variant) := (Text.cutFirst '/' text.toList).getD (text.toList, [])
  if name.isEmpty then .error ⟨text, .missingName⟩
  else if '/' ∈ variant then .error ⟨text, .tooManySeparators⟩
  else .ok ⟨String.ofList name, String.ofList variant⟩

/-- The name, then the variant if there is one. -/
def toText (a : Architecture) : String :=
  if a.variant = "" then a.name else a.name ++ "/" ++ a.variant

end Architecture

end ImageAssembly
