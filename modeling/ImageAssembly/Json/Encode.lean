import ImageAssembly.Dictionary
import ImageAssembly.Json.Value

/-! Members of records: each encoder gives the members that a field is written as, none if the field
is left out. -/

namespace ImageAssembly.Json

/-- The members of an object. -/
abbrev Members := List (String × Value)

def member (name : String) (v : Value) : Members := [(name, v)]

def memberUnless (omitted : Bool) (name : String) (v : Value) : Members :=
  if omitted then [] else [(name, v)]

/-- A text, left out when empty. -/
def textMember (name s : String) : Members := memberUnless (s == "") name (.string s)

def optionalMember {α : Type} (name : String) (encode : α → Value) : Option α → Members
  | some a => [(name, encode a)]
  | none => []

def listValue {α : Type} (encode : α → Value) (as : List α) : Value := .array (as.map encode)

/-- A list, left out when empty. -/
def listMember {α : Type} (name : String) (encode : α → Value) (as : List α) : Members :=
  memberUnless as.isEmpty name (listValue encode as)

def dictionaryValue {α : Type} (encode : α → Value) (d : Dictionary α) : Value :=
  .object (d.entries.map fun (k, a) => (k, encode a))

/-- A map, left out when empty. -/
def dictionaryMember {α : Type} (name : String) (encode : α → Value) (d : Dictionary α) : Members :=
  memberUnless d.isEmpty name (dictionaryValue encode d)

def naturalValue (n : Nat) : Value := .number (.integer n)

end ImageAssembly.Json
