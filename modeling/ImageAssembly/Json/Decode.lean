import ImageAssembly.Dictionary
import ImageAssembly.Digest
import ImageAssembly.Json.Number
import ImageAssembly.Json.Tree
import ImageAssembly.Text.Quoted

/-! Reading data out of a JSON tree. Parts are read in the order of the text, so the first fault found
is the first in the text; a part that is cut off is a fault as soon as it is reached. -/

namespace ImageAssembly.Json

open Text.Integer (bound)

/-- What stands where something else was expected. -/
inductive Found
  | null
  | boolean (b : Bool)
  | number (n : Number)
  | string (s : String)
  | sequence
  | map

/-- Why a text is refused. -/
inductive Fault
  | malformed
  | invalidType (found : Found) (expected : String)
  | invalidValue (n : Number) (expected : String)
  | invalidLength (length : Nat) (expected : String)
  | missingField (name : String)
  | duplicateField (name : String)
  | invalidDigest (fault : Digest.Fault)

def describeNumber : Number → String
  | .integer n => "integer \x60" ++ String.ofList (renderInteger n) ++ "\x60"
  | .double x => "floating point \x60" ++ String.ofList (renderDouble x) ++ "\x60"

def Found.describe : Found → String
  | .null => "null"
  | .boolean b => "boolean \x60" ++ (if b then "true" else "false") ++ "\x60"
  | .number n => describeNumber n
  | .string s => "string " ++ Text.quoted s
  | .sequence => "sequence"
  | .map => "map"

/-- Malformed text has a placeholder for its description. -/
def Fault.message : Fault → String
  | .malformed => "<json>"
  | .invalidType found expected => "invalid type: " ++ found.describe ++ ", expected " ++ expected
  | .invalidValue n expected => "invalid value: " ++ describeNumber n ++ ", expected " ++ expected
  | .invalidLength n expected => "invalid length " ++ n.repr ++ ", expected " ++ expected
  | .missingField name => "missing field \x60" ++ name ++ "\x60"
  | .duplicateField name => "duplicate field \x60" ++ name ++ "\x60"
  | .invalidDigest fault => ErrorKind.ociImage.describe fault.message

/-- The outcome of reading a part. -/
abbrev Decoded (α : Type) := Except Fault α

namespace Tree

/-- The fault of a value of the wrong kind. Of a container only its beginning is looked at. -/
def mismatch {α : Type} (expected : String) : Tree → Decoded α
  | .null => .error (.invalidType .null expected)
  | .bool b => .error (.invalidType (.boolean b) expected)
  | .number n => match n.value? with
    | some v => .error (.invalidType (.number v) expected)
    | none => .error .malformed
  | .string (some s) => .error (.invalidType (.string s) expected)
  | .string none => .error .malformed
  | .array _ _ => .error (.invalidType .sequence expected)
  | .object _ _ => .error (.invalidType .map expected)
  | .broken => .error .malformed

def text : Tree → Decoded String
  | .string (some s) => .ok s
  | t => t.mismatch "a string"

def boolean : Tree → Decoded Bool
  | .bool b => .ok b
  | t => t.mismatch "a boolean"

/-- An integer from `low` to `high`. -/
def integer (low high : Int) (expected : String) : Tree → Decoded Int
  | .number n => match n.value? with
    | some (.integer v) =>
      if low ≤ v ∧ v ≤ high then .ok v else .error (.invalidValue (.integer v) expected)
    | _ => (Tree.number n).mismatch expected
  | t => t.mismatch expected

/-- A natural number of 32 bits. -/
def natural32 (t : Tree) : Decoded Nat := (t.integer 0 (bound 32 - 1) "u32").map Int.toNat

/-- A natural number of 64 bits. -/
def natural64 (t : Tree) : Decoded Nat := (t.integer 0 (bound 64 - 1) "u64").map Int.toNat

/-- An integer of 64 bits. -/
def integer64 (t : Tree) : Decoded Int := t.integer (-bound 63) (bound 63 - 1) "i64"

/-- A value, or null. -/
def optional {α : Type} (decode : Tree → Decoded α) : Tree → Decoded (Option α)
  | .null => .ok none
  | t => (decode t).map some

def closedOr {α : Type} (closed : Bool) (a : α) : Decoded α :=
  if closed then .ok a else .error .malformed

/-- Reads each item. -/
def items {α : Type} (decode : Tree → Decoded α) : List Tree → Decoded (List α)
  | [] => .ok []
  | t :: r => do
    let a ← decode t
    let as ← items decode r
    pure (a :: as)

/-- A list. -/
def list {α : Type} (decode : Tree → Decoded α) : Tree → Decoded (List α)
  | .array ts closed => (items decode ts).bind (closedOr closed)
  | t => t.mismatch "a sequence"

/-- Reads each member in turn into what has been gathered. -/
def members {σ : Type} (step : σ → String → Tree → Decoded σ) :
    σ → List (Option String × Tree) → Decoded σ
  | s, [] => .ok s
  | _, (none, _) :: _ => .error .malformed
  | s, (some key, t) :: r => (step s key t).bind fun s => members step s r

/-- A map from texts; of several members with one key the last stays. -/
def dictionary {α : Type} (decode : Tree → Decoded α) : Tree → Decoded (Dictionary α)
  | .object ms closed =>
    (members (fun (d : Dictionary α) k t => (decode t).map (d.insert k)) .empty ms).bind (closedOr closed)
  | t => t.mismatch "a map"

def dictionaryOfText : Tree → Decoded (Dictionary String) := dictionary text

/-- A content digest. -/
def digest (t : Tree) : Decoded Digest := do
  let s ← t.text
  match Digest.parse s with
  | .ok d => pure d
  | .error fault => throw (.invalidDigest fault)

/-- A value that is passed over must be whole. -/
def skip {α : Type} (a : α) (t : Tree) : Decoded α := closedOr t.isWhole a

end Tree

/-! ### Values that are kept as they are -/

/-- The number of containers that may stand inside one another. -/
def maxDepth : Nat := 127

mutual

/-- A value of which everything is kept, inside `depth` open containers. -/
def Tree.keep (depth : Nat) : Tree → Decoded Value
  | .null => .ok .null
  | .bool b => .ok (.bool b)
  | .number n => match n.value? with
    | some v => .ok (.number v)
    | none => .error .malformed
  | .string (some s) => .ok (.string s)
  | .string none => .error .malformed
  | .array ts closed =>
    if maxDepth ≤ depth then .error .malformed
    else match keepItems (depth + 1) ts with
      | .ok vs => if closed then .ok (.array vs) else .error .malformed
      | .error fault => .error fault
  | .object ms closed =>
    if maxDepth ≤ depth then .error .malformed
    else match keepMembers (depth + 1) .empty ms with
      | .ok d => if closed then .ok (.object d.entries) else .error .malformed
      | .error fault => .error fault
  | .broken => .error .malformed

def keepItems (depth : Nat) : List Tree → Decoded (List Value)
  | [] => .ok []
  | t :: r => match t.keep depth, keepItems depth r with
    | .ok v, .ok vs => .ok (v :: vs)
    | .error fault, _ => .error fault
    | _, .error fault => .error fault

def keepMembers (depth : Nat) (d : Dictionary Value) : List (Option String × Tree) → Decoded (Dictionary Value)
  | [] => .ok d
  | (none, _) :: _ => .error .malformed
  | (some k, t) :: r => match t.keep depth with
    | .ok v => keepMembers depth (d.insert k v) r
    | .error fault => .error fault

end

/-! ### Records -/

/-- A field that may stand only once; `slot` holds it when it has been read. -/
def once {α : Type} (name : String) (slot : Option α) (decode : Tree → Decoded α) (t : Tree) :
    Decoded (Option α) :=
  if slot.isSome then .error (.duplicateField name) else (decode t).map some

/-- A field that must stand. -/
def required {α : Type} (name : String) : Option α → Decoded α
  | some a => .ok a
  | none => .error (.missingField name)

/-- The next field of a record given as an array, and the items after it. -/
def nextItem {α : Type} (decode : Tree → Decoded α) (absent : Decoded α) (closed : Bool) :
    List Tree → Decoded (α × List Tree)
  | [] => if closed then absent.map (·, []) else .error .malformed
  | t :: r => (decode t).map (·, r)

/-- Nothing may stand behind the last field. -/
def noMoreItems {α : Type} (closed : Bool) (a : α) (rest : List Tree) : Decoded α :=
  if rest.isEmpty ∧ closed then .ok a else .error .malformed

/-- A whole text: the value, and nothing but blanks behind it. -/
def Document.decode {α : Type} (decode : Tree → Decoded α) (d : Document) : Decoded α :=
  (decode d.root).bind (Tree.closedOr d.complete)

/-- Reads a text. -/
def decodeBytes {α : Type} (decode : Tree → Decoded α) (text : ByteArray) : Decoded α :=
  (Document.ofBytes text).decode decode

end ImageAssembly.Json
