import ImageAssembly.Dictionary
import ImageAssembly.Yaml.Kind

/-! Reading data out of YAML nodes. Parts are read in the order of the text, so the first fault found is
the first in the text; a part that is cut off is a fault as soon as it is reached. A fault carries the
path to where it was found. -/

namespace ImageAssembly.Yaml

/-- A step from a collection to a part of it. -/
inductive Step
  | key (name : String)
  /-- The entry of a key that is no plain text. -/
  | unknown
  | index (i : Nat)
  deriving DecidableEq, Repr

/-- The steps from the root, the last first. -/
abbrev Path := List Step

/-- Why a text is refused. -/
inductive Fault
  | malformed
  | invalidType (path : Path) (kind : Kind) (expected : String)
  | invalidValue (path : Path) (text expected : String)
  | duplicateField (path : Path) (name : String)

mutual

def pathText : Path → String
  | [] => "."
  | .key name :: p => pathStart p ++ name
  | .unknown :: p => pathStart p ++ "?"
  | .index i :: p => pathText p ++ "[" ++ i.repr ++ "]"

/-- What stands in front of a key. -/
def pathStart : Path → String
  | [] => ""
  | s :: p => pathText (s :: p) ++ "."

end

/-- The path in front of a text, if there is one. -/
def withPath (path : Path) (text : String) : String :=
  if path.isEmpty then text else pathText path ++ ": " ++ text

/-- Malformed text has a placeholder for its description. -/
def Fault.message : Fault → String
  | .malformed => "<yaml>"
  | .invalidType path kind expected =>
    withPath path ("invalid type: " ++ kind.describe ++ ", expected " ++ expected)
  | .invalidValue path text expected =>
    withPath path ("invalid value: string " ++ Text.quoted text ++ ", expected " ++ expected)
  | .duplicateField path name => withPath path ("duplicate field \x60" ++ name ++ "\x60")

/-- The outcome of reading a part. -/
abbrev Decoded (α : Type) := Except Fault α

/-- The nodes with anchors, by their numbers; of several with one number the last is meant. -/
abbrev Anchors := List (Nat × Node)

namespace Node

mutual

/-- Puts the nodes with anchors in front of those of `acc`, the last first. -/
def anchored (acc : Anchors) : Node → Anchors
  | .scalar p text plain => match p.anchor with
    | some n => (n, .scalar p text plain) :: acc
    | none => acc
  | .sequence p items closed => match p.anchor with
    | some n => anchoredItems ((n, .sequence p items closed) :: acc) items
    | none => anchoredItems acc items
  | .mapping p entries closed => match p.anchor with
    | some n => anchoredEntries ((n, .mapping p entries closed) :: acc) entries
    | none => anchoredEntries acc entries
  | .alias _ | .broken => acc

def anchoredItems (acc : Anchors) : List Node → Anchors
  | [] => acc
  | n :: r => anchoredItems (n.anchored acc) r

def anchoredEntries (acc : Anchors) : List (Node × Node) → Anchors
  | [] => acc
  | (k, v) :: r => anchoredEntries (v.anchored (k.anchored acc)) r

end

mutual

/-- Whether nothing in a node is cut off. -/
def isWhole : Node → Bool
  | .scalar _ _ _ | .alias _ => true
  | .sequence _ items closed => wholeItems items && closed
  | .mapping _ entries closed => wholeEntries entries && closed
  | .broken => false

def wholeItems : List Node → Bool
  | [] => true
  | n :: r => n.isWhole && wholeItems r

def wholeEntries : List (Node × Node) → Bool
  | [] => true
  | (k, v) :: r => k.isWhole && v.isWhole && wholeEntries r

end

/-- The node that an alias stands for; other nodes stand for themselves. -/
def follow (anchors : Anchors) : Node → Node
  | .alias n => (anchors.lookup n).getD .broken
  | n => n

/-- The fault of a node of the wrong kind. -/
def mismatch {α : Type} (path : Path) (expected : String) : Node → Decoded α
  | .scalar p text plain => match scalarKind p.tag plain text with
    | .ok kind => .error (.invalidType path kind expected)
    | .error wanted => .error (.invalidValue path text wanted)
  | .sequence _ _ _ => .error (.invalidType path .sequence expected)
  | .mapping _ _ _ => .error (.invalidType path .map expected)
  | .alias _ | .broken => .error .malformed

/-- The text of a scalar, whatever its form. -/
def scalarText (anchors : Anchors) (expected : String) (path : Path) (n : Node) : Decoded String :=
  match n.follow anchors with
  | .scalar _ text _ => .ok text
  | n => n.mismatch path expected

def text (anchors : Anchors) (path : Path) (n : Node) : Decoded String :=
  n.scalarText anchors "a string" path

/-- Whether a node is a scalar that is not written. -/
def isAbsent : Node → Bool
  | .scalar _ text plain => plain && text == ""
  | _ => false

def closedOr {α : Type} (closed : Bool) (a : α) : Decoded α :=
  if closed then .ok a else .error .malformed

/-- Reads the items from number `i` on. -/
def items {α : Type} (decode : Path → Node → Decoded α) (path : Path) : Nat → List Node → Decoded (List α)
  | _, [] => .ok []
  | i, n :: r => do
    let a ← decode (.index i :: path) n
    let as ← items decode path (i + 1) r
    pure (a :: as)

/-- A list; a scalar that is not written is an empty one. -/
def list {α : Type} (anchors : Anchors) (decode : Path → Node → Decoded α) (path : Path) (n : Node) :
    Decoded (List α) :=
  match n.follow anchors with
  | .sequence _ ns closed => (items decode path 0 ns).bind (closedOr closed)
  | n => if n.isAbsent then .ok [] else n.mismatch path "a sequence"

/-- The step to the entry of a key. -/
def keyStep : Node → Step
  | .scalar _ text _ => .key text
  | _ => .unknown

/-- Reads each entry in turn into what has been gathered. -/
def entries {σ : Type} (anchors : Anchors) (expectedKey : String) (path : Path)
    (step : σ → String → Path → Node → Decoded σ) : σ → List (Node × Node) → Decoded σ
  | s, [] => .ok s
  | s, (k, v) :: r => do
    let name ← k.scalarText anchors expectedKey path
    let s ← step s name (keyStep k :: path) v
    entries anchors expectedKey path step s r

/-- A map to texts; of several entries with one key the last stays. -/
def dictionaryOfText (anchors : Anchors) (path : Path) (n : Node) : Decoded (Dictionary String) :=
  match n.follow anchors with
  | .mapping _ es closed =>
    (entries anchors "a string" path
      (fun (d : Dictionary String) k p v => (v.text anchors p).map (d.insert k)) .empty es).bind
      (closedOr closed)
  | n => if n.isAbsent then .ok .empty else n.mismatch path "a map"

/-- A record, its fields read in turn; a scalar that is not written is one without fields. -/
def record {σ : Type} (anchors : Anchors) (expected : String)
    (step : σ → String → Path → Node → Decoded σ) (start : σ) (path : Path) (n : Node) : Decoded σ :=
  match n.follow anchors with
  | .mapping _ es closed =>
    (entries anchors "field identifier" path step start es).bind (closedOr closed)
  | n => if n.isAbsent then .ok start else n.mismatch path expected

/-- A value that is passed over must be whole. -/
def skip {α : Type} (a : α) (n : Node) : Decoded α := closedOr n.isWhole a

/-- A field that may stand only once; its record is at `path.tail`. -/
def once {α : Type} (name : String) (slot : Option α) (decode : Path → Node → Decoded α) (path : Path)
    (n : Node) : Decoded (Option α) :=
  if slot.isSome then .error (.duplicateField path.tail name) else (decode path n).map some

/-- A value, or none where a plain scalar says so. A scalar that a tag calls null must be null. -/
def optional {α : Type} (anchors : Anchors) (decode : Path → Node → Decoded α) (path : Path) (n : Node) :
    Decoded (Option α) :=
  let n := n.follow anchors
  let some? := (decode path n).map some
  match n with
  | .scalar p text plain =>
    if !plain then some?
    else match p.tag with
      | some tag =>
        if tag = coreTag "null" then
          if isNull text then .ok none else .error (.invalidValue path.tail text "null")
        else some?
      | none => if text = "" ∨ isNull text then .ok none else some?
  | .broken => .error .malformed
  | _ => some?

end Node

/-- Reads the first document of a text, which must be the only one; without one, `absent` stands. -/
def decodeText {α : Type} (decode : Anchors → Path → Node → Decoded α) (absent : α) (text : String) :
    Decoded α :=
  let d := Document.ofText text
  match d.root with
  | none => .ok absent
  | some root => (decode (root.anchored []) [] root).bind (Node.closedOr d.whole)

end ImageAssembly.Yaml
