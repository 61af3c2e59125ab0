import ImageAssembly.Json.Decode
import ImageAssembly.Json.Encode
import ImageAssembly.Time.Rfc3339

/-! The history of an image: one record per step that made it, most steps having added a layer. Keys
that the record does not name are kept. -/

namespace ImageAssembly

open Json Time

/-- A timestamp of a document; an empty text and null stand for none. -/
def decodeTimestamp (t : Tree) : Decoded (Option Instant) := do
  match ← t.optional Tree.text with
  | none => pure none
  | some s =>
    if s = "" then pure none
    else match Instant.ofText? s with
      | some i => pure (some i)
      | none => throw .malformed

def encodeTimestamp (i : Instant) : Value := .string i.toExactText

/-- One step in the making of an image. -/
structure History where
  created : Option Instant := none
  createdBy : String := ""
  author : String := ""
  comment : String := ""
  emptyLayer : Bool := false
  /-- Keys that the record does not name. -/
  extra : Dictionary Value := .empty
  deriving Inhabited

namespace History

def encode (h : History) : Value :=
  .object (optionalMember "created" encodeTimestamp h.created
    ++ textMember "created_by" h.createdBy
    ++ textMember "author" h.author
    ++ textMember "comment" h.comment
    ++ memberUnless (!h.emptyLayer) "empty_layer" (.bool true)
    ++ h.extra.entries)

/-- The fields read so far. -/
structure Fields where
  created : Option (Option Instant) := none
  createdBy : Option String := none
  author : Option String := none
  comment : Option String := none
  emptyLayer : Option Bool := none
  extra : Dictionary Value := .empty

def Fields.read (depth : Nat) (s : Fields) (key : String) (t : Tree) : Decoded Fields :=
  if key = "created" then do return { s with created := ← once key s.created decodeTimestamp t }
  else if key = "created_by" then do return { s with createdBy := ← once key s.createdBy Tree.text t }
  else if key = "author" then do return { s with author := ← once key s.author Tree.text t }
  else if key = "comment" then do return { s with comment := ← once key s.comment Tree.text t }
  else if key = "empty_layer" then do
    return { s with emptyLayer := ← once key s.emptyLayer Tree.boolean t }
  else do return { s with extra := s.extra.insert key (← t.keep depth) }

def Fields.complete (s : Fields) : History :=
  ⟨s.created.getD none, s.createdBy.getD "", s.author.getD "", s.comment.getD "",
    s.emptyLayer.getD false, s.extra⟩

/-- A record inside `depth` open containers. -/
def decode (depth : Nat) : Tree → Decoded History
  | .object ms closed =>
    (Tree.members (Fields.read (depth + 1)) {} ms).bind fun s => Tree.closedOr closed s.complete
  | t => t.mismatch "struct History"

end History

end ImageAssembly
