import ImageAssembly.Json.Decode
import ImageAssembly.Json.Encode

/-! The root file system of an image: the digests of its uncompressed layers, base first. -/

namespace ImageAssembly

open Json

/-- How the root file system is put together. -/
structure RootFs where
  type : String := "layers"
  diffIds : List Digest := []
  deriving DecidableEq

namespace RootFs

/-- The type of a root file system that is stacked from layers. -/
def layersType : String := "layers"

def encode (r : RootFs) : Value :=
  .object (member "type" (.string r.type)
    ++ member "diff_ids" (listValue (fun d => .string d.toText) r.diffIds))

/-- The fields read so far. -/
structure Fields where
  type : Option String := none
  diffIds : Option (List Digest) := none

def Fields.read (s : Fields) (key : String) (t : Tree) : Decoded Fields :=
  if key = "type" then do return { s with type := ← once key s.type Tree.text t }
  else if key = "diff_ids" then do
    return { s with diffIds := ← once key s.diffIds (Tree.list Tree.digest) t }
  else t.skip s

def Fields.complete (s : Fields) : Decoded RootFs := do
  let type ← required "type" s.type
  return ⟨type, s.diffIds.getD []⟩

def ofItems (ts : List Tree) (closed : Bool) : Decoded RootFs := do
  let (type, ts) ← nextItem Tree.text
    (.error (.invalidLength 0 "struct RootFs with 2 elements")) closed ts
  let (diffIds, ts) ← nextItem (Tree.list Tree.digest) (.ok []) closed ts
  noMoreItems closed ⟨type, diffIds⟩ ts

/-- A record, or an array of its fields. -/
def decode : Tree → Decoded RootFs
  | .object ms closed =>
    (Tree.members Fields.read {} ms).bind fun s => (Tree.closedOr closed s).bind Fields.complete
  | .array ts closed => ofItems ts closed
  | t => t.mismatch "struct RootFs"

end RootFs

end ImageAssembly
