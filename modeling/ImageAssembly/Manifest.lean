import ImageAssembly.Json.Encode
import ImageAssembly.MediaType

/-! The manifest of an image: descriptors of its configuration and of its layers, and annotations. -/

namespace ImageAssembly

open Json

/-- What a blob is: its kind, its digest and its size. -/
structure Descriptor where
  mediaType : MediaType
  digest : Digest
  size : Nat
  annotations : Dictionary String := .empty
  deriving DecidableEq

namespace Descriptor

def encode (d : Descriptor) : Value :=
  .object (member "mediaType" d.mediaType.encode
    ++ member "digest" (.string d.digest.toText)
    ++ member "size" (naturalValue d.size)
    ++ dictionaryMember "annotations" .string d.annotations)

/-- The fields read so far. -/
structure Fields where
  mediaType : Option MediaType := none
  digest : Option Digest := none
  size : Option Nat := none
  annotations : Option (Dictionary String) := none

def Fields.read (s : Fields) (key : String) (t : Tree) : Decoded Fields :=
  if key = "mediaType" then do return { s with mediaType := ← once key s.mediaType MediaType.decode t }
  else if key = "digest" then do return { s with digest := ← once key s.digest Tree.digest t }
  else if key = "size" then do return { s with size := ← once key s.size Tree.natural64 t }
  else if key = "annotations" then do
    return { s with annotations := ← once key s.annotations Tree.dictionaryOfText t }
  else t.skip s

def Fields.complete (s : Fields) : Decoded Descriptor := do
  let mediaType ← required "mediaType" s.mediaType
  let digest ← required "digest" s.digest
  let size ← required "size" s.size
  return ⟨mediaType, digest, size, s.annotations.getD .empty⟩

def ofItems (ts : List Tree) (closed : Bool) : Decoded Descriptor := do
  let short := fun {α : Type} (n : Nat) =>
    (Except.error (.invalidLength n "struct Descriptor with 4 elements") : Decoded α)
  let (mediaType, ts) ← nextItem MediaType.decode (short 0) closed ts
  let (digest, ts) ← nextItem Tree.digest (short 1) closed ts
  let (size, ts) ← nextItem Tree.natural64 (short 2) closed ts
  let (annotations, ts) ← nextItem Tree.dictionaryOfText (.ok .empty) closed ts
  noMoreItems closed ⟨mediaType, digest, size, annotations⟩ ts

/-- A record, or an array of its fields. -/
def decode : Tree → Decoded Descriptor
  | .object ms closed =>
    (Tree.members Fields.read {} ms).bind fun s => (Tree.closedOr closed s).bind Fields.complete
  | .array ts closed => ofItems ts closed
  | t => t.mismatch "struct Descriptor"

end Descriptor

/-- What an image consists of. -/
structure Manifest where
  schemaVersion : Nat
  mediaType : Option MediaType
  config : Descriptor
  layers : List Descriptor
  annotations : Dictionary String
  deriving DecidableEq

namespace Manifest

def encode (m : Manifest) : Value :=
  .object (member "schemaVersion" (naturalValue m.schemaVersion)
    ++ optionalMember "mediaType" MediaType.encode m.mediaType
    ++ member "config" m.config.encode
    ++ member "layers" (listValue Descriptor.encode m.layers)
    ++ dictionaryMember "annotations" .string m.annotations)

/-- The fields read so far. -/
structure Fields where
  schemaVersion : Option Nat := none
  mediaType : Option (Option MediaType) := none
  config : Option Descriptor := none
  layers : Option (List Descriptor) := none
  annotations : Option (Dictionary String) := none

def Fields.read (s : Fields) (key : String) (t : Tree) : Decoded Fields :=
  if key = "schemaVersion" then do
    return { s with schemaVersion := ← once key s.schemaVersion Tree.natural32 t }
  else if key = "mediaType" then do
    return { s with mediaType := ← once key s.mediaType (Tree.optional MediaType.decode) t }
  else if key = "config" then do return { s with config := ← once key s.config Descriptor.decode t }
  else if key = "layers" then do
    return { s with layers := ← once key s.layers (Tree.list Descriptor.decode) t }
  else if key = "annotations" then do
    return { s with annotations := ← once key s.annotations Tree.dictionaryOfText t }
  else t.skip s

def Fields.complete (s : Fields) : Decoded Manifest := do
  let schemaVersion ← required "schemaVersion" s.schemaVersion
  let config ← required "config" s.config
  return ⟨schemaVersion, s.mediaType.getD none, config, s.layers.getD [], s.annotations.getD .empty⟩

def ofItems (ts : List Tree) (closed : Bool) : Decoded Manifest := do
  let short := fun {α : Type} (n : Nat) =>
    (Except.error (.invalidLength n "struct Manifest with 5 elements") : Decoded α)
  let (schemaVersion, ts) ← nextItem Tree.natural32 (short 0) closed ts
  let (mediaType, ts) ← nextItem (Tree.optional MediaType.decode) (.ok none) closed ts
  let (config, ts) ← nextItem Descriptor.decode (short 2) closed ts
  let (layers, ts) ← nextItem (Tree.list Descriptor.decode) (.ok []) closed ts
  let (annotations, ts) ← nextItem Tree.dictionaryOfText (.ok .empty) closed ts
  noMoreItems closed ⟨schemaVersion, mediaType, config, layers, annotations⟩ ts

/-- A record, or an array of its fields. -/
def decode : Tree → Decoded Manifest
  | .object ms closed =>
    (Tree.members Fields.read {} ms).bind fun s => (Tree.closedOr closed s).bind Fields.complete
  | .array ts closed => ofItems ts closed
  | t => t.mismatch "struct Manifest"

def toBytes (m : Manifest) : ByteArray := m.encode.toBytes

def ofBytes (text : ByteArray) : Decoded Manifest := decodeBytes decode text

end Manifest

end ImageAssembly
