import ImageAssembly.MediaType

/-! The index of an image layout. All of it must be well formed, but only the digests of the manifests
that it lists are of use here. -/

namespace ImageAssembly

open Json

namespace Index

/-- The platform that a manifest is meant for. -/
structure PlatformFields where
  architecture : Option Unit := none
  os : Option Unit := none
  osVersion : Option Unit := none
  osFeatures : Option Unit := none
  variant : Option Unit := none
  features : Option Unit := none

/-- A part that must be well formed. -/
def check {α : Type} (decode : Tree → Decoded α) (t : Tree) : Decoded Unit := (decode t).map fun _ => ()

def checkText : Tree → Decoded Unit := check Tree.text

def checkOptionalText : Tree → Decoded Unit := check (Tree.optional Tree.text)

def checkOptionalTexts : Tree → Decoded Unit := check (Tree.optional (Tree.list Tree.text))

def checkOptionalDictionary : Tree → Decoded Unit := check (Tree.optional Tree.dictionaryOfText)

def PlatformFields.read (s : PlatformFields) (key : String) (t : Tree) : Decoded PlatformFields :=
  if key = "architecture" then do
    return { s with architecture := ← once key s.architecture checkText t }
  else if key = "os" then do return { s with os := ← once key s.os checkText t }
  else if key = "os_version" then do
    return { s with osVersion := ← once key s.osVersion checkOptionalText t }
  else if key = "os_features" then do
    return { s with osFeatures := ← once key s.osFeatures checkOptionalTexts t }
  else if key = "variant" then do return { s with variant := ← once key s.variant checkOptionalText t }
  else if key = "features" then do
    return { s with features := ← once key s.features checkOptionalTexts t }
  else t.skip s

def PlatformFields.complete (s : PlatformFields) : Decoded Unit := do
  required "architecture" s.architecture
  required "os" s.os

def platformOfItems (ts : List Tree) (closed : Bool) : Decoded Unit := do
  let short := fun (n : Nat) =>
    (Except.error (.invalidLength n "struct Platform with 6 elements") : Decoded Unit)
  let (_, ts) ← nextItem checkText (short 0) closed ts
  let (_, ts) ← nextItem checkText (short 1) closed ts
  let (_, ts) ← nextItem checkOptionalText (short 2) closed ts
  let (_, ts) ← nextItem checkOptionalTexts (short 3) closed ts
  let (_, ts) ← nextItem checkOptionalText (short 4) closed ts
  let (_, ts) ← nextItem checkOptionalTexts (short 5) closed ts
  noMoreItems closed () ts

def checkPlatform : Tree → Decoded Unit
  | .object ms closed => (Tree.members PlatformFields.read {} ms).bind fun s =>
    (Tree.closedOr closed s).bind PlatformFields.complete
  | .array ts closed => platformOfItems ts closed
  | t => t.mismatch "struct Platform"

/-- The fields of a descriptor read so far; of all but the digest it only matters that they are there. -/
structure DescriptorFields where
  mediaType : Option Unit := none
  digest : Option String := none
  size : Option Unit := none
  urls : Option Unit := none
  annotations : Option Unit := none
  platform : Option Unit := none
  artifactType : Option Unit := none
  data : Option Unit := none

def checkOptionalPlatform : Tree → Decoded Unit := check (Tree.optional checkPlatform)

def DescriptorFields.read (s : DescriptorFields) (key : String) (t : Tree) : Decoded DescriptorFields :=
  if key = "mediaType" then do return { s with mediaType := ← once key s.mediaType checkText t }
  else if key = "digest" then do return { s with digest := ← once key s.digest Tree.text t }
  else if key = "size" then do return { s with size := ← once key s.size (check Tree.integer64) t }
  else if key = "urls" then do return { s with urls := ← once key s.urls checkOptionalTexts t }
  else if key = "annotations" then do
    return { s with annotations := ← once key s.annotations checkOptionalDictionary t }
  else if key = "platform" then do
    return { s with platform := ← once key s.platform checkOptionalPlatform t }
  else if key = "artifactType" then do
    return { s with artifactType := ← once key s.artifactType checkOptionalText t }
  else if key = "data" then do return { s with data := ← once key s.data checkOptionalText t }
  else t.skip s

def DescriptorFields.complete (s : DescriptorFields) : Decoded String := do
  required "mediaType" s.mediaType
  let digest ← required "digest" s.digest
  required "size" s.size
  return digest

def descriptorOfItems (ts : List Tree) (closed : Bool) : Decoded String := do
  let short := fun {α : Type} (n : Nat) =>
    (Except.error (.invalidLength n "struct Descriptor with 8 elements") : Decoded α)
  let (_, ts) ← nextItem checkText (short 0) closed ts
  let (digest, ts) ← nextItem Tree.text (short 1) closed ts
  let (_, ts) ← nextItem (check Tree.integer64) (short 2) closed ts
  let (_, ts) ← nextItem checkOptionalTexts (short 3) closed ts
  let (_, ts) ← nextItem checkOptionalDictionary (short 4) closed ts
  let (_, ts) ← nextItem checkOptionalPlatform (short 5) closed ts
  let (_, ts) ← nextItem checkOptionalText (short 6) closed ts
  let (_, ts) ← nextItem checkOptionalText (short 7) closed ts
  noMoreItems closed digest ts

/-- The digest that a descriptor names, as it is written. -/
def decodeDescriptor : Tree → Decoded String
  | .object ms closed => (Tree.members DescriptorFields.read {} ms).bind fun s =>
    (Tree.closedOr closed s).bind DescriptorFields.complete
  | .array ts closed => descriptorOfItems ts closed
  | t => t.mismatch "struct Descriptor"

/-- The fields of an index read so far. -/
structure Fields where
  schemaVersion : Option Unit := none
  mediaType : Option Unit := none
  artifactType : Option Unit := none
  manifests : Option (List String) := none
  subject : Option Unit := none
  annotations : Option Unit := none

def checkOptionalDescriptor : Tree → Decoded Unit := check (Tree.optional decodeDescriptor)

def Fields.read (s : Fields) (key : String) (t : Tree) : Decoded Fields :=
  if key = "schemaVersion" then do
    return { s with schemaVersion := ← once key s.schemaVersion (check Tree.natural32) t }
  else if key = "mediaType" then do
    return { s with mediaType := ← once key s.mediaType checkOptionalText t }
  else if key = "artifactType" then do
    return { s with artifactType := ← once key s.artifactType checkOptionalText t }
  else if key = "manifests" then do
    return { s with manifests := ← once key s.manifests (Tree.list decodeDescriptor) t }
  else if key = "subject" then do
    return { s with subject := ← once key s.subject checkOptionalDescriptor t }
  else if key = "annotations" then do
    return { s with annotations := ← once key s.annotations checkOptionalDictionary t }
  else t.skip s

def Fields.complete (s : Fields) : Decoded (List String) := do
  required "schemaVersion" s.schemaVersion
  required "manifests" s.manifests

def ofItems (ts : List Tree) (closed : Bool) : Decoded (List String) := do
  let short := fun {α : Type} (n : Nat) =>
    (Except.error (.invalidLength n "struct ImageIndex with 6 elements") : Decoded α)
  let (_, ts) ← nextItem (check Tree.natural32) (short 0) closed ts
  let (_, ts) ← nextItem checkOptionalText (short 1) closed ts
  let (_, ts) ← nextItem checkOptionalText (short 2) closed ts
  let (manifests, ts) ← nextItem (Tree.list decodeDescriptor) (short 3) closed ts
  let (_, ts) ← nextItem checkOptionalDescriptor (short 4) closed ts
  let (_, ts) ← nextItem checkOptionalDictionary (short 5) closed ts
  noMoreItems closed manifests ts

/-- The digests of the manifests that an index lists, as they are written. -/
def decode : Tree → Decoded (List String)
  | .object ms closed => (Tree.members Fields.read {} ms).bind fun s =>
    (Tree.closedOr closed s).bind Fields.complete
  | .array ts closed => ofItems ts closed
  | t => t.mismatch "struct ImageIndex"

end Index

end ImageAssembly
