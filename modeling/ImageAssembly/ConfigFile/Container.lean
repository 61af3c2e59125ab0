import ImageAssembly.Json.Decode
import ImageAssembly.Json.Encode

/-! The runtime defaults of containers made from an image. Keys that the record does not name are
kept. -/

namespace ImageAssembly

open Json

/-- An object whose content does not matter, given as one or as an empty array. -/
def decodeEmptyObject : Tree → Decoded Unit
  | .object ms closed => (Tree.members (fun u _ t => t.skip u) () ms).bind (Tree.closedOr closed)
  | .array ts closed => noMoreItems closed () ts
  | t => t.mismatch "struct EmptyObject"

def encodeEmptyObject (_ : Unit) : Value := .object []

/-- How a container runs. -/
structure ContainerConfig where
  user : String := ""
  exposedPorts : Dictionary Unit := .empty
  env : List String := []
  entrypoint : List String := []
  cmd : List String := []
  volumes : Dictionary Unit := .empty
  workingDir : String := ""
  labels : Dictionary String := .empty
  stopSignal : String := ""
  /-- Keys that the record does not name. -/
  extra : Dictionary Value := .empty
  deriving Inhabited

namespace ContainerConfig

def encode (c : ContainerConfig) : Value :=
  .object (textMember "User" c.user
    ++ dictionaryMember "ExposedPorts" encodeEmptyObject c.exposedPorts
    ++ listMember "Env" .string c.env
    ++ listMember "Entrypoint" .string c.entrypoint
    ++ listMember "Cmd" .string c.cmd
    ++ dictionaryMember "Volumes" encodeEmptyObject c.volumes
    ++ textMember "WorkingDir" c.workingDir
    ++ dictionaryMember "Labels" .string c.labels
    ++ textMember "StopSignal" c.stopSignal
    ++ c.extra.entries)

/-- The fields read so far. -/
structure Fields where
  user : Option String := none
  exposedPorts : Option (Dictionary Unit) := none
  env : Option (List String) := none
  entrypoint : Option (List String) := none
  cmd : Option (List String) := none
  volumes : Option (Dictionary Unit) := none
  workingDir : Option String := none
  labels : Option (Dictionary String) := none
  stopSignal : Option String := none
  extra : Dictionary Value := .empty

def Fields.read (depth : Nat) (s : Fields) (key : String) (t : Tree) : Decoded Fields :=
  if key = "User" then do return { s with user := ← once key s.user Tree.text t }
  else if key = "ExposedPorts" then do
    return { s with exposedPorts := ← once key s.exposedPorts (Tree.dictionary decodeEmptyObject) t }
  else if key = "Env" then do return { s with env := ← once key s.env (Tree.list Tree.text) t }
  else if key = "Entrypoint" then do
    return { s with entrypoint := ← once key s.entrypoint (Tree.list Tree.text) t }
  else if key = "Cmd" then do return { s with cmd := ← once key s.cmd (Tree.list Tree.text) t }
  else if key = "Volumes" then do
    return { s with volumes := ← once key s.volumes (Tree.dictionary decodeEmptyObject) t }
  else if key = "WorkingDir" then do
    return { s with workingDir := ← once key s.workingDir Tree.text t }
  else if key = "Labels" then do
    return { s with labels := ← once key s.labels Tree.dictionaryOfText t }
  else if key = "StopSignal" then do
    return { s with stopSignal := ← once key s.stopSignal Tree.text t }
  else do return { s with extra := s.extra.insert key (← t.keep depth) }

def Fields.complete (s : Fields) : ContainerConfig :=
  ⟨s.user.getD "", s.exposedPorts.getD .empty, s.env.getD [], s.entrypoint.getD [], s.cmd.getD [],
    s.volumes.getD .empty, s.workingDir.getD "", s.labels.getD .empty, s.stopSignal.getD "", s.extra⟩

/-- A record inside `depth` open containers. -/
def decode (depth : Nat) : Tree → Decoded ContainerConfig
  | .object ms closed =>
    (Tree.members (Fields.read (depth + 1)) {} ms).bind fun s => Tree.closedOr closed s.complete
  | t => t.mismatch "struct ContainerConfig"

end ContainerConfig

end ImageAssembly
