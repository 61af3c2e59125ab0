import ImageAssembly.ConfigFile.Container
import ImageAssembly.ConfigFile.History
import ImageAssembly.ConfigFile.RootFs

/-! The configuration document of an image: its platform, the runtime defaults, the root file system
and the history. Keys that the record does not name are kept. -/

namespace ImageAssembly

open Json Time

/-- The configuration document of an image. -/
structure ConfigFile where
  architecture : String := ""
  variant : String := ""
  os : String := ""
  created : Option Instant := none
  author : String := ""
  config : ContainerConfig := {}
  rootfs : RootFs := {}
  history : List History := []
  /-- Keys that the record does not name. -/
  extra : Dictionary Value := .empty
  deriving Inhabited

namespace ConfigFile

def encode (c : ConfigFile) : Value :=
  .object (member "architecture" (.string c.architecture)
    ++ textMember "variant" c.variant
    ++ member "os" (.string c.os)
    ++ optionalMember "created" encodeTimestamp c.created
    ++ textMember "author" c.author
    ++ member "config" c.config.encode
    ++ member "rootfs" c.rootfs.encode
    ++ listMember "history" History.encode c.history
    ++ c.extra.entries)

/-- The fields read so far. -/
structure Fields where
  architecture : Option String := none
  variant : Option String := none
  os : Option String := none
  created : Option (Option Instant) := none
  author : Option String := none
  config : Option ContainerConfig := none
  rootfs : Option RootFs := none
  history : Option (List History) := none
  extra : Dictionary Value := .empty

def Fields.read (s : Fields) (key : String) (t : Tree) : Decoded Fields :=
  if key = "architecture" then do
    return { s with architecture := ← once key s.architecture Tree.text t }
  else if key = "variant" then do return { s with variant := ← once key s.variant Tree.text t }
  else if key = "os" then do return { s with os := ← once key s.os Tree.text t }
  else if key = "created" then do return { s with created := ← once key s.created decodeTimestamp t }
  else if key = "author" then do return { s with author := ← once key s.author Tree.text t }
  else if key = "config" then do
    return { s with config := ← once key s.config (ContainerConfig.decode 1) t }
  else if key = "rootfs" then do return { s with rootfs := ← once key s.rootfs RootFs.decode t }
  else if key = "history" then do
    return { s with history := ← once key s.history (Tree.list (History.decode 2)) t }
  else do return { s with extra := s.extra.insert key (← t.keep 1) }

def Fields.complete (s : Fields) : ConfigFile :=
  ⟨s.architecture.getD "", s.variant.getD "", s.os.getD "", s.created.getD none, s.author.getD "",
    s.config.getD {}, s.rootfs.getD {}, s.history.getD [], s.extra⟩

def decode : Tree → Decoded ConfigFile
  | .object ms closed =>
    (Tree.members Fields.read {} ms).bind fun s => Tree.closedOr closed s.complete
  | t => t.mismatch "struct ConfigFile"

def toBytes (c : ConfigFile) : ByteArray := c.encode.toBytes

def ofBytes (text : ByteArray) : Decoded ConfigFile := decodeBytes decode text

end ConfigFile

end ImageAssembly
