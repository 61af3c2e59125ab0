import ImageAssembly.ConfigFile.Basic
import ImageAssembly.Layer.Basic
import ImageAssembly.Manifest

/-! Images: a manifest, the configuration document that it describes, and the layers in the order in
which they are stacked. Operations give a new image and leave the old one as it was. -/

namespace ImageAssembly

/-- An image. -/
structure Image where
  manifest : Manifest
  /-- The configuration document as it is stored. -/
  rawConfig : ByteArray
  layers : List Layer

/-- A layer to be put on an image, with the record of its making. -/
structure Addendum where
  layer : Layer
  history : History

namespace Image

/-- Why layers cannot be put on an image. -/
inductive AppendFault
  | config (fault : Json.Fault)
  | rootFsType (type : String)
  | counts (diffIds layers : Nat)
  | layer (fault : Layer.Fault)

def AppendFault.message : AppendFault → String
  | .config fault => "Failed to parse base image config: " ++ fault.message
  | .rootFsType type =>
    "Base image rootfs type is '" ++ type ++ "', expected '" ++ RootFs.layersType ++ "'"
  | .counts diffIds layers =>
    "Base image has " ++ diffIds.repr ++ " diff ids but " ++ layers.repr ++ " layers"
  | .layer fault => fault.message

/-- A configuration document that lists more or fewer layers than the image has. -/
structure CommitFault where
  diffIds : Nat
  layers : Nat
  deriving DecidableEq, Repr

def CommitFault.message (f : CommitFault) : String :=
  "Config lists " ++ f.diffIds.repr ++ " diff ids but the image has " ++ f.layers.repr ++ " layers"

/-- A configuration document that cannot be read, under the digest that the manifest gives it. -/
structure ConfigFault where
  digest : Digest
  fault : Json.Fault

def ConfigFault.message (f : ConfigFault) : String :=
  "Failed to parse config " ++ f.digest.toText ++ ": " ++ f.fault.message

/-- The image without layers. -/
def empty : Image :=
  let rawConfig := ConfigFile.toBytes {}
  { manifest := ⟨2, some .initialManifest, ⟨.initialConfig, .sha256 rawConfig, rawConfig.size, .empty⟩,
      [], .empty⟩
    rawConfig
    layers := [] }

instance : Inhabited Image := ⟨empty⟩

def rawManifest (i : Image) : ByteArray := i.manifest.toBytes

/-- The digest of the manifest. -/
def digest (i : Image) : Digest := .sha256 i.rawManifest

/-- The configuration document, read. -/
def configFile (i : Image) : Except ConfigFault ConfigFile :=
  (ConfigFile.ofBytes i.rawConfig).mapError (⟨i.manifest.config.digest, ·⟩)

def withMediaType (i : Image) (m : MediaType) : Image :=
  { i with manifest := { i.manifest with mediaType := some m } }

def withConfigMediaType (i : Image) (m : MediaType) : Image :=
  { i with manifest := { i.manifest with config := { i.manifest.config with mediaType := m } } }

/-- Lays annotations over those of the manifest. -/
def withAnnotations (i : Image) (annotations : Dictionary String) : Image :=
  { i with manifest := { i.manifest with annotations := i.manifest.annotations.overlay annotations } }

/-- Stores a configuration document and describes it in the manifest. -/
def storeConfig (i : Image) (c : ConfigFile) : Image :=
  let rawConfig := c.toBytes
  let config := { i.manifest.config with digest := .sha256 rawConfig, size := rawConfig.size }
  { i with manifest := { i.manifest with config }, rawConfig }

/-- Replaces the configuration document; it must list as many layers as there are. -/
def withConfigFile (i : Image) (c : ConfigFile) : Except CommitFault Image :=
  if c.rootfs.diffIds.length ≠ i.layers.length then
    .error ⟨c.rootfs.diffIds.length, i.layers.length⟩
  else .ok (i.storeConfig c)

/-- What is known of a layer when it is put on an image. -/
structure LayerSummary where
  descriptor : Descriptor
  diffId : Digest

/-- Asks a layer for its digest, its diff id and its size. -/
def summarize (l : Layer) : Action Layer.Fault LayerSummary := do
  let digest ← l.digest
  let diffId ← l.diffId
  let size ← l.size
  pure ⟨⟨l.mediaType, digest, size, .empty⟩, diffId⟩

/-- Asks each layer in turn. -/
def summarizeAll : List Layer → Action Layer.Fault (List LayerSummary)
  | [] => pure []
  | l :: ls => do
    let s ← summarize l
    let ss ← summarizeAll ls
    pure (s :: ss)

/-- The configuration document of an image that layers can be put on. -/
def appendable (i : Image) : Except AppendFault ConfigFile := do
  let c ← (ConfigFile.ofBytes i.rawConfig).mapError .config
  if c.rootfs.type ≠ RootFs.layersType then throw (.rootFsType c.rootfs.type)
  if c.rootfs.diffIds.length ≠ i.manifest.layers.length then
    throw (.counts c.rootfs.diffIds.length i.manifest.layers.length)
  pure c

/-- Puts summarized layers on top. -/
def extend (i : Image) (c : ConfigFile) (addenda : List Addendum) (summaries : List LayerSummary) :
    Image :=
  let c := { c with
    rootfs := { c.rootfs with diffIds := c.rootfs.diffIds ++ summaries.map (·.diffId) }
    history := c.history ++ addenda.map (·.history) }
  let manifest := { i.manifest with layers := i.manifest.layers ++ summaries.map (·.descriptor) }
  storeConfig { i with manifest, layers := i.layers ++ addenda.map (·.layer) } c

/-- Puts layers with their records on top, in order. -/
def append (i : Image) (addenda : List Addendum) : Action AppendFault Image := do
  let c ← Action.ofExcept i.appendable
  let summaries ← (summarizeAll (addenda.map (·.layer))).mapFault .layer
  pure (i.extend c addenda summaries)

end Image

end ImageAssembly
