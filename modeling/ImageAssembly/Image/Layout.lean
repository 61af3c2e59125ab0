import ImageAssembly.Image.Basic
import ImageAssembly.Index

/-! Image layouts: directories with an index and blobs that are named by their digests. The first
manifest of the index is the image; its layers are not read before they are needed. -/

namespace ImageAssembly.Layout

/-- Why a directory is no image layout, or its image cannot be loaded. -/
inductive Fault
  | missing (name root : String)
  | readIndex (path : String) (fault : FileFault)
  | parseIndex (fault : Json.Fault)
  | noManifests
  | manifestDigest (fault : Digest.Fault)
  | readBlob (what path : String) (fault : FileFault)
  | parseManifest (fault : Json.Fault)
  | missingLayer (digest : Digest) (path : String)

def Fault.message : Fault → String
  | .missing name root => "Not a valid OCI layout: missing " ++ name ++ " in " ++ root
  | .readIndex path fault => "Failed to read index.json at " ++ path ++ ": " ++ fault.message
  | .parseIndex fault => "Failed to parse index.json: " ++ fault.message
  | .noManifests => "No manifests in index.json"
  | .manifestDigest fault => fault.message
  | .readBlob what path fault => "Failed to read " ++ what ++ " at " ++ path ++ ": " ++ fault.message
  | .parseManifest fault => "Failed to parse manifest: " ++ fault.message
  | .missingLayer digest path => "Layer blob " ++ digest.toText ++ " not found at " ++ path

/-- A name below a directory; a name that begins with a slash is a path of its own. -/
def join (root name : String) : String :=
  if root = "" ∨ name.toList.head? = some '/' then name
  else if Files.endsInSlash root then root ++ name
  else root ++ "/" ++ name

/-- The path of a blob. -/
def blobPath (root : String) (d : Digest) : String :=
  join (join (join root "blobs") d.algorithm) d.hex

/-- What every layout has. -/
def requiredNames : List String := ["oci-layout", "index.json", "blobs"]

def checkNames (fs : Files) (root : String) : Except Fault Unit :=
  match requiredNames.find? fun name => !fs.pathExists (join root name) with
  | some name => .error (.missing name root)
  | none => .ok ()

def readBlob (fs : Files) (root : String) (d : Digest) (what : String) : Except Fault ByteArray :=
  (fs.read (blobPath root d)).mapError (.readBlob what (blobPath root d))

/-- The digest of the manifest that the index lists first. -/
def manifestDigest (fs : Files) (root : String) : Except Fault Digest := do
  let path := join root "index.json"
  let text ← (fs.readText path).mapError (.readIndex path)
  match ← (Json.decodeBytes Index.decode text.toUTF8).mapError Fault.parseIndex with
  | [] => throw .noManifests
  | digest :: _ => (Digest.parse digest).mapError .manifestDigest

/-- The paths that loading a layout looks at, as far as the files that are known tell them: the fixed
names, then the manifest, then the blobs that it names. -/
def sources (fs : Files) (root : String) : List String :=
  requiredNames.map (join root) ++ match manifestDigest fs root with
    | .error _ => []
    | .ok digest => blobPath root digest :: match (fs.read (blobPath root digest)).toOption with
      | none => []
      | some bytes => match Manifest.ofBytes bytes with
        | .error _ => []
        | .ok manifest => (manifest.config :: manifest.layers).map fun d => blobPath root d.digest

/-- Layers that must be there, in the order of their descriptors. -/
def layersOf (root : String) : List Descriptor → Action Fault (List Layer)
  | [] => pure []
  | d :: ds => do
    let path := blobPath root d.digest
    let w ← get
    if !w.files.isFile path then throw (.missingLayer d.digest path)
    let layer ← FileLayer.ofType path d.mediaType
    let layers ← layersOf root ds
    pure (.file layer :: layers)

/-- The manifest and the configuration document of a layout. -/
def readDocuments (fs : Files) (root : String) : Except Fault (Manifest × ByteArray) := do
  checkNames fs root
  let digest ← manifestDigest fs root
  let bytes ← readBlob fs root digest "manifest"
  let manifest ← (Manifest.ofBytes bytes).mapError .parseManifest
  let rawConfig ← readBlob fs root manifest.config.digest "config"
  pure (manifest, rawConfig)

/-- Loads the image of a layout. -/
def load (root : String) : Action Fault Image := do
  let (manifest, rawConfig) ← Action.ofFiles (readDocuments · root)
  let layers ← layersOf root manifest.layers
  pure ⟨manifest, rawConfig, layers⟩

end ImageAssembly.Layout
