import ImageAssembly.Gzip.Member
import ImageAssembly.MediaType
import ImageAssembly.Workspace

/-! Layers: file system archives, stored compressed or plain, in memory or in a file. A layer tells the
digest and the size of its stored bytes, and the digest of the uncompressed content, its diff id. What
is computed of a file is computed once; a failure is not remembered. -/

namespace ImageAssembly

namespace Layer

/-- What an operation on a layer's content met. -/
inductive ContentFault
  | file (fault : FileFault)
  | gzip (fault : Gzip.Fault)
  deriving DecidableEq, Repr

def ContentFault.message : ContentFault → String
  | .file fault => fault.message
  | .gzip fault => fault.message

/-- Why something about a layer cannot be told. -/
inductive Fault
  | decompress (fault : Gzip.Fault)
  | openFile (path : String) (fault : FileFault)
  | readFile (path : String) (fault : FileFault)
  | hashFile (path : String) (fault : FileFault)
  | openForDiffId (path : String) (fault : FileFault)
  | readUncompressed (path : String) (fault : ContentFault)
  | openContents (path : String) (fault : FileFault)
  deriving DecidableEq, Repr

def Fault.kind : Fault → ErrorKind
  | .decompress _ | .openForDiffId _ _ | .readUncompressed _ _ => .layerDiffId
  | .openFile _ _ | .readFile _ _ | .hashFile _ _ => .layerDigest
  | .openContents _ _ => .ociImage

def Fault.cause : Fault → String
  | .decompress fault => "Failed to decompress layer: " ++ fault.message
  | .openFile path fault | .openForDiffId path fault | .openContents path fault =>
    "Failed to open layer file " ++ path ++ ": " ++ fault.message
  | .readFile path fault => "Failed to read layer file " ++ path ++ ": " ++ fault.message
  | .hashFile path fault => "Failed to hash layer file " ++ path ++ ": " ++ fault.message
  | .readUncompressed path fault =>
    "Failed to read uncompressed layer " ++ path ++ ": " ++ fault.message

def Fault.message (f : Fault) : String := f.kind.describe f.cause

end Layer

/-- A layer whose stored bytes are in memory. -/
structure MemoryLayer where
  blob : ByteArray
  mediaType : MediaType
  digest : Digest
  diffId : Digest
  digest_eq : digest = .sha256 blob

/-- A layer whose stored bytes are in a file. -/
structure FileLayer where
  /-- The place of its memo. -/
  id : Nat
  path : String
  mediaType : MediaType
  deriving DecidableEq

/-- A layer of an image. -/
inductive Layer
  | memory (layer : MemoryLayer)
  | file (layer : FileLayer)

namespace MemoryLayer

/-- A layer of given stored bytes; those that begin like a gzip member must be one. -/
def ofBlob (blob : ByteArray) : Except Layer.Fault MemoryLayer :=
  let digest := Digest.sha256 blob
  if Gzip.hasMagic blob then
    match Digest.ofFeed (Feed.ofExcept (Gzip.decompress blob)) with
    | .ok (diffId, _) => .ok ⟨blob, .layerGzip, digest, diffId, rfl⟩
    | .error fault => .error (.decompress fault)
  else .ok ⟨blob, .layer, digest, digest, rfl⟩

/-- A compressed layer of given content. -/
def ofTar (tar : ByteArray) : MemoryLayer :=
  let blob := Gzip.compress tar
  ⟨blob, .layerGzip, .sha256 blob, .sha256 tar, rfl⟩

end MemoryLayer

namespace FileLayer

/-- A layer file of known type, which is not looked at yet. -/
def ofType {ε : Type} (path : String) (mediaType : MediaType) : Action ε FileLayer := do
  let w ← get
  set { w with memos := w.memos ++ [default] }
  pure ⟨w.memos.length, path, mediaType⟩

/-- A layer file; its first two bytes tell its type. -/
def openPath (path : String) : Action Layer.Fault FileLayer := do
  let feed ← (Action.ofFiles (·.openPath path)).mapFault (Layer.Fault.openFile path)
  let magic ← Action.ofExcept ((feed.take 2 .empty).mapError (Layer.Fault.readFile path))
  ofType path (if Gzip.hasMagic magic then .layerGzip else .layer)

/-- All but plain archives are taken to be compressed. -/
def isCompressed (l : FileLayer) : Bool := l.mediaType != .layer

/-- The digest and the size of the file, as they were when first asked for. -/
def digestAndSize (l : FileLayer) : Action Layer.Fault (Digest × Nat) := do
  let w ← get
  match (w.memo l.id).stored with
  | some stored => pure stored
  | none =>
    let stored ← Action.ofExcept
      (((w.files.openPath l.path).bind Digest.ofFeed).mapError (Layer.Fault.hashFile l.path))
    set (w.setMemo l.id { w.memo l.id with stored := some stored })
    pure stored

/-- The content of a file, uncompressed if need be. -/
def uncompressed (l : FileLayer) (feed : Feed FileFault) : Feed Layer.ContentFault :=
  match feed.fold (· ++ ·) .empty with
  | .error fault => .failed (.file fault)
  | .ok data =>
    if l.isCompressed then Feed.ofExcept ((Gzip.decompress data).mapError .gzip) else .ofBytes data

/-- The digest of the content, as it was when first asked for. -/
def diffId (l : FileLayer) : Action Layer.Fault Digest := do
  let w ← get
  match (w.memo l.id).diffId with
  | some diffId => pure diffId
  | none =>
    let feed ← Action.ofExcept
      ((w.files.openPath l.path).mapError (Layer.Fault.openForDiffId l.path))
    let (diffId, _) ← Action.ofExcept
      ((Digest.ofFeed (l.uncompressed feed)).mapError (Layer.Fault.readUncompressed l.path))
    set (w.setMemo l.id { w.memo l.id with diffId := some diffId })
    pure diffId

end FileLayer

namespace Layer

def mediaType : Layer → MediaType
  | .memory l => l.mediaType
  | .file l => l.mediaType

/-- The digest of the stored bytes. -/
def digest : Layer → Action Fault Digest
  | .memory l => pure l.digest
  | .file l => do return (← l.digestAndSize).1

/-- The number of stored bytes. -/
def size : Layer → Action Fault Nat
  | .memory l => pure l.blob.size
  | .file l => do return (← l.digestAndSize).2

/-- The digest of the uncompressed content. -/
def diffId : Layer → Action Fault Digest
  | .memory l => pure l.diffId
  | .file l => l.diffId

/-- The stored bytes as they are now. -/
def contents : Layer → Action Fault (Feed FileFault)
  | .memory l => pure (.ofBytes l.blob)
  | .file l => (Action.ofFiles (·.openPath l.path)).mapFault (Fault.openContents l.path)

end Layer

end ImageAssembly
