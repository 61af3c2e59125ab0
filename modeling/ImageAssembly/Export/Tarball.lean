import ImageAssembly.Archive.Writer
import ImageAssembly.Build.Assembly
import ImageAssembly.Export.Sink
import ImageAssembly.Tag

/-! Loadable archives: the configuration document under its digest, each layer once under the hash of its
stored bytes, and a manifest that lists them with the image's name. Order and metadata are fixed, so equal
images give equal archives. -/

namespace ImageAssembly.Export

/-- Why an image is not written. -/
inductive Fault
  | create (path : String) (fault : FileFault)
  | entry (name : String) (fault : FileFault)
  | layer (fault : Layer.Fault)

def Fault.kind : Fault → ErrorKind
  | .create _ _ | .entry _ _ => .tarballWrite
  | .layer fault => fault.kind

def Fault.cause : Fault → String
  | .create path fault => "Failed to create " ++ path ++ ": " ++ fault.message
  | .entry name fault => "Failed to write " ++ name ++ ": " ++ fault.message
  | .layer fault => fault.cause

/-- The name of the entry that lists the others. -/
def manifestName : String := "manifest.json"

/-- The name of a layer's entry. -/
def layerName (digest : Digest) (mediaType : MediaType) : String :=
  if mediaType = .layer then digest.hex ++ ".tar" else digest.hex ++ ".tar.gz"

/-- What the manifest of an archive says. -/
def manifestValue (config : String) (tag : Tag) (layers : List String) : Json.Value :=
  .array [.object [
    ("Config", .string config),
    ("RepoTags", .array [.string tag.toText]),
    ("Layers", Json.listValue .string layers)]]

/-- An archive that is being written to a place in a workspace. -/
structure Output where
  workspace : Workspace
  place : Place
  sink : Sink

/-- A step of writing; what is written up to a failure stays written. -/
abbrev Writing (α : Type) := ExceptT Fault (StateM Output) α

def writePieces (pieces : List ByteArray) : Writing Unit :=
  modify fun o => { o with sink := pieces.foldl Sink.write o.sink }

def copyBody (body : ByteArray) : Writing Unit :=
  modify fun o => { o with sink := (o.sink.copy body).write (Archive.filling body.size) }

/-- Writes an entry of known content. -/
def writeEntry (name : String) (body : ByteArray) : Writing Unit := do
  writePieces (Archive.opening name body.size)
  copyBody body

/-- The files as a reader finds them now: of the archive, what has left the buffer. -/
def Output.current (o : Output) : Workspace :=
  { o.workspace with files := o.workspace.files.put o.place (.file o.sink.visible) }

/-- Asks something of a layer. -/
def askLayer {α : Type} (a : Action Layer.Fault α) : Writing α := do
  let o ← get
  let (answer, workspace) := a.perform o.current
  set { o with workspace }
  match answer with
  | .ok a => pure a
  | .error fault => throw (.layer fault)

/-- Whether a layer's file is the archive itself. -/
def isOwnFile (o : Output) : Layer → Bool
  | .memory _ => false
  | .file l => match o.workspace.files.resolve l.path with
    | .ok place => place == o.place
    | .error _ => false

/-- Whether the archive can be copied into itself: the copy ends if it stays in the buffer. -/
def selfCopyEnds (s : Sink) : Bool :=
  s.flushed == 0 || (s.flushed < Sink.capacity && s.flushed + s.pending ≤ Sink.capacity)

/-- Writes an entry with the present content of a layer, under the size that the layer tells. -/
def writeLayer (name : String) (l : Layer) : Writing Unit := do
  let size ← askLayer l.size
  let contents ← askLayer l.contents
  writePieces (Archive.opening name size)
  let o ← get
  if isOwnFile o l && !selfCopyEnds o.sink then throw (.entry name .noSpace)
  match contents.fold (· ++ ·) .empty with
  | .ok body => copyBody body
  | .error fault => throw (.entry name fault)

/-- Writes each layer that is not among those of `written` yet, and gives the names of all. -/
def writeLayers (written : List Digest) : List Layer → Writing (List String)
  | [] => pure []
  | l :: ls => do
    let digest ← askLayer l.digest
    let name := layerName digest l.mediaType
    if digest ∈ written then
      let names ← writeLayers written ls
      pure (name :: names)
    else
      writeLayer name l
      let names ← writeLayers (digest :: written) ls
      pure (name :: names)

/-- Writes the entries of an image. -/
def writeImage (tag : Tag) (i : Image) : Writing Unit := do
  let config := i.manifest.config.digest.toText
  writeEntry config i.rawConfig
  let layers ← writeLayers [] i.layers
  writeEntry manifestName (manifestValue config tag layers).toBytes

/-- Writes an image to a file as an archive. The file is created before anything is read, and stays,
properly ended, when writing fails. -/
def writeFile (path : String) (tag : Tag) (i : Image) : Action Fault Unit := do
  let place ← Action.ofFiles fun fs => (fs.writablePlace path).mapError (.create path)
  let w ← get
  let output : Output := ⟨{ w with files := w.files.put place (.file .empty) }, place, .empty⟩
  let (outcome, output) := (writeImage tag i).run.run output
  let bytes := output.sink.bytes ++ Archive.ending
  set { output.workspace with files := output.workspace.files.put place (.file bytes) }
  Action.ofExcept outcome

end ImageAssembly.Export
