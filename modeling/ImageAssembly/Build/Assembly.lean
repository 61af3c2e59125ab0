import ImageAssembly.Architecture
import ImageAssembly.Configuration.Merge
import ImageAssembly.Image.Basic
import ImageAssembly.Provenance
import ImageAssembly.ShellWords

/-! Building images: layers are put on a base image with a record each, and the configuration document
is written from the description. Nothing depends on the clock but through the build's timestamp, so
equal inputs give equal images. -/

namespace ImageAssembly.Build

/-- Why an image cannot be built. -/
inductive Fault
  | merge (fault : Configuration.Fault)
  | layer (fault : Layer.Fault)
  | append (fault : Image.AppendFault)
  | config (fault : Image.ConfigFault)
  | entrypoint (command : String)
  | cmd (command : String)
  | commit (fault : Image.CommitFault)

def Fault.kind : Fault → ErrorKind
  | .merge _ => .configMerge
  | .layer fault => fault.kind
  | .append _ => .layerAppend
  | .config _ => .configFile
  | .entrypoint _ => .entrypointParse
  | .cmd _ => .cmdParse
  | .commit _ => .configCommit

def Fault.cause : Fault → String
  | .merge fault => fault.message
  | .layer fault => fault.cause
  | .append fault => fault.message
  | .config fault => fault.message
  | .entrypoint command | .cmd command => command ++ ": " ++ ShellWords.faultMessage
  | .commit fault => fault.message

/-! ### Layers -/

/-- The author and creator in the records of new layers. -/
def historyAuthor : String := "layerforge"

/-- The comment in the record of a layer that is the only new one. -/
def singleLayerComment : String := "This is a layerforge single-layer image"

/-- The record of a new layer. -/
def historyOf (created : Time.Instant) (count : Nat) : History where
  created := some created
  createdBy := historyAuthor
  author := historyAuthor
  comment := if count = 1 then singleLayerComment else ""

/-- Asks each layer for its digest and its diff id, so that one that cannot be read is found before
anything is put on an image. -/
def checkLayers : List Layer → Action Layer.Fault Unit
  | [] => pure ()
  | l :: ls => do
    let _ ← l.digest
    let _ ← l.diffId
    checkLayers ls

/-- The layers with their records. -/
def addenda (layers : List Layer) (created : Time.Instant) : Action Layer.Fault (List Addendum) := do
  checkLayers layers
  pure (layers.map fun l => ⟨l, historyOf created layers.length⟩)

/-! ### The configuration document -/

/-- The author of the configuration document. -/
def imageAuthor : String := "github.com/layerforge/layerforge"

def imageOs : String := "linux"

/-- Variables that are set where the description leaves them out. -/
def defaultEnvironment : List (String × String) := [
  ("PATH", "/usr/local/sbin:/usr/local/bin:/usr/bin:/usr/sbin:/sbin:/bin"),
  ("SSL_CERT_FILE", "/etc/ssl/certs/ca-certificates.crt")]

/-- The variables with the defaults filled in. -/
def fullEnvironment (environment : Dictionary String) : Dictionary String :=
  defaultEnvironment.foldl (fun d (k, v) => d.insertNew k v) environment

/-- Whether a text is not behind another in order. -/
def notBehind (a b : String) : Bool := decide (a ≤ b)

/-- The variables as sorted `name=value` texts. -/
def renderEnvironment (environment : Dictionary String) : List String :=
  ((fullEnvironment environment).entries.map fun (k, v) => k ++ "=" ++ v).mergeSort notBehind

/-- What the image starts; a fragment is run by the shell, a command is split into words. -/
def entrypointWords (old : List String) (e : Entrypoint) : Except Fault (List String) :=
  if e.shellFragment ≠ "" then .ok ["/bin/sh", "-c", e.shellFragment]
  else if e.command ≠ "" then match ShellWords.split? e.command with
    | some words => .ok words
    | none => .error (.entrypoint e.command)
  else .ok old

def cmdWords (old : List String) (cmd : String) : Except Fault (List String) :=
  if cmd = "" then .ok old
  else match ShellWords.split? cmd with
    | some words => .ok words
    | none => .error (.cmd cmd)

/-- A set of texts. -/
def setOf (names : List String) : Dictionary Unit := .ofList (names.map (·, ()))

/-- The runtime defaults, those of the base where the description does not set them. -/
def configureContainer (old : ContainerConfig) (c : Configuration) (labels : Dictionary String) :
    Except Fault ContainerConfig := do
  let entrypoint ← entrypointWords old.entrypoint c.entrypoint
  let cmd ← cmdWords old.cmd c.cmd
  pure { old with
    labels
    entrypoint
    cmd
    workingDir := Configuration.overText old.workingDir c.workDir
    volumes := match c.volumes with
      | some volumes => setOf volumes
      | none => old.volumes
    env := renderEnvironment c.environment
    user := Configuration.overText old.user c.accounts.runAs
    stopSignal := Configuration.overText old.stopSignal c.stopSignal }

/-- The configuration document, written over that of the base. -/
def configure (old : ConfigFile) (c : Configuration) (labels : Dictionary String)
    (created : Time.Instant) (arch : Architecture) : Except Fault ConfigFile := do
  let config ← configureContainer old.config c labels
  pure { old with
    author := imageAuthor
    architecture := arch.name
    variant := arch.variant
    os := imageOs
    created := some created
    config }

/-- Builds an image by putting layers on a base, in order. -/
def build (base : Image) (layers : List Layer) (description : Configuration) (created : Time.Instant)
    (arch : Architecture) : Action Fault Image := do
  let c ← Action.ofExcept (description.workingCopy.mapError .merge)
  let addenda ← (addenda layers created).mapFault .layer
  let typed := (base.withMediaType .imageManifest).withConfigMediaType .imageConfig
  let image ← (typed.append addenda).mapFault .append
  let annotations := Provenance.annotations c created
  let image := image.withAnnotations annotations
  let old ← Action.ofExcept (image.configFile.mapError .config)
  let config ← Action.ofExcept (configure old c annotations created arch)
  Action.ofExcept ((image.withConfigFile config).mapError .commit)

end ImageAssembly.Build
