import ImageAssembly.CommandLine.Arguments
import ImageAssembly.CommandLine.ByteCount
import ImageAssembly.Export.SingleLayer

/-! The commands of the program, and what they print. -/

namespace ImageAssembly.CommandLine

/-- The program's version, which all its parts share. -/
def programVersion : String := "0.1.0"

def programName : String := "layerforge"

/-- Why a command fails. -/
inductive Failure
  | usage (usage : Usage)
  /-- An argument that should be a key and a value. -/
  | pair (argument : String)
  | error (error : Error)

def pairFaultMessage (argument : String) : String :=
  "Invalid value (expected KEY=VALUE): " ++ argument

def Failure.message : Failure → String
  | .usage u => u.message
  | .pair argument => pairFaultMessage argument
  | .error e => e.message

/-- Splits `key=value` at the first equals sign. -/
def splitPair (argument : String) : Except Failure (String × String) :=
  match Text.cutFirst '=' argument.toList with
  | some (key, value) => .ok (String.ofList key, String.ofList value)
  | none => .error (.pair argument)

/-- The pairs that arguments give; the last one of a key counts. -/
def readPairs (arguments : List String) : Except Failure (Dictionary String) :=
  (arguments.mapM splitPair).map .ofList

/-- The description in the file that a build names, or the empty one. -/
def loadDescription : Option String → Action Error Configuration
  | some path => (Configuration.load path).mapFault .load
  | none => pure {}

/-- The description of an image, with what the arguments say laid over it. -/
def describe (r : BuildRequest) : Action Failure Configuration := do
  let description ← (loadDescription r.config).mapFault .error
  let environment ← Action.ofExcept (readPairs r.env)
  let annotations ← Action.ofExcept (readPairs r.annotations)
  let overrides : Configuration := { environment, annotations }
  Action.ofExcept ((overrides.mergeInto description).mapError (.error ∘ .merge))

def openLayers : List String → Action Layer.Fault (List Layer)
  | [] => pure []
  | path :: paths => do
    let layer ← FileLayer.openPath path
    let layers ← openLayers paths
    pure (.file layer :: layers)

/-- The image that a build stands on. -/
def loadBase : Option String → Action Error Image
  | some root => (Layout.load root).mapFault .layout
  | none => pure .empty

/-- Builds an image of any number of layers and writes it; the name is looked at first. -/
def assemble (r : BuildRequest) (layers : List Layer) (description : Configuration)
    (created : Time.Instant) (arch : Architecture) : Action Error Unit := do
  let tag ← Action.ofExcept ((Tag.parse r.tag).mapError .tag)
  let base ← loadBase r.base
  let image ← (Build.build base layers description created arch).mapFault .build
  (Export.writeFile r.output tag image).mapFault .write

/-- Makes and writes the image of a build. One layer without a base is an image of its own. -/
def produce (r : BuildRequest) (description : Configuration) (epoch : Option String) :
    Action Error Unit := do
  let arch ← Action.ofExcept ((Architecture.parse r.arch).mapError .architecture)
  let created ← Action.ofExcept ((Time.SourceDate.read epoch).mapError .sourceDate)
  let layers ← (openLayers r.layers).mapFault .layer
  match r.base, layers with
  | none, [layer] => Export.buildFromLayer r.tag layer r.output description created arch
  | _, _ => assemble r layers description created arch

/-- The number of bytes in a file, or zero if there is none. -/
def fileSize (fs : Files) (path : String) : Nat :=
  match fs.read path with
  | .ok data => data.size
  | .error _ => 0

/-- Builds an image; `epoch` is the value of the variable with the build's timestamp. -/
def build (r : BuildRequest) (epoch : Option String) : Action Failure String := do
  let description ← describe r
  (produce r description epoch).mapFault .error
  let w ← get
  let size := formatBytes (fileSize w.files r.output)
  pure ("Built " ++ r.tag ++ " → " ++ r.output ++ " (" ++ size ++ ")\n")

/-- The paths that a build looks at, as far as the files that are known tell them. -/
def BuildRequest.sources (r : BuildRequest) (fs : Files) : List String :=
  r.config.toList ++ r.layers ++ (r.base.map (Layout.sources fs)).getD [] ++ [r.output]

/-- Does what the arguments ask for, and gives what is printed. -/
def run (arguments : List String) (epoch : Option String) : Action Failure String := do
  match ← Action.ofExcept ((read arguments).mapError .usage) with
  | .build r => build r epoch
  | .version => pure (programName ++ " version " ++ programVersion ++ "\n")

end ImageAssembly.CommandLine
