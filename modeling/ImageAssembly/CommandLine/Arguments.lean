/-! The arguments of the program: a command, and for a build its options. An option's value follows it or
is attached to it, as in `--tag=t`, `-tt` or `-t=t`. -/

namespace ImageAssembly.CommandLine

/-- Why arguments are refused. Asking for help or for the version is refused in the same way. -/
inductive Usage
  | missingArgument
  | unknownArgument
  | conflict
  | invalidValue
  | tooManyValues
  | unknownCommand
  | noCommand
  | help
  | version
  deriving DecidableEq, Repr

def Usage.message : Usage → String
  | .missingArgument => "a layer, a tag and an output are required"
  | .unknownArgument => "unexpected argument"
  | .conflict => "an option is given twice"
  | .invalidValue => "an option lacks its value"
  | .tooManyValues => "an option takes no value"
  | .unknownCommand => "unrecognized command"
  | .noCommand | .help => "usage: layerforge build -l LAYER... -t TAG -o OUTPUT [-c CONFIG] [--arch ARCH] "
      ++ "[--base LAYOUT] [-e KEY=VALUE]... [--annotation KEY=VALUE]...\n       layerforge version"
  | .version => "layerforge 0.1.0"

/-- The options of a build. -/
inductive BuildOption
  | config
  | layer
  | tag
  | output
  | arch
  | base
  | env
  | annotate
  deriving DecidableEq, Repr

/-- What a build is asked for. -/
structure BuildRequest where
  config : Option String
  layers : List String
  tag : String
  output : String
  arch : String
  base : Option String
  env : List String
  annotations : List String
  deriving DecidableEq, Repr

/-- What the program is asked for. -/
inductive Command
  | build (request : BuildRequest)
  | version
  deriving DecidableEq, Repr

namespace BuildOption

def ofLongName? (name : String) : Option BuildOption :=
  [("config", config), ("layer", layer), ("tag", tag), ("output", output), ("arch", arch),
    ("base", base), ("env", env), ("annotation", annotate)].lookup name

def ofLetter? (c : Char) : Option BuildOption :=
  [('c', config), ('l', layer), ('t', tag), ('o', output), ('e', env)].lookup c

/-- Whether the option names a file or a directory; such a value cannot be empty. -/
def takesPath : BuildOption → Bool
  | .config | .layer | .output | .base => true
  | .tag | .arch | .env | .annotate => false

end BuildOption

/-! ### Options given so far -/

/-- The values of the options that have been given. -/
structure Given where
  config : Option String := none
  layers : List String := []
  tag : Option String := none
  output : Option String := none
  arch : Option String := none
  base : Option String := none
  env : List String := []
  annotations : List String := []

namespace Given

/-- Whether an option that can be given once has been given. -/
def has (g : Given) : BuildOption → Bool
  | .config => g.config.isSome
  | .tag => g.tag.isSome
  | .output => g.output.isSome
  | .arch => g.arch.isSome
  | .base => g.base.isSome
  | .layer | .env | .annotate => false

def put (g : Given) (value : String) : BuildOption → Given
  | .config => { g with config := some value }
  | .layer => { g with layers := g.layers ++ [value] }
  | .tag => { g with tag := some value }
  | .output => { g with output := some value }
  | .arch => { g with arch := some value }
  | .base => { g with base := some value }
  | .env => { g with env := g.env ++ [value] }
  | .annotate => { g with annotations := g.annotations ++ [value] }

/-- Takes the value of an option. -/
def set (g : Given) (o : BuildOption) (value : String) : Except Usage Given :=
  if g.has o then .error .conflict
  else if o.takesPath && value == "" then .error .invalidValue
  else .ok (g.put value o)

/-- The architecture of an image whose build names none. -/
def defaultArch : String := "amd64"

/-- The request, if all that it needs is given. -/
def complete (g : Given) : Except Usage BuildRequest :=
  match g.layers, g.tag, g.output with
  | _ :: _, some tag, some output =>
    .ok ⟨g.config, g.layers, tag, output, g.arch.getD defaultArch, g.base, g.env, g.annotations⟩
  | _, _, _ => .error .missingArgument

end Given

/-! ### Reading a build's arguments -/

/-- What an argument looks like on its own. -/
inductive Word
  /-- The mark behind which nothing is an option. -/
  | separator
  | option (o : BuildOption) (attached : Option String)
  | help
  | helpWithValue
  | unknown
  | plain

/-- The name of a long option and its attached value. -/
def splitAttached (cs : List Char) : List Char × Option (List Char) :=
  match cs.dropWhile (· != '=') with
  | _ :: value => (cs.takeWhile (· != '='), some value)
  | [] => (cs, none)

/-- The value behind an option's letter. -/
def attachedToLetter : List Char → Option String
  | [] => none
  | '=' :: value => some (String.ofList value)
  | value => some (String.ofList value)

def Word.ofLong (name : String) (value : Option String) : Word :=
  if name = "help" then (if value.isSome then .helpWithValue else .help)
  else match BuildOption.ofLongName? name with
    | some o => .option o value
    | none => .unknown

def Word.ofLetter (c : Char) (rest : List Char) : Word :=
  if c = 'h' then .help
  else match BuildOption.ofLetter? c with
    | some o => .option o (attachedToLetter rest)
    | none => .unknown

def Word.of (argument : String) : Word :=
  match argument.toList with
  | ['-', '-'] => .separator
  | '-' :: '-' :: cs =>
    let (name, value) := splitAttached cs
    .ofLong (String.ofList name) (value.map String.ofList)
  | '-' :: c :: cs => .ofLetter c cs
  | _ => .plain

/-- What has been read: the options that are settled, and the last one, perhaps still without its value. -/
structure Reading where
  given : Given := {}
  pending : Option (BuildOption × Option String) := none

/-- Settles the last option. -/
def Reading.settle (r : Reading) : Except Usage Given :=
  match r.pending with
  | none => .ok r.given
  | some (_, none) => .error .invalidValue
  | some (o, some value) => r.given.set o value

/-- Reads one argument that is not the separator. -/
def Reading.step (r : Reading) (argument : String) : Word → Except Usage Reading
  | .option o none => r.settle.map fun g => ⟨g, some (o, none)⟩
  | .option o (some value) => do return ⟨← (← r.settle).set o value, none⟩
  | .help => do
    let _ ← r.settle
    throw .help
  | .helpWithValue => throw .tooManyValues
  | .plain => match r.pending with
    | some (o, none) => pure { r with pending := some (o, some argument) }
    | _ => throw .unknownArgument
  | .separator | .unknown => throw .unknownArgument

/-- Reads arguments to their end. -/
def Reading.finish (r : Reading) : List String → Except Usage Given
  | [] => r.settle
  | argument :: rest => match Word.of argument with
    | .separator => if rest.isEmpty then r.settle else .error .unknownArgument
    | word => do (← r.step argument word).finish rest

def readBuild (arguments : List String) : Except Usage Command := do
  let given ← Reading.finish {} arguments
  return .build (← given.complete)

/-! ### Reading all arguments -/

/-- A flag by its name and its letter, and what asking for it is refused with. -/
structure Flag where
  name : String
  letter : Char
  usage : Usage

def helpFlag : Flag := ⟨"help", 'h', .help⟩

def versionFlag : Flag := ⟨"version", 'V', .version⟩

/-- What an argument is refused with where only flags may stand; `stray` is for one that is no option. -/
def refuse (flags : List Flag) (stray : Usage) (argument : String) : Usage :=
  match argument.toList with
  | '-' :: '-' :: cs =>
    let (name, value) := splitAttached cs
    match flags.find? (·.name == String.ofList name) with
    | some flag => if value.isSome then .tooManyValues else flag.usage
    | none => .unknownArgument
  | '-' :: c :: _ => match flags.find? (·.letter == c) with
    | some flag => flag.usage
    | none => .unknownArgument
  | _ => stray

def readVersion : List String → Except Usage Command
  | [] | ["--"] => .ok .version
  | argument :: _ => .error (refuse [helpFlag] .unknownArgument argument)

def commandNames : List String := ["build", "version", "help"]

/-- What follows the word `help`. -/
def readHelp : List String → Usage
  | [] => .help
  | [name] => if name ∈ commandNames then .help else .unknownCommand
  | _ => .unknownCommand

/-- The command that arguments give. -/
def read : List String → Except Usage Command
  | [] | ["--"] => .error .noCommand
  | "build" :: arguments => readBuild arguments
  | "version" :: arguments => readVersion arguments
  | "help" :: arguments => .error (readHelp arguments)
  | "--" :: name :: _ => .error (if name ∈ commandNames then .unknownArgument else .unknownCommand)
  | argument :: _ => .error (refuse [helpFlag, versionFlag] .unknownCommand argument)

end ImageAssembly.CommandLine
