import ImageAssembly.Dictionary
import ImageAssembly.Text.Cut

/-! The declarative description of an image's runtime defaults, and the rules that it must keep. -/

namespace ImageAssembly

/-- What the image starts; when both forms are set the shell fragment wins. -/
structure Entrypoint where
  /-- A command line, split by shell quoting rules. -/
  command : String := ""
  /-- A text that the shell runs as it stands. -/
  shellFragment : String := ""
  deriving DecidableEq, Inhabited

/-- Identities that the image uses. -/
structure Accounts where
  runAs : String := ""
  deriving DecidableEq, Inhabited

/-- A description of an image; an empty text is a field that is not set. -/
structure Configuration where
  annotations : Dictionary String := .empty
  /-- The version control source, as `url@revision`. -/
  vcsUrl : String := ""
  entrypoint : Entrypoint := {}
  cmd : String := ""
  workDir : String := ""
  /-- Mount paths; an empty list clears a base image's, none leaves them alone. -/
  volumes : Option (List String) := none
  environment : Dictionary String := .empty
  accounts : Accounts := {}
  stopSignal : String := ""
  deriving DecidableEq, Inhabited

namespace Configuration

/-- A rule that a description breaks. -/
inductive Fault
  | emptyVariableName
  | variableNameWithEquals (name : String)
  | emptyAnnotationKey
  | relativeVolume (path : String)
  | malformedVcsUrl (url : String)
  deriving DecidableEq, Repr

def Fault.message : Fault → String
  | .emptyVariableName => "environment variable name must not be empty"
  | .variableNameWithEquals name => "environment variable name '" ++ name ++ "' must not contain '='"
  | .emptyAnnotationKey => "annotation key must not be empty"
  | .relativeVolume path => "volume path '" ++ path ++ "' must be absolute"
  | .malformedVcsUrl url => "vcs-url '" ++ url ++ "' must be formatted as <repo-url>@<revision>"

/-- The rule that a variable name breaks. -/
def variableNameFault? (name : String) : Option Fault :=
  if name = "" then some .emptyVariableName
  else if '=' ∈ name.toList then some (.variableNameWithEquals name)
  else none

def isAbsolute (path : String) : Bool := path.toList.head? == some '/'

def volumeFault? (path : String) : Option Fault :=
  if isAbsolute path then none else some (.relativeVolume path)

/-- The parts of a version control source around its last `@`, if it has one. -/
def splitVcsUrl (url : String) : Option (String × String) :=
  (Text.cutLast '@' url.toList).map fun (source, revision) =>
    (String.ofList source, String.ofList revision)

def vcsUrlFault? (url : String) : Option Fault :=
  match splitVcsUrl url with
  | some (source, revision) =>
    if source = "" ∨ revision = "" then some (.malformedVcsUrl url) else none
  | none => none

/-- The first rule broken, in the order variable names, annotation keys, volumes, source. -/
def fault? (c : Configuration) : Option Fault :=
  c.environment.keys.findSome? variableNameFault?
    <|> (if "" ∈ c.annotations.keys then some .emptyAnnotationKey else none)
    <|> (c.volumes.getD []).findSome? volumeFault?
    <|> vcsUrlFault? c.vcsUrl

def validate (c : Configuration) : Except Fault Unit :=
  match c.fault? with
  | some fault => .error fault
  | none => .ok ()

end Configuration

end ImageAssembly
