import ImageAssembly.Text.Cut

/-! Names of images: a registry, a repository and a tag, written `registry/repository:tag`. Short
forms stand for names on the default registry. -/

namespace ImageAssembly

/-- A full image name. -/
structure Tag where
  registry : String
  repository : String
  tag : String
  deriving DecidableEq, Repr, Inhabited

namespace Tag

/-- The registry of a name that gives none. -/
def defaultRegistry : String := "index.docker.io"

/-- The tag of a name that gives none. -/
def defaultTag : String := "latest"

/-- The length in bytes that a tag may reach. -/
def maxLength : Nat := 128

/-- Why a reference is no image name. -/
inductive Cause
  | emptyReference
  | digestReference
  | emptyTag
  | tagStart (tag : String) (first : Char)
  | tagTooLong (tag : String)
  | tagCharacters (tag : String)
  | registry (text : String)
  | registryPort (text : String)
  | emptyRepository
  | component (text : String)
  deriving Repr, DecidableEq

/-- A refused reference. -/
structure Fault where
  reference : String
  cause : Cause
  deriving Repr, DecidableEq

def Cause.message : Cause → String
  | .emptyReference => "empty reference"
  | .digestReference => "digest references cannot be used as a tag"
  | .emptyTag => "empty tag"
  | .tagStart tag first => "tag '" ++ tag ++ "' must not start with '" ++ first.toString ++ "'"
  | .tagTooLong tag => "tag '" ++ tag ++ "' is longer than " ++ maxLength.repr ++ " characters"
  | .tagCharacters tag => "tag '" ++ tag ++ "' contains invalid characters"
  | .registry text => "invalid registry '" ++ text ++ "'"
  | .registryPort text => "invalid registry port in '" ++ text ++ "'"
  | .emptyRepository => "empty repository"
  | .component text => "repository component '" ++ text
      ++ "' must be lowercase alphanumerics separated by '.', '_', '__' or '-'"

def isLowerAlphanumeric (c : Char) : Bool := c.isLower || c.isDigit

def isTagChar (c : Char) : Bool := c.isAlphanum || c == '_' || c == '.' || c == '-'

def isHostChar (c : Char) : Bool := c.isAlphanum || c == '.' || c == '-'

/-- Checks a tag: a letter, digit or underscore first, then also points and hyphens. -/
def checkTag (tag : List Char) : Except Cause Unit :=
  match tag with
  | [] => .error .emptyTag
  | first :: _ =>
    let text := String.ofList tag
    if first = '.' ∨ first = '-' then .error (.tagStart text first)
    else if text.utf8ByteSize > maxLength then .error (.tagTooLong text)
    else if tag.all isTagChar then .ok () else .error (.tagCharacters text)

/-- Checks a registry: a host name and perhaps a port. -/
def checkRegistry (registry : List Char) : Except Cause Unit :=
  let (host, port) := match Text.cutLast ':' registry with
    | some (host, port) => (host, some port)
    | none => (registry, none)
  if host.isEmpty || !host.all isHostChar then .error (.registry (String.ofList registry))
  else match port with
    | none => .ok ()
    | some port =>
      if port.isEmpty || !port.all Char.isDigit then .error (.registryPort (String.ofList registry))
      else .ok ()

/-- Whether runs of lower-case letters and digits alternate with single separators from here on;
`afterSeparator` tells whether a run has still to begin. -/
def componentFrom : (afterSeparator : Bool) → List Char → Bool
  | afterSeparator, [] => !afterSeparator
  | afterSeparator, c :: r =>
    if isLowerAlphanumeric c then componentFrom false r
    else if afterSeparator then false
    else if c = '_' then match r with
      | '_' :: r => componentFrom true r
      | r => componentFrom true r
    else if c = '.' ∨ c = '-' then componentFrom true r
    else false

/-- Whether a component of a repository path is well formed. -/
def isComponent (component : List Char) : Bool := componentFrom true component

/-- Finds the first ill-formed component. -/
def checkComponents : List (List Char) → Except Cause Unit
  | [] => .ok ()
  | c :: cs => if isComponent c then checkComponents cs else .error (.component (String.ofList c))

/-- Whether the first component of a name can only be a host. -/
def looksLikeHost (first : List Char) : Bool :=
  first.contains '.' || first.contains ':' || first == "localhost".toList

/-- The registry and the repository of a name without its tag. -/
def splitName (name : List Char) : Except Cause (String × String) := do
  let (registry, repository) ← match Text.cutFirst '/' name with
    | some (first, rest) =>
      if looksLikeHost first then do
        checkRegistry first
        pure (String.ofList first, rest)
      else pure (defaultRegistry, name)
    | none => pure (defaultRegistry, name)
  if repository.isEmpty then throw .emptyRepository
  checkComponents (Text.pieces (· == '/') repository)
  let repository :=
    if registry = defaultRegistry ∧ '/' ∉ repository then "library/".toList ++ repository
    else repository
  pure (registry, String.ofList repository)

/-- The name and the tag of a reference: a colon after the last slash divides them, an earlier one
belongs to a port. -/
def splitReference (reference : List Char) : List Char × List Char :=
  match Text.cutLast ':' reference with
  | none => (reference, defaultTag.toList)
  | some (name, tag) => if '/' ∈ tag then (reference, defaultTag.toList) else (name, tag)

def parseParts (reference : List Char) : Except Cause Tag := do
  if reference.isEmpty then throw .emptyReference
  if '@' ∈ reference then throw .digestReference
  let (name, tag) := splitReference reference
  checkTag tag
  let (registry, repository) ← splitName name
  pure ⟨registry, repository, String.ofList tag⟩

/-- Reads an image name, filling in what a short form leaves out. -/
def parse (reference : String) : Except Fault Tag :=
  (parseParts reference.toList).mapError (⟨reference, ·⟩)

/-- The registry and the repository. -/
def repositoryName (t : Tag) : String := t.registry ++ "/" ++ t.repository

def toText (t : Tag) : String := t.registry ++ "/" ++ t.repository ++ ":" ++ t.tag

end Tag

end ImageAssembly
