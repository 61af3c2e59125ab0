import ImageAssembly.Feed
import ImageAssembly.Text.Cut

/-! Files and directories. A path text is resolved name by name from the working directory, or from the
root if it begins with a slash; every name but the last must lead to a directory. The faults are those
of an operating system, with its texts. -/

namespace ImageAssembly

/-- The names that lead to a file or directory from the working directory; the root's own name is a
slash. -/
abbrev Place := List String

/-- What stands at a place. -/
inductive Entry
  | file (data : ByteArray)
  | directory

/-- The files below the working directory. -/
structure Files where
  entries : List (Place × Entry)

/-- Why a path cannot be used as wanted. -/
inductive FileFault
  | notFound
  | alreadyExists
  | notDirectory
  | isDirectory
  | noSpace
  | nameTooLong
  | zeroCharacter
  | invalidText
  deriving DecidableEq, Repr

def FileFault.message : FileFault → String
  | .notFound => "No such file or directory (os error 2)"
  | .alreadyExists => "File exists (os error 17)"
  | .notDirectory => "Not a directory (os error 20)"
  | .isDirectory => "Is a directory (os error 21)"
  | .noSpace => "No space left on device (os error 28)"
  | .nameTooLong => "File name too long (os error 36)"
  | .zeroCharacter => "file name contained an unexpected NUL byte"
  | .invalidText => "stream did not contain valid UTF-8"

namespace Files

def empty : Files := ⟨[]⟩

instance : Inhabited Files := ⟨empty⟩

/-- The place of the root directory. -/
def rootPlace : Place := ["/"]

/-- Whether a place is the working directory or above it. -/
def isAbove (place : Place) : Bool := place.all (· == "..")

/-- What stands at a place; the root and the directories above the working one are always there. -/
def entryAt? (fs : Files) (place : Place) : Option Entry :=
  if isAbove place ∨ place = rootPlace then some .directory else fs.entries.lookup place

/-- Puts an entry at a place, in the stead of what stood there. -/
def put (fs : Files) (place : Place) (e : Entry) : Files :=
  ⟨(place, e) :: fs.entries.filter fun x => x.1 != place⟩

/-- Takes away what stands at a place and below it. -/
def delete (fs : Files) (place : Place) : Files :=
  ⟨fs.entries.filter fun x => !place.isPrefixOf x.1⟩

/-! ### Paths -/

/-- The bytes that a name may have. -/
def maxNameLength : Nat := 255

/-- The bytes that a path must stay below. -/
def pathLimit : Nat := 4096

/-- Where a path text starts, and its names; a slash at the end leaves an empty last name. -/
def splitPath (path : String) : Place × List String :=
  match Text.pieces (· == '/') path.toList with
  | [] :: rest@(_ :: _) => (rootPlace, rest.map String.ofList)
  | names => ([], names.map String.ofList)

/-- A path split, if the text can be a path at all. -/
def checkPath (path : String) : Except FileFault (Place × List String) :=
  if '\x00' ∈ path.toList then .error .zeroCharacter
  else if path = "" then .error .notFound
  else if pathLimit ≤ path.utf8ByteSize then .error .nameTooLong
  else .ok (splitPath path)

/-- The place above; the root is above itself. -/
def parent (place : Place) : Place :=
  if place = rootPlace then place
  else if isAbove place then place ++ [".."]
  else place.dropLast

/-- The place that one name leads to from `place`. -/
def stepInto (place : Place) (name : String) : Place :=
  if name = "" ∨ name = "." then place
  else if name = ".." then parent place
  else place ++ [name]

/-- Follows names from a place. -/
def resolveFrom (fs : Files) : Place → List String → Except FileFault Place
  | place, [] => .ok place
  | place, name :: rest => match fs.entryAt? place with
    | none => .error .notFound
    | some (.file _) => .error .notDirectory
    | some .directory =>
      if maxNameLength < name.utf8ByteSize then .error .nameTooLong
      else resolveFrom fs (stepInto place name) rest

/-- The place that a path leads to, whether or not something stands there. -/
def resolve (fs : Files) (path : String) : Except FileFault Place := do
  let (start, names) ← checkPath path
  fs.resolveFrom start names

/-- What a path leads to. -/
def find (fs : Files) (path : String) : Except FileFault Entry := do
  let place ← fs.resolve path
  match fs.entryAt? place with
  | some e => pure e
  | none => throw .notFound

def pathExists (fs : Files) (path : String) : Bool := (fs.find path).isOk

def isFile (fs : Files) (path : String) : Bool :=
  match fs.find path with
  | .ok (.file _) => true
  | _ => false

/-! ### Reading -/

/-- What a file delivers; a directory can be opened, but not read. -/
def openPath (fs : Files) (path : String) : Except FileFault (Feed FileFault) := do
  match ← fs.find path with
  | .file data => pure (.ofBytes data)
  | .directory => pure (.failed .isDirectory)

/-- The content of a file. -/
def read (fs : Files) (path : String) : Except FileFault ByteArray := do
  match ← fs.find path with
  | .file data => pure data
  | .directory => throw .isDirectory

/-- The content of a file that must be text. -/
def readText (fs : Files) (path : String) : Except FileFault String := do
  match String.fromUTF8? (← fs.read path) with
  | some s => pure s
  | none => throw .invalidText

/-! ### Writing -/

/-- Whether a path can only name a directory. -/
def endsInSlash (path : String) : Bool := path.toList.getLast? == some '/'

/-- The place where a file can be created or overwritten. -/
def writablePlace (fs : Files) (path : String) : Except FileFault Place := do
  let (start, names) ← checkPath path
  if endsInSlash path then
    let _ ← fs.resolveFrom start (names.dropLast)
    throw .isDirectory
  let place ← fs.resolveFrom start names
  match fs.entryAt? place with
  | some .directory => throw .isDirectory
  | _ => pure place

/-- Replaces or creates a file. -/
def write (fs : Files) (path : String) (data : ByteArray) : Except FileFault Files :=
  (fs.writablePlace path).map fun place => fs.put place (.file data)

/-- Creates the directories along names that are not there yet. -/
def ensureFrom (fs : Files) (place : Place) : List String → Except FileFault Files
  | [] => .ok fs
  | name :: rest =>
    let next := stepInto place name
    match fs.entryAt? next with
    | some .directory => ensureFrom fs next rest
    | some (.file _) =>
      if rest.all (· == "") then .error .alreadyExists else .error .notDirectory
    | none =>
      if maxNameLength < name.utf8ByteSize then .error .nameTooLong
      else ensureFrom (fs.put next .directory) next rest

/-- Creates a directory and those above it. -/
def makeDirectories (fs : Files) (path : String) : Except FileFault Files :=
  if path = "" then .ok fs
  else do
    let (start, names) ← checkPath path
    if start = rootPlace then (fs.resolveFrom start names).map fun _ => fs
    else fs.ensureFrom start names

/-- Replaces or creates a file and the directories above it. -/
def writeBelow (fs : Files) (path : String) (data : ByteArray) : Except FileFault Files := do
  let fs ← match Text.cutLast '/' path.toList with
    | some (above, _) => if above.isEmpty then pure fs else fs.makeDirectories (String.ofList above)
    | none => pure fs
  fs.write path data

/-- Puts an entry at the end of names, and directories along them. -/
def mountFrom (fs : Files) (e : Entry) (place : Place) : List String → Files
  | [] => fs
  | [name] => fs.put (stepInto place name) e
  | name :: rest => (fs.put (stepInto place name) .directory).mountFrom e (stepInto place name) rest

/-- Puts an entry at the end of a path, and directories along it. -/
def mount (fs : Files) (path : String) (e : Entry) : Files :=
  let (start, names) := splitPath path
  fs.mountFrom e start names

/-- Removes a file, or a directory with all in it. -/
def remove (fs : Files) (path : String) : Except FileFault Files := do
  let place ← fs.resolve path
  match fs.entryAt? place with
  | some _ => pure (fs.delete place)
  | none => throw .notFound

end Files

end ImageAssembly
