import ImageAssembly.CommandLine.Commands

/-! The program: brings the files that a request looks at into a workspace, does the work there, and puts
what has been written back. -/

namespace ImageAssembly

/-- The code of a path that is a directory where a file is read. -/
def directoryCode : UInt32 := 21

/-- Brings what stands at a path into the files; a path that cannot be read is left out. -/
def fetch (fs : Files) (path : String) : IO Files := do
  try
    return fs.mount path (.file (← IO.FS.readBinFile path))
  catch
    | .inappropriateType _ code _ =>
      return if code = directoryCode then fs.mount path .directory else fs
    | _ => return fs

/-- The directory that a path leads through last. -/
def directoryOf (path : String) : Option String :=
  (Text.cutLast '/' path.toList).map fun (above, _) => String.ofList above

/-- Brings everything that a request looks at. A layout tells its files in three rounds. -/
def fetchAll (request : CommandLine.BuildRequest) : IO Files := do
  let mut fs ← (directoryOf request.output).toList.foldlM fetch .empty
  for _ in [0, 1, 2] do
    fs ← (request.sources fs).foldlM fetch fs
  return fs

/-- Puts a file back if it has become another. -/
def putBack (before after : Files) (path : String) : IO Unit :=
  match after.read path with
  | .error _ => pure ()
  | .ok data =>
    if (before.read path).toOption == some data then pure () else IO.FS.writeBinFile path data

end ImageAssembly

open ImageAssembly in
def main (arguments : List String) : IO UInt32 := do
  let epoch ← IO.getEnv Time.SourceDate.variableName
  let (files, output) ← match CommandLine.read arguments with
    | .ok (.build request) => do pure (← fetchAll request, some request.output)
    | _ => pure (.empty, none)
  let (outcome, w) := (CommandLine.run arguments epoch).perform ⟨files, []⟩
  if let some path := output then putBack files w.files path
  match outcome with
  | .ok text =>
    IO.print text
    return 0
  | .error (.usage usage) =>
    if usage = .help ∨ usage = .version then
      IO.println usage.message
      return 0
    IO.eprintln usage.message
    return 2
  | .error failure =>
    IO.eprintln ("Error: " ++ failure.message)
    return 1
