import ImageAssembly.Configuration.Json
import ImageAssembly.Yaml.Decode

/-! Image descriptions as YAML. Every field may be left out, and unknown ones are passed over. -/

namespace ImageAssembly

open Yaml (Anchors Path Node Decoded)

namespace Entrypoint

def readEntry (anchors : Anchors) (s : Fields) (key : String) (path : Path) (n : Node) : Decoded Fields :=
  if key = "command" then do
    return { s with command := ← Node.once key s.command (Node.text anchors) path n }
  else if key = "shell-fragment" then do
    return { s with shellFragment := ← Node.once key s.shellFragment (Node.text anchors) path n }
  else n.skip s

def ofNode (anchors : Anchors) (path : Path) (n : Node) : Decoded Entrypoint :=
  (n.record anchors "struct ImageEntrypoint" (readEntry anchors) {} path).map fun s =>
    ⟨s.command.getD "", s.shellFragment.getD ""⟩

end Entrypoint

namespace Accounts

def readEntry (anchors : Anchors) (s : Option String) (key : String) (path : Path) (n : Node) :
    Decoded (Option String) :=
  if key = "run-as" then Node.once key s (Node.text anchors) path n else n.skip s

def ofNode (anchors : Anchors) (path : Path) (n : Node) : Decoded Accounts :=
  (n.record anchors "struct ImageAccounts" (readEntry anchors) none path).map fun s => ⟨s.getD ""⟩

end Accounts

namespace Configuration

def readEntry (anchors : Anchors) (s : Fields) (key : String) (path : Path) (n : Node) : Decoded Fields :=
  let text := Node.text anchors
  let dictionary := Node.dictionaryOfText anchors
  if key = "annotations" then do
    return { s with annotations := ← Node.once key s.annotations dictionary path n }
  else if key = "vcs-url" then do return { s with vcsUrl := ← Node.once key s.vcsUrl text path n }
  else if key = "entrypoint" then do
    return { s with entrypoint := ← Node.once key s.entrypoint (Entrypoint.ofNode anchors) path n }
  else if key = "cmd" then do return { s with cmd := ← Node.once key s.cmd text path n }
  else if key = "work-dir" then do return { s with workDir := ← Node.once key s.workDir text path n }
  else if key = "volumes" then do
    return { s with
      volumes := ← Node.once key s.volumes (Node.optional anchors (Node.list anchors text)) path n }
  else if key = "environment" then do
    return { s with environment := ← Node.once key s.environment dictionary path n }
  else if key = "accounts" then do
    return { s with accounts := ← Node.once key s.accounts (Accounts.ofNode anchors) path n }
  else if key = "stop-signal" then do
    return { s with stopSignal := ← Node.once key s.stopSignal text path n }
  else n.skip s

def ofNode (anchors : Anchors) (path : Path) (n : Node) : Decoded Configuration :=
  (n.record anchors "struct ImageConfiguration" (readEntry anchors) {} path).map Fields.complete

/-- Reads a description; an empty text is the empty description. -/
def ofYaml (text : String) : Decoded Configuration := Yaml.decodeText ofNode {} text

end Configuration

end ImageAssembly
