import ImageAssembly.Architecture
import ImageAssembly.Configuration.Basic
import ImageAssembly.Json.Decode
import ImageAssembly.Json.Encode

/-! Image descriptions and platforms as JSON. Every field may be left out, and a record may be given as
an array of its first fields. -/

namespace ImageAssembly

open Json

namespace Entrypoint

def encode (e : Entrypoint) : Value :=
  .object (member "command" (.string e.command) ++ member "shell-fragment" (.string e.shellFragment))

/-- The fields read so far. -/
structure Fields where
  command : Option String := none
  shellFragment : Option String := none

def Fields.read (s : Fields) (key : String) (t : Tree) : Decoded Fields :=
  if key = "command" then do return { s with command := ← once key s.command Tree.text t }
  else if key = "shell-fragment" then do
    return { s with shellFragment := ← once key s.shellFragment Tree.text t }
  else t.skip s

def ofItems (ts : List Tree) (closed : Bool) : Decoded Entrypoint := do
  let (command, ts) ← nextItem Tree.text (.ok "") closed ts
  let (shellFragment, ts) ← nextItem Tree.text (.ok "") closed ts
  noMoreItems closed ⟨command, shellFragment⟩ ts

def decode : Tree → Decoded Entrypoint
  | .object ms closed => (Tree.members Fields.read {} ms).bind fun s =>
    Tree.closedOr closed ⟨s.command.getD "", s.shellFragment.getD ""⟩
  | .array ts closed => ofItems ts closed
  | t => t.mismatch "struct ImageEntrypoint"

end Entrypoint

namespace Accounts

def encode (a : Accounts) : Value := .object (member "run-as" (.string a.runAs))

def read (s : Option String) (key : String) (t : Tree) : Decoded (Option String) :=
  if key = "run-as" then once key s Tree.text t else t.skip s

def ofItems (ts : List Tree) (closed : Bool) : Decoded Accounts := do
  let (runAs, ts) ← nextItem Tree.text (.ok "") closed ts
  noMoreItems closed ⟨runAs⟩ ts

def decode : Tree → Decoded Accounts
  | .object ms closed =>
    (Tree.members read none ms).bind fun s => Tree.closedOr closed ⟨s.getD ""⟩
  | .array ts closed => ofItems ts closed
  | t => t.mismatch "struct ImageAccounts"

end Accounts

namespace Configuration

def encode (c : Configuration) : Value :=
  .object (member "annotations" (dictionaryValue .string c.annotations)
    ++ member "vcs-url" (.string c.vcsUrl)
    ++ member "entrypoint" c.entrypoint.encode
    ++ member "cmd" (.string c.cmd)
    ++ member "work-dir" (.string c.workDir)
    ++ member "volumes" ((c.volumes.map (listValue .string)).getD .null)
    ++ member "environment" (dictionaryValue .string c.environment)
    ++ member "accounts" c.accounts.encode
    ++ member "stop-signal" (.string c.stopSignal))

/-- The fields read so far. -/
structure Fields where
  annotations : Option (Dictionary String) := none
  vcsUrl : Option String := none
  entrypoint : Option Entrypoint := none
  cmd : Option String := none
  workDir : Option String := none
  volumes : Option (Option (List String)) := none
  environment : Option (Dictionary String) := none
  accounts : Option Accounts := none
  stopSignal : Option String := none

/-- The fields that were not read stay unset. -/
def Fields.complete (s : Fields) : Configuration where
  annotations := s.annotations.getD .empty
  vcsUrl := s.vcsUrl.getD ""
  entrypoint := s.entrypoint.getD {}
  cmd := s.cmd.getD ""
  workDir := s.workDir.getD ""
  volumes := s.volumes.getD none
  environment := s.environment.getD .empty
  accounts := s.accounts.getD {}
  stopSignal := s.stopSignal.getD ""

def Fields.read (s : Fields) (key : String) (t : Tree) : Decoded Fields :=
  if key = "annotations" then do
    return { s with annotations := ← once key s.annotations Tree.dictionaryOfText t }
  else if key = "vcs-url" then do return { s with vcsUrl := ← once key s.vcsUrl Tree.text t }
  else if key = "entrypoint" then do
    return { s with entrypoint := ← once key s.entrypoint Entrypoint.decode t }
  else if key = "cmd" then do return { s with cmd := ← once key s.cmd Tree.text t }
  else if key = "work-dir" then do return { s with workDir := ← once key s.workDir Tree.text t }
  else if key = "volumes" then do
    return { s with volumes := ← once key s.volumes (Tree.optional (Tree.list Tree.text)) t }
  else if key = "environment" then do
    return { s with environment := ← once key s.environment Tree.dictionaryOfText t }
  else if key = "accounts" then do
    return { s with accounts := ← once key s.accounts Accounts.decode t }
  else if key = "stop-signal" then do
    return { s with stopSignal := ← once key s.stopSignal Tree.text t }
  else t.skip s

def ofItems (ts : List Tree) (closed : Bool) : Decoded Configuration := do
  let (annotations, ts) ← nextItem Tree.dictionaryOfText (.ok .empty) closed ts
  let (vcsUrl, ts) ← nextItem Tree.text (.ok "") closed ts
  let (entrypoint, ts) ← nextItem Entrypoint.decode (.ok {}) closed ts
  let (cmd, ts) ← nextItem Tree.text (.ok "") closed ts
  let (workDir, ts) ← nextItem Tree.text (.ok "") closed ts
  let (volumes, ts) ← nextItem (Tree.optional (Tree.list Tree.text)) (.ok none) closed ts
  let (environment, ts) ← nextItem Tree.dictionaryOfText (.ok .empty) closed ts
  let (accounts, ts) ← nextItem Accounts.decode (.ok {}) closed ts
  let (stopSignal, ts) ← nextItem Tree.text (.ok "") closed ts
  noMoreItems closed
    ⟨annotations, vcsUrl, entrypoint, cmd, workDir, volumes, environment, accounts, stopSignal⟩ ts

def decode : Tree → Decoded Configuration
  | .object ms closed =>
    (Tree.members Fields.read {} ms).bind fun s => Tree.closedOr closed s.complete
  | .array ts closed => ofItems ts closed
  | t => t.mismatch "struct ImageConfiguration"

end Configuration

namespace Architecture

def encode (a : Architecture) : Value :=
  .object (member "architecture" (.string a.name) ++ textMember "variant" a.variant)

/-- The fields read so far. -/
structure Fields where
  name : Option String := none
  variant : Option String := none

def Fields.read (s : Fields) (key : String) (t : Tree) : Decoded Fields :=
  if key = "architecture" then do return { s with name := ← once key s.name Tree.text t }
  else if key = "variant" then do return { s with variant := ← once key s.variant Tree.text t }
  else t.skip s

def Fields.complete (s : Fields) : Decoded Architecture := do
  let name ← required "architecture" s.name
  return ⟨name, s.variant.getD ""⟩

def ofItems (ts : List Tree) (closed : Bool) : Decoded Architecture := do
  let (name, ts) ← nextItem Tree.text
    (.error (.invalidLength 0 "struct Platform with 2 elements")) closed ts
  let (variant, ts) ← nextItem Tree.text (.ok "") closed ts
  noMoreItems closed ⟨name, variant⟩ ts

/-- A record, or an array of its fields. -/
def decode : Tree → Decoded Architecture
  | .object ms closed =>
    (Tree.members Fields.read {} ms).bind fun s => (Tree.closedOr closed s).bind Fields.complete
  | .array ts closed => ofItems ts closed
  | t => t.mismatch "struct Platform"

end Architecture

end ImageAssembly
