import ImageAssembly.Configuration.Basic

/-! Laying one description over another. Maps are overlaid key by key, volumes are joined without
repetition, the entrypoint is replaced as a whole, and a text that is set replaces the old one. -/

namespace ImageAssembly.Configuration

/-- The text `upper` if it is set, else `lower`. -/
def overText (lower upper : String) : String := if upper = "" then lower else upper

/-- Adds the texts that are not there yet at the end, in turn. -/
def addNew (old : List String) (more : List String) : List String :=
  more.foldl (fun vs v => if v ∈ vs then vs else vs ++ [v]) old

def overVolumes (lower upper : Option (List String)) : Option (List String) :=
  match upper with
  | none => lower
  | some vs => some (addNew (lower.getD []) vs)

def overEntrypoint (lower upper : Entrypoint) : Entrypoint :=
  if upper.command ≠ "" ∨ upper.shellFragment ≠ "" then upper else lower

/-- What is set in `source` takes the place of what `target` says. -/
def overlay (target source : Configuration) : Configuration where
  annotations := target.annotations.overlay source.annotations
  vcsUrl := overText target.vcsUrl source.vcsUrl
  entrypoint := overEntrypoint target.entrypoint source.entrypoint
  cmd := overText target.cmd source.cmd
  workDir := overText target.workDir source.workDir
  volumes := overVolumes target.volumes source.volumes
  environment := target.environment.overlay source.environment
  accounts := ⟨overText target.accounts.runAs source.accounts.runAs⟩
  stopSignal := overText target.stopSignal source.stopSignal

/-- Lays a description that keeps the rules over `target`. -/
def mergeInto (source target : Configuration) : Except Fault Configuration :=
  match source.validate with
  | .error fault => .error fault
  | .ok () => .ok (overlay target source)

/-- The description laid over the empty one. -/
def workingCopy (c : Configuration) : Except Fault Configuration := c.mergeInto {}

end ImageAssembly.Configuration
