import ImageAssembly.Digest
import ImageAssembly.Files

/-! The state that work on images changes: the files, and what has been computed of the layers that
are backed by files. -/

namespace ImageAssembly

/-- What is remembered of a layer file. -/
structure Memo where
  /-- The digest and the size of the stored bytes. -/
  stored : Option (Digest × Nat) := none
  /-- The digest of the uncompressed content. -/
  diffId : Option Digest := none
  deriving DecidableEq, Inhabited

/-- The files, and a memo for each layer that has been opened. -/
structure Workspace where
  files : Files
  memos : List Memo

namespace Workspace

def empty : Workspace := ⟨.empty, []⟩

/-- The memo of a layer. -/
def memo (w : Workspace) (id : Nat) : Memo := w.memos.getD id {}

def setMemo (w : Workspace) (id : Nat) (m : Memo) : Workspace := { w with memos := w.memos.set id m }

end Workspace

/-- Work that may fail; what it has changed up to a failure stays changed. -/
abbrev Action (ε α : Type) := ExceptT ε (StateM Workspace) α

namespace Action

variable {ε δ α : Type}

/-- Does the work in a workspace. -/
def perform (a : Action ε α) (w : Workspace) : Except ε α × Workspace := a.run.run w

/-- Something that only depends on the files. -/
def ofFiles (f : Files → Except ε α) : Action ε α := do
  let w ← get
  ExceptT.mk (pure (f w.files))

def ofExcept (x : Except ε α) : Action ε α := ExceptT.mk (pure x)

/-- The work with another view of its faults. -/
def mapFault (f : ε → δ) (a : Action ε α) : Action δ α := ExceptT.adapt f a

/-- Replaces the files. -/
def setFiles (fs : Files) : Action ε Unit := modify fun w => { w with files := fs }

end Action

end ImageAssembly
