import ImageAssembly.Proofs.Files.Overwriting
import ImageAssembly.Proofs.Hash.Pieces
import ImageAssembly.Proofs.Layer.Learning

/-! The stored bytes of layers. A layer in memory has them at hand; the file of another has to hold them apart
from the place that is being written, and what is remembered of it has to be true. -/

namespace ImageAssembly

open Workspace

namespace Layer

variable {w w' : Workspace} {place : Place} {l : Layer} {b : ByteArray} {layers : List Layer}

theorem freshStored_eq {l : FileLayer} (h : w.files.openPath l.path = .ok (.ofBytes b)) :
    l.freshStored w.files = .ok (.sha256 b, b.size) := by
  rw [FileLayer.freshStored, h]
  change (Digest.ofFeed (Feed.ofBytes b)).mapError _ = _
  rw [Feed.ofFeed_ofBytes]
  rfl

/-- The uncompressed content of stored bytes. -/
def plainContent (compressed : Bool) (stored : ByteArray) : Except Gzip.Fault ByteArray :=
  if compressed then Gzip.decompress stored else .ok stored

/-- The diff id of a file is the digest of its uncompressed content. -/
theorem freshDiffId_eq_ok {l : FileLayer} {d : Digest} (h : w.files.openPath l.path = .ok (.ofBytes b)) :
    l.freshDiffId w.files = .ok d ↔ ∃ plain, plainContent l.isCompressed b = .ok plain ∧ d = .sha256 plain := by
  have hcontent : l.uncompressed (.ofBytes b) = Feed.ofExcept ((plainContent l.isCompressed b).mapError .gzip) := by
    rw [FileLayer.uncompressed, Feed.fold_append_ofBytes, plainContent]
    dsimp only
    split_ifs <;> rfl
  rw [FileLayer.freshDiffId, h]
  simp only [Except.mapError, hcontent]
  cases plainContent l.isCompressed b with
  | error fault => simp [Feed.ofExcept, Digest.ofFeed, Feed.fold, Except.map]
  | ok plain =>
    simp only [Feed.ofExcept, Feed.ofFeed_ofBytes, Except.ok.injEq, exists_eq_left']
    exact eq_comm

/-! ### Bytes that are delivered -/

/-- Whether bytes are what a layer delivers, and what is remembered of its stored bytes is true of them. -/
def Delivers (w : Workspace) (b : ByteArray) : Layer → Prop
  | .memory l => l.blob = b
  | .file l => w.files.read l.path = .ok b ∧ ∀ s, (w.memo l.id).stored = some s → s = (.sha256 b, b.size)

theorem Delivers.digestAndSize {l : FileLayer} (h : (Layer.file l).Delivers w b) :
    (l.digestAndSize.perform w).1 = .ok (.sha256 b, b.size) := by
  rw [l.recalls_digestAndSize w]
  cases hm : (w.memo l.id).stored with
  | some s => rw [h.2 s hm]
  | none => rw [freshStored_eq (Files.openPath_of_read h.1)]

/-- A layer tells the digest of the bytes that it delivers. -/
theorem Delivers.digest (h : l.Delivers w b) : (l.digest.perform w).1 = .ok (.sha256 b) := by
  cases l with
  | memory l =>
    have hb : l.blob = b := h
    rw [Layer.digest, Action.perform_pure, l.digest_eq, hb]
  | file l =>
    have hs := h.digestAndSize
    rw [Layer.digest, Action.perform_bind]
    rcases hp : l.digestAndSize.perform w with ⟨_ | x, w1⟩
    · simp [hp] at hs
    · rw [hp] at hs
      cases hs
      rfl

theorem Delivers.size (h : l.Delivers w b) : (l.size.perform w).1 = .ok b.size := by
  cases l with
  | memory l =>
    have hb : l.blob = b := h
    rw [Layer.size, Action.perform_pure, hb]
  | file l =>
    have hs := h.digestAndSize
    rw [Layer.size, Action.perform_bind]
    rcases hp : l.digestAndSize.perform w with ⟨_ | x, w1⟩
    · simp [hp] at hs
    · rw [hp] at hs
      cases hs
      rfl

theorem Delivers.contents (h : l.Delivers w b) : l.contents.perform w = (.ok (.ofBytes b), w) := by
  cases l with
  | memory l =>
    have hb : l.blob = b := h
    rw [Layer.contents, Action.perform_pure, hb]
  | file l =>
    rw [Layer.contents, Action.perform_mapFault, Action.perform_ofFiles, Files.openPath_of_read h.1]
    rfl

theorem Delivers.unique {b' : ByteArray} (h : l.Delivers w b) (h' : l.Delivers w b') : b = b' := by
  cases l with
  | memory l => exact Eq.trans (Eq.symm h) h'
  | file l => exact Except.ok.inj (h.1.symm.trans h'.1)

/-- What is known of a layer is true of the bytes that it delivers. -/
theorem Delivers.knows {s : Digest × Nat} (h : l.Delivers w b) (hs : l.Knows w s) : s = (.sha256 b, b.size) := by
  cases l with
  | memory l =>
    have hb : l.blob = b := h
    rw [show s = _ from hs, l.digest_eq, hb]
  | file l => exact h.2 s hs

/-- What is delivered stays while layers are asked. -/
theorem Delivers.learns (h : l.Delivers w b) (hl : l ∈ layers) (hw : Learns layers w w') : l.Delivers w' b := by
  cases l with
  | memory l => exact h
  | file l =>
    refine ⟨by rw [hw.files]; exact h.1, fun s hs => ?_⟩
    rcases hw.stored l hl s hs with hs | hs
    · exact h.2 s hs
    · rw [freshStored_eq (Files.openPath_of_read h.1), Except.ok.injEq] at hs
      exact hs.symm

/-! ### Bytes that are stored -/

/-- Whether bytes are those that a layer stores, whatever is written at a place. -/
def Stores (w : Workspace) (place : Place) (b : ByteArray) : Layer → Prop
  | .memory l => l.blob = b
  | .file l => w.files.HoldsApart place l.path b ∧ ∀ s, (w.memo l.id).stored = some s → s = (.sha256 b, b.size)

/-- Stored bytes stay while the file at the place is overwritten. -/
theorem Stores.put {data : ByteArray} (h : l.Stores w place b) (hd : w.files.entryAt? place ≠ some .directory) :
    l.Stores { w with files := w.files.put place (.file data) } place b := by
  cases l with
  | memory l => exact h
  | file l => exact ⟨h.1.put hd, h.2⟩

/-- A layer that stores bytes delivers them. -/
theorem Stores.delivers (h : l.Stores w place b) : l.Delivers w b := by
  cases l with
  | memory l => exact h
  | file l => exact ⟨h.1.read, h.2⟩

/-- Stored bytes stay while layers are asked. -/
theorem Stores.learns (h : l.Stores w place b) (hl : l ∈ layers) (hw : Learns layers w w') :
    l.Stores w' place b := by
  have hdelivers := h.delivers.learns hl hw
  cases l with
  | memory l => exact h
  | file l => exact ⟨by rw [hw.files]; exact h.1, hdelivers.2⟩

/-- A layer tells the digest of its stored bytes. -/
theorem Stores.digest (h : l.Stores w place b) : (l.digest.perform w).1 = .ok (.sha256 b) := h.delivers.digest

theorem Stores.size (h : l.Stores w place b) : (l.size.perform w).1 = .ok b.size := h.delivers.size

theorem Stores.contents (h : l.Stores w place b) : l.contents.perform w = (.ok (.ofBytes b), w) := h.delivers.contents

end Layer

/-- Whether layers, each with a memo of its own, store given bytes, whatever is written at a place, where no
directory stands. -/
structure Faithful (w : Workspace) (place : Place) (layers : List Layer) (content : Layer → ByteArray) : Prop where
  own : OwnMemos layers
  notDirectory : w.files.entryAt? place ≠ some .directory
  stores : ∀ l ∈ layers, l.Stores w place (content l)

namespace Faithful

variable {w w' : Workspace} {place : Place} {layers : List Layer} {content : Layer → ByteArray}

theorem put (h : Faithful w place layers content) (data : ByteArray) :
    Faithful { w with files := w.files.put place (.file data) } place layers content where
  own := h.own
  notDirectory := by
    rw [Files.entryAt?_put_self _ h.notDirectory]
    simp
  stores l hl := (h.stores l hl).put h.notDirectory

theorem learns (h : Faithful w place layers content) (hw : Learns layers w w') :
    Faithful w' place layers content where
  own := h.own
  notDirectory := by
    rw [hw.files]
    exact h.notDirectory
  stores l hl := (h.stores l hl).learns hl hw

end Faithful

end ImageAssembly
