import ImageAssembly.Proofs.Gzip.Stored
import ImageAssembly.Proofs.Layer.Storage

/-! How layers are made: of given bytes, of given content or by the path of a file. However a layer was made, its
stored bytes tell whether it is compressed. -/

namespace ImageAssembly

open Workspace

namespace Layer

/-- The layers that store given bytes: made of the bytes themselves, of content that the bytes are a compressed form
of, or by opening a file that holds them. -/
inductive Made (stored : ByteArray) : Layer → Prop
  | ofBlob {l : MemoryLayer} (h : MemoryLayer.ofBlob stored = .ok l) : Made stored (.memory l)
  | compressed {content : ByteArray} (hmagic : Gzip.hasMagic stored = true)
    (h : Gzip.decompress stored = .ok content) :
    Made stored (.memory ⟨stored, .layerGzip, .sha256 stored, .sha256 content, rfl⟩)
  | openPath {path : String} {l : FileLayer} {w w' : Workspace} (hread : w.files.read path = .ok stored)
    (h : (FileLayer.openPath path).perform w = (.ok l, w')) : Made stored (.file l)

variable {l : Layer} {stored : ByteArray}

/-- A compressed layer of given content stores what the content is compressed to. -/
theorem made_ofTar (content : ByteArray) : Made (Gzip.compress content) (.memory (.ofTar content)) :=
  .compressed (Gzip.hasMagic_compress content) (Gzip.decompress_compress content)

/-- Bytes that begin like a gzip member make a layer just if they can be decompressed. -/
theorem ofBlob_of_hasMagic (h : Gzip.hasMagic stored = true) : MemoryLayer.ofBlob stored =
    match Gzip.decompress stored with
    | .ok plain => .ok ⟨stored, .layerGzip, .sha256 stored, .sha256 plain, rfl⟩
    | .error fault => .error (.decompress fault) := by
  unfold MemoryLayer.ofBlob
  rw [if_pos h]
  cases Gzip.decompress stored with
  | error fault => rfl
  | ok plain => rw [Feed.ofExcept, Feed.ofFeed_ofBytes]

/-- A layer of given bytes, taken apart. -/
theorem ofBlob_ok {l : MemoryLayer} (h : MemoryLayer.ofBlob stored = .ok l) : l.blob = stored ∧
    l.mediaType = (if Gzip.hasMagic stored then .layerGzip else .layer) ∧
    ∃ plain, plainContent (Gzip.hasMagic stored) stored = .ok plain ∧ l.diffId = .sha256 plain := by
  by_cases hmagic : Gzip.hasMagic stored
  · rw [ofBlob_of_hasMagic hmagic] at h
    rw [hmagic, plainContent]
    cases hd : Gzip.decompress stored with
    | error fault =>
      rw [hd] at h
      cases h
    | ok plain =>
      rw [hd] at h
      cases h
      exact ⟨rfl, rfl, plain, rfl, rfl⟩
  · rw [MemoryLayer.ofBlob, if_neg hmagic] at h
    cases h
    exact ⟨rfl, by rw [if_neg hmagic], stored, by rw [plainContent, if_neg hmagic], rfl⟩

/-- A file is opened as a layer of the type that its first bytes tell. -/
theorem perform_openPath {path : String} {w : Workspace} (hread : w.files.read path = .ok stored) :
    (FileLayer.openPath path).perform w =
      (.ok ⟨w.memos.length, path, if Gzip.hasMagic stored then .layerGzip else .layer⟩,
        ⟨w.files, w.memos ++ [default]⟩) := by
  have htake : (Feed.ofBytes stored).take 2 .empty = (.ok (stored.extract 0 2) : Except FileFault ByteArray) := by
    rw [Feed.ofBytes, Feed.take_ofBytesFrom, ByteArray.empty_append, ByteArray.extract_zero_size]
  rw [FileLayer.openPath, Action.perform_bind, Action.perform_mapFault, Action.perform_ofFiles,
    Files.openPath_of_read hread]
  simp only [Except.mapError, Action.perform_bind, Action.perform_ofExcept, htake, Gzip.hasMagic_extract]
  rfl

/-- A layer file that has been opened, taken apart. -/
theorem openPath_ok {path : String} {l : FileLayer} {w w' : Workspace} (hread : w.files.read path = .ok stored)
    (h : (FileLayer.openPath path).perform w = (.ok l, w')) :
    l.path = path ∧ l.mediaType = if Gzip.hasMagic stored then .layerGzip else .layer := by
  rw [perform_openPath hread, Prod.mk.injEq, Except.ok.injEq] at h
  rw [← h.1]
  exact ⟨rfl, rfl⟩

/-- The stored bytes of a layer tell its type. -/
theorem Made.mediaType (h : Made stored l) :
    l.mediaType = if Gzip.hasMagic stored then .layerGzip else .layer := by
  cases h with
  | ofBlob h => exact (ofBlob_ok h).2.1
  | compressed hmagic _ => rw [if_pos hmagic]; rfl
  | openPath hread h => exact (openPath_ok hread h).2

/-- The type that stored bytes tell is that of compressed layers just if they begin like one. -/
theorem mediaType_bne (stored : ByteArray) :
    ((if Gzip.hasMagic stored then .layerGzip else .layer : MediaType) != .layer) = Gzip.hasMagic stored := by
  cases Gzip.hasMagic stored <;> rfl

/-! ### Layers whose files stay -/

/-- Whether the file of a layer holds given bytes, and all that is remembered of it was computed of them. -/
def Unchanged (w : Workspace) (stored : ByteArray) : Layer → Prop
  | .memory _ => True
  | .file l => w.files.read l.path = .ok stored ∧
    (∀ s, (w.memo l.id).stored = some s → s = (.sha256 stored, stored.size)) ∧
    ∀ d, (w.memo l.id).diffId = some d → ∃ plain, plainContent l.isCompressed stored = .ok plain ∧ d = .sha256 plain

/-- Whether the file of a layer holds given bytes, and is not at a place. -/
def HeldApart (fs : Files) (place : Place) (stored : ByteArray) : Layer → Prop
  | .memory _ => True
  | .file l => fs.HoldsApart place l.path stored

end Layer

end ImageAssembly
