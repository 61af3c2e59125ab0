import ImageAssembly.Proofs.InStep
import ImageAssembly.Proofs.Layer.Making

/-! Layers that keep their bytes, in memory or in a file. What such a layer tells depends on the bytes and on the
type under which they are kept, and on nothing else about it. -/

namespace ImageAssembly

open Workspace

namespace Layer

variable {w w' v : Workspace} {l : Layer} {b : ByteArray} {t : MediaType} {layers : List Layer} {place : Place}

/-! ### Memos -/

/-- Whether the same is remembered of a layer. -/
def SameMemo (l : Layer) (w v : Workspace) : Prop :=
  match l with
  | .memory _ => True
  | .file l => v.memo l.id = w.memo l.id

theorem SameMemo.refl (l : Layer) (w : Workspace) : l.SameMemo w w := by
  cases l <;> trivial

theorem SameMemo.symm (h : l.SameMemo w v) : l.SameMemo v w := by
  cases l with
  | memory l => trivial
  | file l => exact Eq.symm h

theorem SameMemo.trans {u : Workspace} (h : l.SameMemo w v) (h' : l.SameMemo v u) : l.SameMemo w u := by
  cases l with
  | memory l => trivial
  | file l => exact Eq.trans h' h

/-- Whether what is remembered of one layer is remembered of another as well. -/
def SharesMemo : Layer → Layer → Prop
  | .file l, .file k => l.id = k.id
  | _, _ => False

theorem eq_of_sharesMemo {k : Layer} (own : OwnMemos layers) (hl : l ∈ layers) (hk : k ∈ layers)
    (h : l.SharesMemo k) : l = k := by
  cases l with
  | memory l => exact h.elim
  | file l => cases k with
    | memory k => exact h.elim
    | file k => rw [own l k hl hk h]

/-- Whether nothing is learnt of any layer but one. -/
def Touches (l : Layer) (w w' : Workspace) : Prop := ∀ k : Layer, ¬ l.SharesMemo k → k.SameMemo w w'

instance (l : Layer) : IsPreorder Workspace l.Touches where
  refl w k _ := .refl k w
  trans _ _ _ h h' k hk := (h k hk).trans (h' k hk)

theorem touches_setMemo (l : FileLayer) (m : Memo) : (file l).Touches w (w.setMemo l.id m) := by
  intro k hk
  cases k with
  | memory k => trivial
  | file k =>
    change (w.setMemo l.id m).memo k.id = _
    rw [memo_setMemo, if_neg fun h => hk h.1]

theorem asks_touches (l : Layer) : l.Asks l.Touches := by
  cases l with
  | memory l => exact asks_memory _ l
  | file l =>
    exact asks_file (l.recalls_digestAndSize.leads fun _ _ _ _ => touches_setMemo l _)
      (l.recalls_diffId.leads fun _ _ _ _ => touches_setMemo l _)

/-! ### Files that stay unchanged -/

/-- A file stays unchanged while layers are asked. -/
theorem Unchanged.learns (h : l.Unchanged w b) (hl : l ∈ layers) (hw : Learns layers w w') : l.Unchanged w' b := by
  cases l with
  | memory l => trivial
  | file l =>
    obtain ⟨hread, hstored, hdiffId⟩ := h
    have hopen := Files.openPath_of_read hread
    refine ⟨by rw [hw.files]; exact hread, fun s hs => ?_, fun d hd => ?_⟩
    · rcases hw.stored l hl s hs with hs | hs
      · exact hstored s hs
      · rw [freshStored_eq hopen, Except.ok.injEq] at hs
        exact hs.symm
    · rcases hw.diffId l hl d hd with hd | hd
      · exact hdiffId d hd
      · exact (freshDiffId_eq_ok hopen).1 hd

/-- In particular while the layer itself is asked. -/
theorem Unchanged.asks (l : Layer) (b : ByteArray) : l.Asks fun w w' => l.Unchanged w b → l.Unchanged w' b := by
  have own : OwnMemos [l] := by
    intro a c ha hc _
    simp only [List.mem_singleton] at ha hc
    exact Layer.file.inj (ha.trans hc.symm)
  have hl : l ∈ [l] := by simp
  have hasks := asks_learns hl own
  exact ⟨fun w h => h.learns hl (hasks.digest w), fun w h => h.learns hl (hasks.size w),
    fun w h => h.learns hl (hasks.diffId w)⟩

theorem Unchanged.put {data : ByteArray} (h : l.Unchanged w b) (hapart : l.HeldApart w.files place b)
    (hd : w.files.entryAt? place ≠ some .directory) :
    l.Unchanged { w with files := w.files.put place (.file data) } b := by
  cases l with
  | memory l => trivial
  | file l =>
    have hheld : w.files.HoldsApart place l.path b := hapart
    exact ⟨(hheld.put hd).read, h.2⟩

/-- Only the files and what is remembered of the layer count. -/
theorem Unchanged.congr (h : l.Unchanged w b) (hf : v.files = w.files) (hm : l.SameMemo w v) : l.Unchanged v b := by
  cases l with
  | memory l => trivial
  | file l =>
    have hmemo : v.memo l.id = w.memo l.id := hm
    rw [Unchanged, hf, hmemo]
    exact h

theorem HeldApart.put {data : ByteArray} (h : l.HeldApart w.files place b)
    (hd : w.files.entryAt? place ≠ some .directory) : l.HeldApart (w.files.put place (.file data)) place b := by
  cases l with
  | memory l => trivial
  | file l =>
    have hheld : w.files.HoldsApart place l.path b := h
    exact hheld.put hd

/-! ### Layers that keep bytes -/

/-- Whether a layer keeps given bytes under a type, and all that is recorded or remembered of it is true of them. -/
def Keeps (w : Workspace) (b : ByteArray) (t : MediaType) : Layer → Prop
  | .memory l => l.blob = b ∧ l.mediaType = t ∧
    ∃ plain, plainContent (t != .layer) b = .ok plain ∧ l.diffId = .sha256 plain
  | .file l => l.mediaType = t ∧ (file l).Unchanged w b

namespace Keeps

theorem mediaType (h : l.Keeps w b t) : l.mediaType = t := by
  cases l with
  | memory l => exact h.2.1
  | file l => exact h.1

theorem delivers (h : l.Keeps w b t) : l.Delivers w b := by
  cases l with
  | memory l => exact h.1
  | file l => exact ⟨h.2.1, h.2.2.1⟩

/-- The diff id is the digest of the uncompressed bytes, if there is one. -/
theorem diffId (h : l.Keeps w b t) : Matched Fault.kind (fun d plain => d = .sha256 plain) (l.diffId.perform w).1
    ((plainContent (t != .layer) b).mapError .decompress) := by
  cases l with
  | memory l =>
    obtain ⟨-, -, plain, hplain, hd⟩ := h
    rw [hplain]
    exact .ok hd
  | file l =>
    obtain ⟨rfl, hread, -, hmemo⟩ := h
    have hfresh := fun d => freshDiffId_eq_ok (d := d) (Files.openPath_of_read hread)
    cases ho : ((file l).diffId.perform w).1 with
    | ok d =>
      obtain ⟨plain, hplain, rfl⟩ : ∃ plain, plainContent l.isCompressed b = .ok plain ∧ d = .sha256 plain := by
        rcases l.recalls_diffId.known_or_found (Prod.ext ho rfl) with ⟨hknown, -⟩ | ⟨hfound, -⟩
        · exact hmemo d hknown
        · exact (hfresh d).1 hfound
      rw [show plainContent (l.mediaType != .layer) b = .ok plain from hplain]
      exact .ok rfl
    | error fault =>
      have hkind := kind_of_diffId_error ho
      cases hplain : plainContent (l.mediaType != .layer) b with
      | error fault' => exact .error hkind
      | ok plain =>
        -- content that can be uncompressed has a digest
        obtain ⟨d, hd⟩ := (tellsDiffId_file_iff l).2 (.inr ⟨_, (hfresh _).2 ⟨plain, hplain, rfl⟩⟩)
        rw [ho] at hd
        cases hd

/-- What is known of the content is true of it. -/
theorem knowsDiffId {d : Digest} (h : l.Keeps w b t) (hd : l.KnowsDiffId w d) :
    ∃ plain, plainContent (t != .layer) b = .ok plain ∧ d = .sha256 plain := by
  cases l with
  | memory l =>
    obtain ⟨-, -, plain, hplain, hdiffId⟩ := h
    exact ⟨plain, hplain, hd.trans hdiffId⟩
  | file l =>
    obtain ⟨rfl, -, -, hmemo⟩ := h
    exact hmemo d hd

theorem learns (h : l.Keeps w b t) (hl : l ∈ layers) (hw : Learns layers w w') : l.Keeps w' b t := by
  cases l with
  | memory l => exact h
  | file l => exact ⟨h.1, h.2.learns hl hw⟩

theorem put {data : ByteArray} (h : l.Keeps w b t) (hapart : l.HeldApart w.files place b)
    (hd : w.files.entryAt? place ≠ some .directory) :
    l.Keeps { w with files := w.files.put place (.file data) } b t := by
  cases l with
  | memory l => exact h
  | file l => exact ⟨h.1, h.2.put hapart hd⟩

theorem congr (h : l.Keeps w b t) (hf : v.files = w.files) (hm : l.SameMemo w v) : l.Keeps v b t := by
  cases l with
  | memory l => exact h
  | file l => exact ⟨h.1, h.2.congr hf hm⟩

end Keeps

/-- A layer that was made of bytes keeps them while its file does, under the type that they tell. -/
theorem Made.keeps (h : Made b l) (hu : l.Unchanged w b) :
    l.Keeps w b (if Gzip.hasMagic b then .layerGzip else .layer) := by
  have htype := h.mediaType
  cases h with
  | ofBlob h =>
    obtain ⟨hb, -, hplain⟩ := ofBlob_ok h
    exact ⟨hb, htype, by rw [mediaType_bne]; exact hplain⟩
  | compressed hmagic h =>
    refine ⟨rfl, htype, _, ?_, rfl⟩
    rw [mediaType_bne, hmagic, plainContent, if_pos rfl, h]
  | openPath hread h => exact ⟨htype, hu⟩

/-- What is learnt of a layer as its diff id is the digest of its uncompressed content. -/
theorem Made.diffId {d : Digest} (h : Made b l) (hl : l ∈ layers) (hu : l.Unchanged w b) (hw : Learns layers w w')
    (hd : l.KnowsDiffId w' d) : ∃ plain, plainContent (Gzip.hasMagic b) b = .ok plain ∧ d = .sha256 plain := by
  have hplain := ((h.keeps hu).learns hl hw).knowsDiffId hd
  rwa [mediaType_bne] at hplain

/-- A layer that has been asked stores its bytes as long as its file holds them. -/
theorem Made.stores {w'' : Workspace} {s : Digest × Nat} (h : Made b l) (hl : l ∈ layers) (hu : l.Unchanged w b)
    (hw : Learns layers w w') (hs : l.Knows w' s) (hw' : w'.Remembers w'') (hheld : l.HeldApart w''.files place b) :
    l.Stores w'' place b := by
  have hdelivers := ((h.keeps hu).learns hl hw).delivers
  cases l with
  | memory l => exact hdelivers
  | file l =>
    refine ⟨hheld, fun s' hs' => ?_⟩
    obtain rfl := (hs.later hw').unique hs'
    exact hdelivers.knows hs

/-- A layer file that has just been opened holds its bytes, and nothing is remembered of it. -/
theorem unchanged_openPath {path : String} {l : FileLayer} (hread : w.files.read path = .ok b)
    (h : (FileLayer.openPath path).perform w = (.ok l, w')) :
    w.Remembers w' ∧ w'.files = w.files ∧ w'.Holds (.file l) ∧ (file l).Unchanged w' b := by
  rw [perform_openPath hread] at h
  have htyped : (FileLayer.ofType path (if Gzip.hasMagic b then .layerGzip else .layer) :
      Action Fault FileLayer).perform w = (.ok l, w') := h
  obtain ⟨hremembers, hfiles, hheld, rfl⟩ := FileLayer.ofType_ok htyped
  have hmemo : w'.memo w.memos.length = {} := by
    rw [← (Prod.mk.inj h).2, memo, List.getD_eq_getElem?_getD, List.getElem?_concat_length]
    rfl
  refine ⟨hremembers, hfiles, hheld, by rw [hfiles]; exact hread, ?_, ?_⟩
  · rw [hmemo]
    simp
  · rw [hmemo]
    simp

/-! ### Files and bytes in memory -/

/-- Bytes can be a layer in memory just if they can be uncompressed where they must. -/
theorem matched_ofBlob (b : ByteArray) : Matched Fault.kind (fun plain m => m.diffId = .sha256 plain)
    ((plainContent (Gzip.hasMagic b) b).mapError .decompress) (MemoryLayer.ofBlob b) := by
  rw [plainContent]
  split_ifs with hmagic
  · rw [ofBlob_of_hasMagic hmagic]
    cases Gzip.decompress b with
    | error fault => exact .error rfl
    | ok plain => exact .ok rfl
  · rw [MemoryLayer.ofBlob, if_neg hmagic]
    exact .ok rfl

theorem kind_of_ofBlob_error {fault : Fault} (h : MemoryLayer.ofBlob b = .error fault) : fault.kind = .layerDiffId := by
  have hblob := matched_ofBlob b
  rw [h] at hblob
  cases hplain : plainContent (Gzip.hasMagic b) b with
  | ok plain =>
    rw [hplain] at hblob
    cases hblob
  | error e =>
    rw [hplain] at hblob
    cases hblob with
    | error hkind => exact hkind.symm

end Layer

/-- Whether a layer file tells what a layer of given bytes in memory does: its type, the digest and the size of the
bytes, the bytes and the diff id, which it lacks just if there is no such layer. -/
structure FileLayer.Mirrors (w : Workspace) (b : ByteArray) (l : FileLayer) : Prop where
  mediaType : l.mediaType = if Gzip.hasMagic b then .layerGzip else .layer
  digest : ((Layer.file l).digest.perform w).1 = .ok (.sha256 b)
  size : ((Layer.file l).size.perform w).1 = .ok b.size
  contents : ((Layer.file l).contents.perform w).1 = .ok (.ofBytes b)
  diffId : Matched Layer.Fault.kind (fun d m => d = m.diffId) ((Layer.file l).diffId.perform w).1 (MemoryLayer.ofBlob b)
  lacks : ∀ fault, ((Layer.file l).diffId.perform w).1 = .error fault ∨ MemoryLayer.ofBlob b = .error fault →
    fault.kind = .layerDiffId
  memory : ∀ m, MemoryLayer.ofBlob b = .ok m → m.mediaType = l.mediaType ∧ m.digest = .sha256 b ∧ m.blob = b

namespace FileLayer

variable {w : Workspace} {b : ByteArray} {l : FileLayer}

theorem mirrors_of_unchanged (htype : l.mediaType = if Gzip.hasMagic b then .layerGzip else .layer)
    (h : (Layer.file l).Unchanged w b) : l.Mirrors w b := by
  have hkeeps : (Layer.file l).Keeps w b l.mediaType := ⟨rfl, h⟩
  have hdiffId := hkeeps.diffId
  rw [htype, Layer.mediaType_bne] at hdiffId
  have hblob := Layer.matched_ofBlob b
  refine ⟨htype, hkeeps.delivers.digest, hkeeps.delivers.size, by rw [hkeeps.delivers.contents], ?_, ?_, ?_⟩
  · exact hdiffId.trans hblob fun d plain m hd hm => hd.trans hm.symm
  · rintro fault (hf | hf)
    · exact Layer.kind_of_diffId_error hf
    · exact Layer.kind_of_ofBlob_error hf
  · intro m hm
    obtain ⟨hb, ht, -⟩ := Layer.ofBlob_ok hm
    exact ⟨by rw [ht, htype], by rw [m.digest_eq, hb], hb⟩

end FileLayer

end ImageAssembly
