import ImageAssembly.Proofs.Layer.Keeping

/-! Layers that are interchangeable. Of a pair of layers, one in each of two workspaces with the same files, either
both keep the same bytes or they are one layer of which the same is remembered; whatever both are asked, the answers
agree and the pairs stay so. -/

namespace ImageAssembly

open Workspace

namespace Layer

variable {α : Type} {written : Option Place} {w w' v : Workspace} {l : Layer} {b : ByteArray} {t : MediaType}
variable {layers : List Layer}

/-- Whether a layer keeps given bytes, whatever is written at a place. -/
structure Kept (written : Option Place) (w : Workspace) (b : ByteArray) (t : MediaType) (l : Layer) : Prop where
  keeps : l.Keeps w b t
  apart : ∀ place ∈ written, l.HeldApart w.files place b

namespace Kept

theorem learns (h : l.Kept written w b t) (hl : l ∈ layers) (hw : Learns layers w w') : l.Kept written w' b t where
  keeps := h.keeps.learns hl hw
  apart place hplace := by
    rw [hw.files]
    exact h.apart place hplace

theorem congr (h : l.Kept written w b t) (hf : v.files = w.files) (hm : l.SameMemo w v) : l.Kept written v b t where
  keeps := h.keeps.congr hf hm
  apart place hplace := by
    rw [hf]
    exact h.apart place hplace

theorem put {place : Place} {data : ByteArray} (h : l.Kept (some place) w b t)
    (hd : w.files.entryAt? place ≠ some .directory) :
    l.Kept (some place) { w with files := w.files.put place (.file data) } b t where
  keeps := h.keeps.put (h.apart place rfl) hd
  apart := by
    rintro _ ⟨⟩
    exact (h.apart place rfl).put hd

end Kept

/-- Whether a layer stands in two workspaces with the same files and the same memo. -/
structure Shared (l : Layer) (w v : Workspace) : Prop where
  files : v.files = w.files
  memo : l.SameMemo w v
  left : w.Holds l
  right : v.Holds l

/-- Whether a question that is put to layers depends on the layer's file and memo alone, and is answered alike by
layers that keep the same bytes under the same type. -/
structure IsQuestion (ask : Layer → Action Fault α) : Prop where
  learns : ∀ {layers l}, l ∈ layers → OwnMemos layers → (ask l).Leads (Learns layers)
  touches : ∀ l, (ask l).Leads l.Touches
  shared : ∀ l, InStep l.Shared Fault.kind (· = ·) (ask l) (ask l)
  kept : ∀ {w v b t l m}, l.Keeps w b t → m.Keeps v b t →
    Matched Fault.kind (· = ·) ((ask l).perform w).1 ((ask m).perform v).1

/-- Filling the memo of a layer in the same way in both workspaces. -/
theorem Shared.setMemo {l : FileLayer} (h : (file l).Shared w v) (m : Memo) :
    (file l).Shared (w.setMemo l.id m) (v.setMemo l.id m) where
  files := h.files
  memo := by
    change (v.setMemo l.id m).memo l.id = (w.setMemo l.id m).memo l.id
    have hleft : l.id < w.memos.length := h.left
    have hright : l.id < v.memos.length := h.right
    rw [memo_setMemo, memo_setMemo, if_pos ⟨rfl, hright⟩, if_pos ⟨rfl, hleft⟩]
  left := by simpa [Holds] using h.left
  right := by simpa [Holds] using h.right

/-- A question that is answered from the layer's memo or file stays in step with itself. -/
theorem shared_of_recalls {l : FileLayer} {a : Action Fault α} {part : Memo → Option α} {find : Files → Except Fault α}
    {fill : Memo → α → Memo} (ha : l.Recalls a part find fill) : InStep (file l).Shared Fault.kind (· = ·) a a := by
  intro w v h
  have hmemo : v.memo l.id = w.memo l.id := h.memo
  change Matched _ _ (a.perform w).1 (a.perform v).1 ∧ (file l).Shared (a.perform w).2 (a.perform v).2
  rw [ha w, ha v, hmemo, h.files]
  cases part (w.memo l.id) with
  | some x => exact ⟨.ok rfl, h⟩
  | none => cases find w.files with
    | error fault => exact ⟨.error rfl, h⟩
    | ok x => exact ⟨.ok rfl, h.setMemo _⟩

theorem shared_digestAndSize (l : FileLayer) :
    InStep (file l).Shared Fault.kind (· = ·) l.digestAndSize l.digestAndSize :=
  shared_of_recalls l.recalls_digestAndSize

theorem shared_diffId (l : FileLayer) : InStep (file l).Shared Fault.kind (· = ·) l.diffId l.diffId :=
  shared_of_recalls l.recalls_diffId

theorem isQuestion_digest : IsQuestion digest where
  learns hl own := (asks_learns hl own).digest
  touches l := l.asks_touches.digest
  shared l := by
    cases l with
    | memory l => exact .pure rfl
    | file l => exact (shared_digestAndSize l).bind fun _ _ h => .pure (by rw [h])
  kept hl hm := by
    rw [hl.delivers.digest, hm.delivers.digest]
    exact .ok rfl

theorem isQuestion_size : IsQuestion size where
  learns hl own := (asks_learns hl own).size
  touches l := l.asks_touches.size
  shared l := by
    cases l with
    | memory l => exact .pure rfl
    | file l => exact (shared_digestAndSize l).bind fun _ _ h => .pure (by rw [h])
  kept hl hm := by
    rw [hl.delivers.size, hm.delivers.size]
    exact .ok rfl

theorem isQuestion_diffId : IsQuestion diffId where
  learns hl own := (asks_learns hl own).diffId
  touches l := l.asks_touches.diffId
  shared l := by
    cases l with
    | memory l => exact .pure rfl
    | file l => exact shared_diffId l
  kept hl hm := hl.diffId.trans hm.diffId.symm fun _ _ _ h h' => h.trans h'.symm

theorem isQuestion_contents : IsQuestion contents where
  learns _ _ := leads_contents _ _
  touches l := l.leads_contents _
  shared l := by
    cases l with
    | memory l => exact .pure rfl
    | file l =>
      -- all faults of files become errors of one kind here
      refine InStep.mapFault (InStep.ofFiles (fun _ => .ociImage) fun w v h => ?_) fun _ _ => id
      rw [h.files]
      exact .refl _ _
  kept hl hm := by
    rw [hl.delivers.contents, hm.delivers.contents]
    exact .ok rfl

/-- Whether a pair of layers is interchangeable while a file is written: both keep the same bytes, or they are one layer
of which the same is remembered. -/
def Alike (written : Option Place) (w v : Workspace) (p : Layer × Layer) : Prop :=
  (∃ b t, p.1.Kept written w b t ∧ p.2.Kept written v b t) ∨ p.2 = p.1 ∧ p.1.SameMemo w v

theorem Alike.mediaType {p : Layer × Layer} (h : Alike written w v p) : p.2.mediaType = p.1.mediaType := by
  rcases h with ⟨b, t, hl, hm⟩ | ⟨hp, -⟩
  · rw [hl.keeps.mediaType, hm.keeps.mediaType]
  · rw [hp]

end Layer

/-! ### Pairs of layers -/

/-- Whether two workspaces with the same files have layers in interchangeable pairs. -/
structure Workspace.Coupled (written : Option Place) (pairs : List (Layer × Layer)) (w v : Workspace) : Prop where
  files : v.files = w.files
  left : w.Opened (pairs.map Prod.fst)
  right : v.Opened (pairs.map Prod.snd)
  alike : ∀ p ∈ pairs, Layer.Alike written w v p

namespace Workspace.Coupled

variable {α : Type} {written : Option Place} {pairs : List (Layer × Layer)} {w v : Workspace} {p : Layer × Layer}

theorem mem_left (hp : p ∈ pairs) : p.1 ∈ pairs.map Prod.fst := List.mem_map_of_mem hp

theorem mem_right (hp : p ∈ pairs) : p.2 ∈ pairs.map Prod.snd := List.mem_map_of_mem hp

/-- A layer whose memo is filled by asking a pair is alike in both workspaces afterwards, as it is one of the pair. -/
theorem alike_of_sharesMemo (h : Coupled written pairs w v) (hp : p ∈ pairs) {k : Layer} (hk : (k, k) ∈ pairs)
    (hm : k.SameMemo w v) (hs : p.1.SharesMemo k ∨ p.2.SharesMemo k) :
    (∃ b t, k.Kept written w b t ∧ k.Kept written v b t) ∨ p = (k, k) := by
  obtain ⟨l, m⟩ := p
  have hself : l = k ∨ m = k := hs.imp (Layer.eq_of_sharesMemo h.left.own (mem_left hp) (mem_left hk))
    (Layer.eq_of_sharesMemo h.right.own (mem_right hp) (mem_right hk))
  rcases h.alike (l, m) hp with ⟨b, t, hl, hm'⟩ | ⟨hlm, -⟩
  · rcases hself with rfl | rfl
    · exact .inl ⟨b, t, hl, hl.congr h.files hm⟩
    · exact .inl ⟨b, t, hm'.congr h.files.symm hm.symm, hm'⟩
  · obtain rfl : m = l := hlm
    rw [or_self] at hself
    exact .inr (by rw [hself])

/-- Both layers of a pair answer alike, and all pairs stay interchangeable. -/
theorem ask {f : Layer → Action Layer.Fault α} (hask : Layer.IsQuestion f) (hp : p ∈ pairs) :
    InStep (Coupled written pairs) Layer.Fault.kind (· = ·) (f p.1) (f p.2) := by
  intro w v h
  have hw := hask.learns (mem_left hp) h.left.own w
  have hv := hask.learns (mem_right hp) h.right.own v
  have hshared : ∀ k, (k, k) ∈ pairs → k.SameMemo w v → k.Shared w v := fun k hk hm =>
    ⟨h.files, hm, h.left.held k (mem_left hk), h.right.held k (mem_right hk)⟩
  refine ⟨?_, hv.files.trans (h.files.trans hw.files.symm), h.left.later hw.remembers, h.right.later hv.remembers, ?_⟩
  · rcases h.alike p hp with ⟨b, t, hl, hm⟩ | ⟨hlm, hm⟩
    · exact hask.kept hl.keeps hm.keeps
    · obtain ⟨l, m⟩ := p
      obtain rfl : m = l := hlm
      exact (hask.shared m w v (hshared m hp hm)).1
  · rintro ⟨k, k'⟩ hk
    rcases h.alike (k, k') hk with ⟨b, t, hl, hm⟩ | ⟨hkk, hm⟩
    · exact .inl ⟨b, t, hl.learns (mem_left hk) hw, hm.learns (mem_right hk) hv⟩
    · obtain rfl : k' = k := hkk
      by_cases hs : p.1.SharesMemo k' ∨ p.2.SharesMemo k'
      · rcases h.alike_of_sharesMemo hp hk hm hs with ⟨b, t, hl, hr⟩ | rfl
        · exact .inl ⟨b, t, hl.learns (mem_left hk) hw, hr.learns (mem_right hk) hv⟩
        · exact .inr ⟨rfl, (hask.shared k' w v (hshared k' hk hm)).2.memo⟩
      · rw [not_or] at hs
        have hleft := hask.touches p.1 w k' hs.1
        have hright := hask.touches p.2 v k' hs.2
        exact .inr ⟨rfl, (hleft.symm.trans hm).trans hright⟩

/-- Pairs stay interchangeable while the file is written. -/
theorem put {place : Place} (h : Coupled (some place) pairs w v) (hd : w.files.entryAt? place ≠ some .directory)
    (data : ByteArray) : Coupled (some place) pairs { w with files := w.files.put place (.file data) }
      { v with files := v.files.put place (.file data) } where
  files := by
    dsimp only
    rw [h.files]
  left := ⟨h.left.held, h.left.own⟩
  right := ⟨h.right.held, h.right.own⟩
  alike p hp := by
    rcases h.alike p hp with ⟨b, t, hl, hm⟩ | ⟨hlm, hm⟩
    · exact .inl ⟨b, t, hl.put hd, hm.put (by rwa [h.files])⟩
    · exact .inr ⟨hlm, hm⟩

end Workspace.Coupled

end ImageAssembly
