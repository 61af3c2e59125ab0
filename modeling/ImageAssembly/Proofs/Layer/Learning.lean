import ImageAssembly.Proofs.Layer.Asking

/-! What is learnt by asking layers. Whatever is remembered afterwards was remembered before or is what the
file tells, so that asking a layer early or late makes no difference while the files stay. -/

namespace ImageAssembly

open Workspace

namespace Workspace

/-- Whether no two of some layers share a memo. -/
def OwnMemos (layers : List Layer) : Prop :=
  ∀ a b : FileLayer, .file a ∈ layers → .file b ∈ layers → a.id = b.id → a = b

/-- Whether layers have been opened, each with a memo of its own. -/
structure Opened (w : Workspace) (layers : List Layer) : Prop where
  held : ∀ l ∈ layers, w.Holds l
  own : OwnMemos layers

theorem Opened.later {layers : List Layer} {w w' : Workspace} (h : w.Opened layers) (hw : w.Remembers w') :
    w'.Opened layers := ⟨fun l hl => (h.held l hl).later hw, h.own⟩

/-- Whether all that is newly remembered of some layers comes from their files. -/
structure Learns (layers : List Layer) (w w' : Workspace) : Prop where
  remembers : w.Remembers w'
  files : w'.files = w.files
  stored : ∀ l : FileLayer, .file l ∈ layers → ∀ s, (w'.memo l.id).stored = some s →
    (w.memo l.id).stored = some s ∨ l.freshStored w.files = .ok s
  diffId : ∀ l : FileLayer, .file l ∈ layers → ∀ d, (w'.memo l.id).diffId = some d →
    (w.memo l.id).diffId = some d ∨ l.freshDiffId w.files = .ok d

namespace Learns

variable {layers : List Layer} {w w' w'' : Workspace}

theorem refl (layers : List Layer) (w : Workspace) : Learns layers w w :=
  ⟨.refl w, rfl, fun _ _ _ h => .inl h, fun _ _ _ h => .inl h⟩

theorem trans (h : Learns layers w w') (h' : Learns layers w' w'') : Learns layers w w'' where
  remembers := h.remembers.trans h'.remembers
  files := h'.files.trans h.files
  stored l hl s hs := by
    rcases h'.stored l hl s hs with hs | hs
    · exact h.stored l hl s hs
    · exact .inr (h.files ▸ hs)
  diffId l hl d hd := by
    rcases h'.diffId l hl d hd with hd | hd
    · exact h.diffId l hl d hd
    · exact .inr (h.files ▸ hd)

instance (layers : List Layer) : IsPreorder Workspace (Learns layers) where
  refl := .refl layers
  trans _ _ _ := .trans

/-- Filling the memo of a layer from its file. -/
theorem setMemo {l : FileLayer} {m : Memo} (hl : .file l ∈ layers) (own : OwnMemos layers)
    (hr : w.Remembers (w.setMemo l.id m))
    (hs : ∀ s, m.stored = some s → (w.memo l.id).stored = some s ∨ l.freshStored w.files = .ok s)
    (hd : ∀ d, m.diffId = some d → (w.memo l.id).diffId = some d ∨ l.freshDiffId w.files = .ok d) :
    Learns layers w (w.setMemo l.id m) where
  remembers := hr
  files := rfl
  stored k hk s h := by
    rw [memo_setMemo] at h
    split_ifs at h with hid
    · obtain rfl := own l k hl hk hid.1
      exact hs s h
    · exact .inl h
  diffId k hk d h := by
    rw [memo_setMemo] at h
    split_ifs at h with hid
    · obtain rfl := own l k hl hk hid.1
      exact hd d h
    · exact .inl h

end Learns

end Workspace

namespace FileLayer

variable {layers : List Layer} {l : FileLayer}

theorem learns_digestAndSize (hl : .file l ∈ layers) (own : OwnMemos layers) :
    l.digestAndSize.Leads (Learns layers) := by
  refine l.recalls_digestAndSize.leads fun w s hm hf => ?_
  refine .setMemo hl own (remembers_setMemo (by simp [hm]) (by simp)) ?_ fun _ hd => .inl hd
  rintro _ ⟨⟩
  exact .inr hf

theorem learns_diffId (hl : .file l ∈ layers) (own : OwnMemos layers) :
    l.diffId.Leads (Learns layers) := by
  refine l.recalls_diffId.leads fun w d hm hf => ?_
  refine .setMemo hl own (remembers_setMemo (by simp) (by simp [hm])) (fun _ hs => .inl hs) ?_
  rintro _ ⟨⟩
  exact .inr hf

end FileLayer

namespace Layer

variable {layers : List Layer} {l : Layer} {w w' : Workspace}

theorem asks_learns (hl : l ∈ layers) (own : OwnMemos layers) : l.Asks (Learns layers) := by
  cases l with
  | memory l => exact asks_memory _ l
  | file l => exact asks_file (FileLayer.learns_digestAndSize hl own) (FileLayer.learns_diffId hl own)

/-- Whether a layer can tell the digest of its stored bytes. -/
def TellsDigest (w : Workspace) (l : Layer) : Prop := ∃ d, (l.digest.perform w).1 = .ok d

/-- Whether a layer can tell the digest of its content. -/
def TellsDiffId (w : Workspace) (l : Layer) : Prop := ∃ d, (l.diffId.perform w).1 = .ok d

theorem tellsDigest_file_iff (l : FileLayer) :
    (file l).TellsDigest w ↔ (∃ s, (w.memo l.id).stored = some s) ∨ ∃ s, l.freshStored w.files = .ok s := by
  rw [← l.recalls_digestAndSize.exists_ok_iff, TellsDigest, digest, Action.perform_bind]
  rcases l.digestAndSize.perform w with ⟨_ | s, w'⟩ <;> simp

theorem tellsDiffId_file_iff (l : FileLayer) :
    (file l).TellsDiffId w ↔ (∃ d, (w.memo l.id).diffId = some d) ∨ ∃ d, l.freshDiffId w.files = .ok d :=
  l.recalls_diffId.exists_ok_iff

/-- What is learnt of layers does not change whether one of them can tell its digest. -/
theorem tellsDigest_congr (h : Learns layers w w') (hl : l ∈ layers) : l.TellsDigest w' ↔ l.TellsDigest w := by
  cases l with
  | memory l => exact Iff.rfl
  | file l =>
    rw [tellsDigest_file_iff, tellsDigest_file_iff, h.files]
    constructor
    · rintro (⟨s, hs⟩ | hf)
      · exact (h.stored l hl s hs).imp (⟨s, ·⟩) (⟨s, ·⟩)
      · exact .inr hf
    · rintro (⟨s, hs⟩ | hf)
      · exact .inl ⟨s, h.remembers.stored l.id s hs⟩
      · exact .inr hf

theorem tellsDiffId_congr (h : Learns layers w w') (hl : l ∈ layers) : l.TellsDiffId w' ↔ l.TellsDiffId w := by
  cases l with
  | memory l => exact Iff.rfl
  | file l =>
    rw [tellsDiffId_file_iff, tellsDiffId_file_iff, h.files]
    constructor
    · rintro (⟨d, hd⟩ | hf)
      · exact (h.diffId l hl d hd).imp (⟨d, ·⟩) (⟨d, ·⟩)
      · exact .inr hf
    · rintro (⟨d, hd⟩ | hf)
      · exact .inl ⟨d, h.remembers.diffId l.id d hd⟩
      · exact .inr hf

end Layer

end ImageAssembly
