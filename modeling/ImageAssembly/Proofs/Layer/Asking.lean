import ImageAssembly.Layer.Basic
import ImageAssembly.Proofs.Outcome

/-! Asking layers. An answer that has been given is remembered: whatever is asked and opened later, and
whatever happens to the files, the layer gives it again. -/

namespace ImageAssembly

/-! ### Work in a workspace -/

/-- Work that may fail and changes a state: what follows is done where the first part succeeds. -/
theorem run_bind_eq {σ ε α β : Type} (a : ExceptT ε (StateM σ) α) (f : α → ExceptT ε (StateM σ) β) (s : σ) :
    (a >>= f).run.run s = match a.run.run s with
      | (.ok x, s') => (f x).run.run s'
      | (.error e, s') => (.error e, s') := by
  change (a.run >>= ExceptT.bindCont f).run s = _
  rw [StateT.run_bind]
  change (fun p : Except ε α × σ => (ExceptT.bindCont f p.1).run p.2) (a.run.run s) = _
  rcases a.run.run s with ⟨_ | x, s'⟩ <;> rfl

namespace Action

variable {ε δ α β : Type}

@[simp] theorem perform_pure (a : α) (w : Workspace) : (pure a : Action ε α).perform w = (.ok a, w) := rfl

@[simp] theorem perform_throw (e : ε) (w : Workspace) : (throw e : Action ε α).perform w = (.error e, w) := rfl

@[simp] theorem perform_ofExcept (x : Except ε α) (w : Workspace) : (ofExcept x).perform w = (x, w) := rfl

@[simp] theorem perform_ofFiles (f : Files → Except ε α) (w : Workspace) :
    (ofFiles f).perform w = (f w.files, w) := rfl

@[simp] theorem perform_get (w : Workspace) : (get : Action ε Workspace).perform w = (.ok w, w) := rfl

@[simp] theorem perform_set (w' w : Workspace) : (set w' : Action ε Unit).perform w = (.ok (), w') := rfl

theorem perform_bind (a : Action ε α) (f : α → Action ε β) (w : Workspace) :
    (a >>= f).perform w = match a.perform w with
      | (.ok x, w') => (f x).perform w'
      | (.error e, w') => (.error e, w') := by
  rw [perform, run_bind_eq, perform]
  rcases a.run.run w with ⟨_ | x, w'⟩ <;> rfl

theorem perform_mapFault (f : ε → δ) (a : Action ε α) (w : Workspace) :
    (a.mapFault f).perform w = ((a.perform w).1.mapError f, (a.perform w).2) := by
  change (Except.mapError f <$> a.run).run w = _
  rw [StateT.run_map]
  rfl

/-- A successful chain of work, taken apart. -/
theorem perform_bind_ok {a : Action ε α} {f : α → Action ε β} {w w' : Workspace} {y : β}
    (h : (a >>= f).perform w = (.ok y, w')) :
    ∃ x w1, a.perform w = (.ok x, w1) ∧ (f x).perform w1 = (.ok y, w') := by
  rw [perform_bind] at h
  rcases ha : a.perform w with ⟨_ | x, w1⟩
  · simp [ha] at h
  · exact ⟨x, w1, rfl, by simpa [ha] using h⟩

theorem perform_mapFault_ok {f : ε → δ} {a : Action ε α} {w w' : Workspace} {x : α} :
    (a.mapFault f).perform w = (.ok x, w') ↔ a.perform w = (.ok x, w') := by
  rw [perform_mapFault]
  rcases a.perform w with ⟨_ | y, w1⟩ <;> simp [Except.mapError]

end Action

/-! ### What is remembered -/

namespace Workspace

theorem memo_setMemo (w : Workspace) (id : Nat) (m : Memo) (j : Nat) :
    (w.setMemo id m).memo j = if id = j ∧ j < w.memos.length then m else w.memo j := by
  rw [memo, memo, setMemo, List.getD_eq_getElem?_getD, List.getD_eq_getElem?_getD, List.getElem?_set]
  by_cases h : id = j
  · subst h
    by_cases hj : id < w.memos.length
    · simp [hj]
    · simp [hj]
  · simp [h]

@[simp] theorem files_setMemo (w : Workspace) (id : Nat) (m : Memo) : (w.setMemo id m).files = w.files := rfl

@[simp] theorem length_memos_setMemo (w : Workspace) (id : Nat) (m : Memo) :
    (w.setMemo id m).memos.length = w.memos.length := by simp [setMemo]

/-- Whether everything that is remembered of layers is still remembered later on. The files may have become
others. -/
structure Remembers (w w' : Workspace) : Prop where
  length : w.memos.length ≤ w'.memos.length
  stored : ∀ id s, (w.memo id).stored = some s → (w'.memo id).stored = some s
  diffId : ∀ id d, (w.memo id).diffId = some d → (w'.memo id).diffId = some d

theorem Remembers.refl (w : Workspace) : w.Remembers w := ⟨Nat.le_refl _, fun _ _ h => h, fun _ _ h => h⟩

theorem Remembers.trans {w w' w'' : Workspace} (h : w.Remembers w') (h' : w'.Remembers w'') : w.Remembers w'' :=
  ⟨Nat.le_trans h.length h'.length, fun id s hs => h'.stored id s (h.stored id s hs),
    fun id d hd => h'.diffId id d (h.diffId id d hd)⟩

/-- Filling an empty part of a memo forgets nothing. -/
theorem remembers_setMemo {w : Workspace} {id : Nat} {m : Memo}
    (hs : ∀ s, (w.memo id).stored = some s → m.stored = some s)
    (hd : ∀ d, (w.memo id).diffId = some d → m.diffId = some d) : w.Remembers (w.setMemo id m) where
  length := by simp
  stored j s h := by
    rw [memo_setMemo]
    split
    · next hj => exact hs s (hj.1 ▸ h)
    · exact h
  diffId j d h := by
    rw [memo_setMemo]
    split
    · next hj => exact hd d (hj.1 ▸ h)
    · exact h

theorem remembers_files (w : Workspace) (fs : Files) : w.Remembers { w with files := fs } :=
  ⟨Nat.le_refl _, fun _ _ h => h, fun _ _ h => h⟩

/-- Whether a layer is one of those that have been opened. -/
def Holds (w : Workspace) : Layer → Prop
  | .memory _ => True
  | .file l => l.id < w.memos.length

theorem Holds.later {w w' : Workspace} {l : Layer} (h : w.Holds l) (hw : w.Remembers w') : w'.Holds l := by
  cases l with
  | memory l => trivial
  | file l => exact Nat.lt_of_lt_of_le h hw.length

end Workspace

open Workspace

instance : IsPreorder Workspace Workspace.Remembers where
  refl := .refl
  trans _ _ _ := .trans

namespace Action

/-- Whether some work leads to workspaces that stand in a relation to those where it begins, whatever comes
of it. -/
def Leads {ε α : Type} (r : Workspace → Workspace → Prop) (a : Action ε α) : Prop := ∀ w, r w (a.perform w).2

namespace Leads

variable {ε δ α β : Type} {r : Workspace → Workspace → Prop}

theorem mapFault {a : Action ε α} (ha : a.Leads r) (f : ε → δ) : (a.mapFault f).Leads r := by
  intro w
  rw [perform_mapFault]
  exact ha w

/-- The relation holds in particular for work that succeeds. -/
theorem of_perform {a : Action ε α} {w w' : Workspace} {x : Except ε α} (ha : a.Leads r)
    (h : a.perform w = (x, w')) : r w w' := by
  have hw := ha w
  rwa [h] at hw

variable [IsPreorder Workspace r]

theorem pure (x : α) : Leads r (Pure.pure x : Action ε α) := fun w => refl_of r w

theorem ofExcept (x : Except ε α) : Leads r (Action.ofExcept x) := fun w => refl_of r w

theorem ofFiles (f : Files → Except ε α) : Leads r (Action.ofFiles f) := fun w => refl_of r w

/-- The second part matters only behind a success of the first. -/
theorem bind_ok {a : Action ε α} {f : α → Action ε β} (ha : a.Leads r)
    (hf : ∀ w x w', a.perform w = (.ok x, w') → r w' ((f x).perform w').2) : (a >>= f).Leads r := by
  intro w
  have hw := ha w
  rw [perform_bind]
  rcases h : a.perform w with ⟨_ | x, w'⟩
  · simpa [h] using hw
  · rw [h] at hw
    exact trans_of r hw (hf w x w' h)

theorem bind {a : Action ε α} {f : α → Action ε β} (ha : a.Leads r) (hf : ∀ x, (f x).Leads r) :
    (a >>= f).Leads r := ha.bind_ok fun _ x w' _ => hf x w'

end Leads

end Action

/-! ### Answers of layer files -/

namespace FileLayer

variable {l : FileLayer} {w w' : Workspace}

/-- Whether a question is answered with a part of the layer's memo, and where that is empty with what is found in the
files, which then fills it. -/
def Recalls {α : Type} (l : FileLayer) (a : Action Layer.Fault α) (part : Memo → Option α)
    (find : Files → Except Layer.Fault α) (fill : Memo → α → Memo) : Prop :=
  ∀ w, a.perform w = match part (w.memo l.id) with
    | some x => (.ok x, w)
    | none => match find w.files with
      | .ok x => (.ok x, w.setMemo l.id (fill (w.memo l.id) x))
      | .error fault => (.error fault, w)

namespace Recalls

variable {α : Type} {a : Action Layer.Fault α} {part : Memo → Option α} {find : Files → Except Layer.Fault α}
variable {fill : Memo → α → Memo} {x : α}

/-- Asking leads to no other workspace than the one in which the answer has been filled in. -/
theorem leads {r : Workspace → Workspace → Prop} [IsPreorder Workspace r] (ha : l.Recalls a part find fill)
    (h : ∀ w x, part (w.memo l.id) = none → find w.files = .ok x → r w (w.setMemo l.id (fill (w.memo l.id) x))) :
    a.Leads r := by
  intro w
  rw [ha w]
  cases hpart : part (w.memo l.id) with
  | some x => exact refl_of r w
  | none => cases hfound : find w.files with
    | error fault => exact refl_of r w
    | ok x => exact h w x hpart hfound

theorem of_known (ha : l.Recalls a part find fill) (h : part (w.memo l.id) = some x) : a.perform w = (.ok x, w) := by
  rw [ha w, h]

theorem known_or_found (ha : l.Recalls a part find fill) (h : a.perform w = (.ok x, w')) :
    part (w.memo l.id) = some x ∧ w' = w ∨
      find w.files = .ok x ∧ w' = w.setMemo l.id (fill (w.memo l.id) x) := by
  rw [ha w] at h
  cases hpart : part (w.memo l.id) with
  | some y =>
    simp only [hpart, Prod.mk.injEq, Except.ok.injEq] at h
    obtain ⟨rfl, rfl⟩ := h
    exact .inl ⟨rfl, rfl⟩
  | none => cases hfound : find w.files with
    | error fault => simp [hpart, hfound] at h
    | ok y =>
      simp only [hpart, hfound, Prod.mk.injEq, Except.ok.injEq] at h
      obtain ⟨rfl, rfl⟩ := h
      exact .inr ⟨rfl, rfl⟩

/-- An answer is known from then on. -/
theorem known_after (ha : l.Recalls a part find fill) (hfill : ∀ m, part (fill m x) = some x)
    (h : a.perform w = (.ok x, w')) :
    w'.files = w.files ∧ (l.id < w.memos.length → part (w'.memo l.id) = some x) := by
  obtain ⟨hpart, rfl⟩ | ⟨-, rfl⟩ := ha.known_or_found h
  · exact ⟨rfl, fun _ => hpart⟩
  · refine ⟨rfl, fun hid => ?_⟩
    rw [memo_setMemo, if_pos ⟨rfl, hid⟩]
    exact hfill _

/-- There is an answer just if one is known or can be found. -/
theorem exists_ok_iff (ha : l.Recalls a part find fill) :
    (∃ x, (a.perform w).1 = .ok x) ↔ (∃ x, part (w.memo l.id) = some x) ∨ ∃ x, find w.files = .ok x := by
  rw [ha w]
  cases part (w.memo l.id) with
  | some x => simp
  | none => cases find w.files <;> simp

/-- Where there is no answer, none could be found. -/
theorem error {fault : Layer.Fault} (ha : l.Recalls a part find fill) (h : (a.perform w).1 = .error fault) :
    find w.files = .error fault := by
  rw [ha w] at h
  cases hpart : part (w.memo l.id) with
  | some x => simp [hpart] at h
  | none => cases hfound : find w.files with
    | error fault' => simpa [hpart, hfound] using h
    | ok x => simp [hpart, hfound] at h

end Recalls

/-- The digest and the size that the file now has. -/
def freshStored (l : FileLayer) (fs : Files) : Except Layer.Fault (Digest × Nat) :=
  ((fs.openPath l.path).bind Digest.ofFeed).mapError (Layer.Fault.hashFile l.path)

/-- The digest of the content that the file now has. -/
def freshDiffId (l : FileLayer) (fs : Files) : Except Layer.Fault Digest :=
  match (fs.openPath l.path).mapError (Layer.Fault.openForDiffId l.path) with
  | .error fault => .error fault
  | .ok feed => match (Digest.ofFeed (l.uncompressed feed)).mapError (Layer.Fault.readUncompressed l.path) with
    | .error fault => .error fault
    | .ok (diffId, _) => .ok diffId

theorem recalls_digestAndSize (l : FileLayer) :
    l.Recalls l.digestAndSize Memo.stored l.freshStored fun m stored => { m with stored := some stored } := by
  intro w
  rw [digestAndSize, Action.perform_bind, Action.perform_get]
  simp only
  cases (w.memo l.id).stored with
  | some stored => rfl
  | none =>
    simp only [Action.perform_bind, Action.perform_ofExcept, freshStored]
    cases ((w.files.openPath l.path).bind Digest.ofFeed).mapError (Layer.Fault.hashFile l.path) <;> rfl

theorem recalls_diffId (l : FileLayer) :
    l.Recalls l.diffId Memo.diffId l.freshDiffId fun m diffId => { m with diffId := some diffId } := by
  intro w
  rw [diffId, Action.perform_bind, Action.perform_get]
  simp only
  cases (w.memo l.id).diffId with
  | some d => rfl
  | none =>
    simp only [Action.perform_bind, Action.perform_ofExcept, freshDiffId]
    cases (w.files.openPath l.path).mapError (Layer.Fault.openForDiffId l.path) with
    | error fault => rfl
    | ok feed =>
      simp only
      cases (Digest.ofFeed (l.uncompressed feed)).mapError (Layer.Fault.readUncompressed l.path) <;> rfl

/-- Opening a layer forgets nothing, and the layer is held from then on. -/
theorem ofType_ok {ε : Type} {path : String} {m : MediaType}
    (h : (ofType path m : Action ε FileLayer).perform w = (.ok l, w')) :
    w.Remembers w' ∧ w'.files = w.files ∧ w'.Holds (.file l) ∧ l = ⟨w.memos.length, path, m⟩ := by
  simp only [ofType, Action.perform_bind, Action.perform_get, Action.perform_set, Action.perform_pure,
    Prod.mk.injEq, Except.ok.injEq] at h
  obtain ⟨rfl, rfl⟩ := h
  -- the memos that are there keep their places
  have hmemo : ∀ id, (Workspace.memo ⟨w.files, w.memos ++ [default]⟩ id) = w.memo id := by
    intro id
    rw [memo, memo, List.getD_eq_getElem?_getD, List.getD_eq_getElem?_getD, List.getElem?_append]
    split_ifs with h
    · rfl
    · rw [List.getElem?_eq_none (Nat.not_lt.1 h)]
      cases id - w.memos.length <;> rfl
  refine ⟨⟨by simp, fun id s hs => ?_, fun id d hd => ?_⟩, rfl, by simp [Holds], rfl⟩
  · rwa [hmemo]
  · rwa [hmemo]

theorem remembers_digestAndSize (l : FileLayer) : l.digestAndSize.Leads Remembers :=
  l.recalls_digestAndSize.leads fun w s hm _ => remembers_setMemo (by simp [hm]) (by simp)

theorem remembers_diffId (l : FileLayer) : l.diffId.Leads Remembers :=
  l.recalls_diffId.leads fun w d hm _ => remembers_setMemo (by simp) (by simp [hm])

/-- Asking for the stored bytes forgets nothing, and the answer is remembered. -/
theorem digestAndSize_ok {stored : Digest × Nat} (h : l.digestAndSize.perform w = (.ok stored, w')) :
    w.Remembers w' ∧ w'.files = w.files ∧
      (l.id < w.memos.length → (w'.memo l.id).stored = some stored) :=
  ⟨l.remembers_digestAndSize.of_perform h, l.recalls_digestAndSize.known_after (fun _ => rfl) h⟩

theorem digestAndSize_bind_ok {β : Type} {f : Digest × Nat → β} {y : β}
    (h : (l.digestAndSize >>= fun s => pure (f s)).perform w = (.ok y, w')) :
    ∃ s, f s = y ∧ w.Remembers w' ∧ w'.files = w.files ∧ (l.id < w.memos.length → (w'.memo l.id).stored = some s) := by
  obtain ⟨s, w1, hasked, hanswer⟩ := Action.perform_bind_ok h
  rw [Action.perform_pure, Prod.mk.injEq, Except.ok.injEq] at hanswer
  obtain ⟨hy, rfl⟩ := hanswer
  exact ⟨s, hy, digestAndSize_ok hasked⟩

theorem digestAndSize_of_stored {stored : Digest × Nat} (h : (w.memo l.id).stored = some stored) :
    l.digestAndSize.perform w = (.ok stored, w) :=
  l.recalls_digestAndSize.of_known h

theorem diffId_ok {d : Digest} (h : l.diffId.perform w = (.ok d, w')) :
    w.Remembers w' ∧ w'.files = w.files ∧ (l.id < w.memos.length → (w'.memo l.id).diffId = some d) :=
  ⟨l.remembers_diffId.of_perform h, l.recalls_diffId.known_after (fun _ => rfl) h⟩

theorem diffId_of_memo {d : Digest} (h : (w.memo l.id).diffId = some d) : l.diffId.perform w = (.ok d, w) :=
  l.recalls_diffId.of_known h

end FileLayer

/-! ### Answers of layers -/

namespace Layer

variable {l : Layer} {w w' : Workspace}

/-- Whether the digest and the size of a layer's stored bytes are known. -/
def Knows (w : Workspace) (l : Layer) (stored : Digest × Nat) : Prop :=
  match l with
  | .memory l => stored = (l.digest, l.blob.size)
  | .file l => (w.memo l.id).stored = some stored

/-- Whether the digest of a layer's content is known. -/
def KnowsDiffId (w : Workspace) (l : Layer) (d : Digest) : Prop :=
  match l with
  | .memory l => d = l.diffId
  | .file l => (w.memo l.id).diffId = some d

theorem Knows.later {stored : Digest × Nat} (h : l.Knows w stored) (hw : w.Remembers w') : l.Knows w' stored := by
  cases l with
  | memory l => exact h
  | file l => exact hw.stored l.id stored h

theorem KnowsDiffId.later {d : Digest} (h : l.KnowsDiffId w d) (hw : w.Remembers w') : l.KnowsDiffId w' d := by
  cases l with
  | memory l => exact h
  | file l => exact hw.diffId l.id d h

/-- Whether everything about a layer is known. -/
def Known (w : Workspace) (l : Layer) : Prop := (∃ stored, l.Knows w stored) ∧ ∃ d, l.KnowsDiffId w d

theorem Known.later (h : l.Known w) (hw : w.Remembers w') : l.Known w' := by
  obtain ⟨⟨stored, hs⟩, d, hd⟩ := h
  exact ⟨⟨stored, hs.later hw⟩, d, hd.later hw⟩

theorem known_memory (w : Workspace) (l : MemoryLayer) : (memory l).Known w := ⟨⟨_, rfl⟩, _, rfl⟩

/-- Of a layer that has not been opened nothing is known. -/
theorem Knows.holds {s : Digest × Nat} (h : l.Knows w s) : w.Holds l := by
  cases l with
  | memory l => trivial
  | file l =>
    by_contra hlt
    have hmemo : w.memo l.id = {} := by
      rw [Workspace.memo, List.getD_eq_getElem?_getD, List.getElem?_eq_none (Nat.le_of_not_lt hlt), Option.getD_none]
    rw [Knows, hmemo] at h
    cases h

theorem Knows.unique {s s' : Digest × Nat} (h : l.Knows w s) (h' : l.Knows w s') : s = s' := by
  cases l with
  | memory l => exact h.trans h'.symm
  | file l => exact Option.some.inj (h.symm.trans h')

theorem KnowsDiffId.unique {d d' : Digest} (h : l.KnowsDiffId w d) (h' : l.KnowsDiffId w d') : d = d' := by
  cases l with
  | memory l => exact Eq.trans h (Eq.symm h')
  | file l => exact Option.some.inj (Eq.trans (Eq.symm h) h')

/-- What is known is what the layer answers. -/
theorem Knows.digest {stored : Digest × Nat} (h : l.Knows w stored) :
    l.digest.perform w = (.ok stored.1, w) := by
  cases l with
  | memory l => rw [h]; rfl
  | file l =>
    rw [Layer.digest, Action.perform_bind, FileLayer.digestAndSize_of_stored h]
    rfl

theorem Knows.size {stored : Digest × Nat} (h : l.Knows w stored) :
    l.size.perform w = (.ok stored.2, w) := by
  cases l with
  | memory l => rw [h]; rfl
  | file l =>
    rw [Layer.size, Action.perform_bind, FileLayer.digestAndSize_of_stored h]
    rfl

theorem KnowsDiffId.diffId {d : Digest} (h : l.KnowsDiffId w d) : l.diffId.perform w = (.ok d, w) := by
  cases l with
  | memory l => rw [h]; rfl
  | file l => exact FileLayer.diffId_of_memo h

/-- Whether asking a layer leads to workspaces that stand in a relation to those where it begins. -/
structure Asks (r : Workspace → Workspace → Prop) (l : Layer) : Prop where
  digest : l.digest.Leads r
  size : l.size.Leads r
  diffId : l.diffId.Leads r

theorem asks_memory (r : Workspace → Workspace → Prop) [IsPreorder Workspace r] (l : MemoryLayer) :
    (memory l).Asks r := ⟨.pure _, .pure _, .pure _⟩

/-- Only the two computations on the file count. -/
theorem asks_file {r : Workspace → Workspace → Prop} [IsPreorder Workspace r] {l : FileLayer}
    (hs : l.digestAndSize.Leads r) (hd : l.diffId.Leads r) : (file l).Asks r :=
  ⟨hs.bind fun _ => .pure _, hs.bind fun _ => .pure _, hd⟩

/-- To deliver its bytes a layer changes nothing. -/
theorem leads_contents (r : Workspace → Workspace → Prop) [IsPreorder Workspace r] (l : Layer) :
    l.contents.Leads r := by
  cases l with
  | memory l => exact .pure _
  | file l => exact .mapFault (.ofFiles _) _

/-- Whatever a layer is asked, nothing that is known is forgotten. -/
theorem asks_remembers (l : Layer) : l.Asks Remembers := by
  cases l with
  | memory l => exact asks_memory _ l
  | file l => exact asks_file l.remembers_digestAndSize l.remembers_diffId

/-- After a layer has told its digest, the digest and the size are known. -/
theorem digest_ok {d : Digest} (h : l.digest.perform w = (.ok d, w')) :
    w.Remembers w' ∧ w'.files = w.files ∧ (w.Holds l → ∃ n, l.Knows w' (d, n)) := by
  cases l with
  | memory l =>
    simp only [Layer.digest, Action.perform_pure, Prod.mk.injEq, Except.ok.injEq] at h
    obtain ⟨rfl, rfl⟩ := h
    exact ⟨.refl w, rfl, fun _ => ⟨_, rfl⟩⟩
  | file l =>
    obtain ⟨s, rfl, hr, hf, hk⟩ := FileLayer.digestAndSize_bind_ok h
    exact ⟨hr, hf, fun hid => ⟨s.2, hk hid⟩⟩

theorem size_ok {n : Nat} (h : l.size.perform w = (.ok n, w')) :
    w.Remembers w' ∧ w'.files = w.files ∧ (w.Holds l → ∃ d, l.Knows w' (d, n)) := by
  cases l with
  | memory l =>
    simp only [Layer.size, Action.perform_pure, Prod.mk.injEq, Except.ok.injEq] at h
    obtain ⟨rfl, rfl⟩ := h
    exact ⟨.refl w, rfl, fun _ => ⟨_, rfl⟩⟩
  | file l =>
    obtain ⟨s, rfl, hr, hf, hk⟩ := FileLayer.digestAndSize_bind_ok h
    exact ⟨hr, hf, fun hid => ⟨s.1, hk hid⟩⟩

theorem diffId_ok {d : Digest} (h : l.diffId.perform w = (.ok d, w')) :
    w.Remembers w' ∧ w'.files = w.files ∧ (w.Holds l → l.KnowsDiffId w' d) := by
  cases l with
  | memory l =>
    simp only [Layer.diffId, Action.perform_pure, Prod.mk.injEq, Except.ok.injEq] at h
    obtain ⟨rfl, rfl⟩ := h
    exact ⟨.refl w, rfl, fun _ => rfl⟩
  | file l => exact FileLayer.diffId_ok h

/-- A layer that has been opened answers with a diff id and changes nothing just if the diff id is known. -/
theorem perform_diffId_eq_iff {d : Digest} (hl : w.Holds l) :
    l.diffId.perform w = (.ok d, w) ↔ l.KnowsDiffId w d :=
  ⟨fun h => (diffId_ok h).2.2 hl, KnowsDiffId.diffId⟩

/-- The kind of the error of a layer that cannot tell the digest of its stored bytes. -/
theorem kind_of_digest_error {fault : Fault} (h : (l.digest.perform w).1 = .error fault) :
    fault.kind = .layerDigest := by
  cases l with
  | memory l => simp [digest] at h
  | file l =>
    rw [digest, Action.perform_bind] at h
    rcases hasked : l.digestAndSize.perform w with ⟨fault' | s, w'⟩
    · obtain rfl : fault' = fault := by simpa [hasked] using h
      have hfresh := l.recalls_digestAndSize.error (congrArg Prod.fst hasked)
      rw [FileLayer.freshStored] at hfresh
      cases hf : (w.files.openPath l.path).bind Digest.ofFeed with
      | ok s => simp [hf, Except.mapError] at hfresh
      | error e =>
        rw [hf] at hfresh
        cases hfresh
        rfl
    · simp [hasked] at h

/-- The kind of the error of a layer that cannot tell the digest of its content. -/
theorem kind_of_diffId_error {fault : Fault} (h : (l.diffId.perform w).1 = .error fault) :
    fault.kind = .layerDiffId := by
  cases l with
  | memory l => simp [diffId] at h
  | file l =>
    have hfresh := l.recalls_diffId.error h
    rw [FileLayer.freshDiffId] at hfresh
    cases ho : w.files.openPath l.path with
    | error e =>
      simp only [ho, Except.mapError, Except.error.injEq] at hfresh
      rw [← hfresh]
      rfl
    | ok feed =>
      cases hf : Digest.ofFeed (l.uncompressed feed) with
      | ok s => simp [ho, hf, Except.mapError] at hfresh
      | error e =>
        simp only [ho, hf, Except.mapError, Except.error.injEq] at hfresh
        rw [← hfresh]
        rfl

end Layer

end ImageAssembly
