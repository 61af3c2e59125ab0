import ImageAssembly.Proofs.Layer.Making

/-! The life of a layer file. Once opened it is asked for its digest, its size and its diff id in any order, while
its file comes, changes and goes. The memo has two parts, one for the stored bytes and one for the content; each is
filled by the first question about it that can be answered, and from then on the answers stay. -/

namespace ImageAssembly

open Workspace Layer

namespace FileLayer

/-! ### What a file answers -/

/-- A path leads to a file that can be read, or nothing comes of opening it. -/
theorem exists_read_or (fs : Files) (path : String) : (∃ content, fs.read path = .ok content) ∨
    (∃ fault, fs.openPath path = .error fault) ∨ fs.openPath path = .ok (.failed .isDirectory) := by
  cases hfind : fs.find path with
  | error fault => exact .inr (.inl ⟨fault, by rw [Files.openPath, hfind]; rfl⟩)
  | ok e => cases e with
    | file content => exact .inl ⟨content, Files.read_eq_ok.2 hfind⟩
    | directory => exact .inr (.inr (by rw [Files.openPath, hfind]; rfl))

theorem freshStored_eq_ok {l : FileLayer} {fs : Files} {s : Digest × Nat} : l.freshStored fs = .ok s ↔
    ∃ content, fs.read l.path = .ok content ∧ s = (.sha256 content, content.size) := by
  have hfresh : ∀ content, fs.read l.path = .ok content → l.freshStored fs = .ok (.sha256 content, content.size) :=
    fun content hread => @Layer.freshStored_eq ⟨fs, []⟩ content l (Files.openPath_of_read hread)
  constructor
  · intro h
    obtain ⟨content, hread⟩ | ⟨fault, hopen⟩ | hopen := exists_read_or fs l.path
    · exact ⟨content, hread, Except.ok.inj (h.symm.trans (hfresh content hread))⟩
    · rw [freshStored, hopen] at h
      cases h
    · rw [freshStored, hopen] at h
      cases h
  · rintro ⟨content, hread, rfl⟩
    exact hfresh content hread

theorem freshDiffId_eq_ok {l : FileLayer} {fs : Files} {d : Digest} : l.freshDiffId fs = .ok d ↔
    ∃ content plain, fs.read l.path = .ok content ∧ plainContent l.isCompressed content = .ok plain ∧
      d = .sha256 plain := by
  have hfresh : ∀ content, fs.read l.path = .ok content → (l.freshDiffId fs = .ok d ↔ _) :=
    fun content hread => @Layer.freshDiffId_eq_ok ⟨fs, []⟩ content l d (Files.openPath_of_read hread)
  constructor
  · intro h
    obtain ⟨content, hread⟩ | ⟨fault, hopen⟩ | hopen := exists_read_or fs l.path
    · obtain ⟨plain, hplain, hd⟩ := (hfresh content hread).1 h
      exact ⟨content, plain, hread, hplain, hd⟩
    · rw [freshDiffId, hopen] at h
      cases h
    · rw [freshDiffId, hopen] at h
      cases h
  · rintro ⟨content, plain, hread, hplain, hd⟩
    exact (hfresh content hread).2 ⟨plain, hplain, hd⟩

/-! ### Events -/

/-- What happens to a layer: it is asked, or the files become others. -/
inductive Event
  | digest
  | size
  | diffId
  | change (files : Files)

/-- What comes of an event. -/
inductive Told
  | digest (d : Digest)
  | size (n : Nat)
  | diffId (d : Digest)
  | nothing
  deriving DecidableEq

/-- The parts of a memo. -/
inductive Part
  | stored
  | diffId
  deriving DecidableEq

/-- The part of the memo that a question is about: the digest and the size share one. -/
def Event.part : Event → Option Part
  | .digest | .size => some .stored
  | .diffId => some .diffId
  | .change _ => none

/-- What is done at an event. -/
def meet (l : FileLayer) : Event → Action Layer.Fault Told
  | .digest => do return .digest (← (Layer.file l).digest)
  | .size => do return .size (← (Layer.file l).size)
  | .diffId => do return .diffId (← (Layer.file l).diffId)
  | .change files => do
    Action.setFiles files
    return .nothing

/-- An event with the workspaces before and after it, and what came of it. -/
structure Moment where
  before : Workspace
  event : Event
  outcome : Except Layer.Fault Told
  after : Workspace

def Moment.Succeeds (m : Moment) : Prop := ∃ t, m.outcome = .ok t

def moment (l : FileLayer) (w : Workspace) (e : Event) : Moment :=
  ⟨w, e, ((l.meet e).perform w).1, ((l.meet e).perform w).2⟩

/-- The moments of a run of events, each beginning where the one before ended. -/
def life (l : FileLayer) (w : Workspace) : List Event → List Moment
  | [] => []
  | e :: es => l.moment w e :: l.life (l.moment w e).after es

/-! ### One event -/

/-- The answer to a question where the file holds some content. -/
def answer (l : FileLayer) (content : ByteArray) : Event → Except Gzip.Fault Told
  | .digest => .ok (.digest (.sha256 content))
  | .size => .ok (.size content.size)
  | .diffId => (plainContent l.isCompressed content).map fun plain => .diffId (.sha256 plain)
  | .change _ => .ok .nothing

/-- The answer to a question that a memo holds. -/
def remembered (memo : Memo) : Event → Option Told
  | .digest => memo.stored.map fun s => .digest s.1
  | .size => memo.stored.map fun s => .size s.2
  | .diffId => memo.diffId.map .diffId
  | .change _ => none

/-- A memo with the part filled that a question is about. -/
def Part.filled (p : Part) (l : FileLayer) (content : ByteArray) (memo : Memo) : Memo :=
  match p with
  | .stored => { memo with stored := some (.sha256 content, content.size) }
  | .diffId => { memo with diffId := (plainContent l.isCompressed content).toOption.map .sha256 }

/-- All that an event can do. -/
inductive Step (l : FileLayer) (w : Workspace) : Moment → Prop
  | changed (files : Files) : Step l w ⟨w, .change files, .ok .nothing, { w with files }⟩
  | recalled {e : Event} {t : Told} (h : remembered (w.memo l.id) e = some t) : Step l w ⟨w, e, .ok t, w⟩
  | learnt {e : Event} {p : Part} {content : ByteArray} {t : Told} (hp : e.part = some p)
    (hnone : remembered (w.memo l.id) e = none) (hread : w.files.read l.path = .ok content)
    (ht : l.answer content e = .ok t) :
    Step l w ⟨w, e, .ok t, w.setMemo l.id (p.filled l content (w.memo l.id))⟩
  | failed {e : Event} {fault : Layer.Fault} (hp : e.part ≠ none) (hnone : remembered (w.memo l.id) e = none)
    (h : ∀ content t, w.files.read l.path = .ok content → l.answer content e ≠ .ok t) :
    Step l w ⟨w, e, .error fault, w⟩

/-- A question about the stored bytes, whatever of the digest and the size it asks for. -/
theorem step_of_stored {l : FileLayer} {e : Event} {f : Digest × Nat → Told} (hp : e.part = some .stored)
    (hmeet : l.meet e = do return f (← l.digestAndSize)) (hremembered : ∀ memo, remembered memo e = memo.stored.map f)
    (hanswer : ∀ content, l.answer content e = .ok (f (.sha256 content, content.size))) (w : Workspace) :
    l.Step w (l.moment w e) := by
  rw [moment, hmeet, Action.perform_bind, l.recalls_digestAndSize w]
  cases hmemo : (w.memo l.id).stored with
  | some s => exact .recalled (by rw [hremembered, hmemo]; rfl)
  | none =>
    have hnone : remembered (w.memo l.id) e = none := by rw [hremembered, hmemo]; rfl
    cases hfresh : l.freshStored w.files with
    | ok s =>
      obtain ⟨content, hread, rfl⟩ := freshStored_eq_ok.1 hfresh
      exact .learnt hp hnone hread (hanswer content)
    | error fault =>
      refine .failed (by simp [hp]) hnone fun content t hread _ => ?_
      rw [freshStored_eq_ok.2 ⟨content, hread, rfl⟩] at hfresh
      cases hfresh

theorem step_of_diffId (l : FileLayer) (w : Workspace) : l.Step w (l.moment w .diffId) := by
  have hmeet : l.meet .diffId = do return .diffId (← l.diffId) := rfl
  rw [moment, hmeet, Action.perform_bind, l.recalls_diffId w]
  cases hmemo : (w.memo l.id).diffId with
  | some d => exact .recalled (by rw [remembered, hmemo]; rfl)
  | none =>
    have hnone : remembered (w.memo l.id) .diffId = none := by rw [remembered, hmemo]; rfl
    cases hfresh : l.freshDiffId w.files with
    | ok d =>
      obtain ⟨content, plain, hread, hplain, rfl⟩ := freshDiffId_eq_ok.1 hfresh
      have hanswer : l.answer content .diffId = .ok (.diffId (.sha256 plain)) := by rw [answer, hplain]; rfl
      have hlearnt := Step.learnt (l := l) (p := .diffId) rfl hnone hread hanswer
      rwa [Part.filled, hplain] at hlearnt
    | error fault =>
      refine .failed nofun hnone fun content t hread ht => ?_
      rw [answer] at ht
      cases hplain : plainContent l.isCompressed content with
      | error e => simp [hplain, Except.map] at ht
      | ok plain =>
        rw [freshDiffId_eq_ok.2 ⟨content, plain, hread, hplain, rfl⟩] at hfresh
        cases hfresh

theorem step_moment (l : FileLayer) (w : Workspace) (e : Event) : l.Step w (l.moment w e) := by
  cases e with
  | digest =>
    exact step_of_stored (f := fun s => .digest s.1) rfl (by simp only [meet, Layer.digest, bind_assoc, pure_bind])
      (fun _ => rfl) (fun _ => rfl) w
  | size =>
    exact step_of_stored (f := fun s => .size s.2) rfl (by simp only [meet, Layer.size, bind_assoc, pure_bind])
      (fun _ => rfl) (fun _ => rfl) w
  | diffId => exact l.step_of_diffId w
  | change files => exact .changed files

/-! ### What a step keeps and what it fills -/

variable {l : FileLayer} {w : Workspace} {m : Moment} {e e' : Event} {p : Part} {t : Told}

theorem remembered_filled (hp : e.part = some p) (content : ByteArray) (memo : Memo) :
    remembered (p.filled l content memo) e = (l.answer content e).toOption := by
  cases e with
  | digest => cases hp; rfl
  | size => cases hp; rfl
  | diffId =>
    cases hp
    rw [remembered, Part.filled, answer]
    cases plainContent l.isCompressed content <;> rfl
  | change files => cases hp

theorem remembered_filled_of_ne (hp : e.part ≠ some p) (content : ByteArray) (memo : Memo) :
    remembered (p.filled l content memo) e = remembered memo e := by
  cases p <;> cases e <;> simp_all [Event.part, Part.filled, remembered]

theorem exists_answer_congr (h : e.part = e'.part) {content : ByteArray} (ht : l.answer content e = .ok t) :
    ∃ t', l.answer content e' = .ok t' := by
  cases e <;> cases e' <;> simp_all [Event.part, answer]

theorem remembers_moment (l : FileLayer) (w : Workspace) (e : Event) : w.Remembers (l.moment w e).after := by
  have hasks := (Layer.file l).asks_remembers
  cases e with
  | digest => exact hasks.digest.bind (fun _ => .pure _) w
  | size => exact hasks.size.bind (fun _ => .pure _) w
  | diffId => exact hasks.diffId.bind (fun _ => .pure _) w
  | change files => exact remembers_files w files

theorem remembered_of_remembers {w' : Workspace} (h : w.Remembers w') (ht : remembered (w.memo l.id) e = some t) :
    remembered (w'.memo l.id) e = some t := by
  cases e with
  | digest =>
    obtain ⟨s, hs, rfl⟩ := Option.map_eq_some_iff.1 ht
    rw [remembered, h.stored l.id s hs]
    rfl
  | size =>
    obtain ⟨s, hs, rfl⟩ := Option.map_eq_some_iff.1 ht
    rw [remembered, h.stored l.id s hs]
    rfl
  | diffId =>
    obtain ⟨d, hd, rfl⟩ := Option.map_eq_some_iff.1 ht
    rw [remembered, h.diffId l.id d hd]
    rfl
  | change files => cases ht

/-- Whether a layer has been opened, and a part of its memo is empty. -/
structure Unanswered (l : FileLayer) (p : Part) (w : Workspace) : Prop where
  held : w.Holds (.file l)
  none : ∀ e, e.part = some p → remembered (w.memo l.id) e = none

theorem Step.holds (h : l.Step w m) (hw : w.Holds (.file l)) : m.after.Holds (.file l) := by
  cases h with
  | learnt => simpa [Workspace.Holds] using hw
  | _ => exact hw

theorem Step.outcome_of_remembered (h : l.Step w m) (ht : remembered (w.memo l.id) m.event = some t) :
    m.outcome = .ok t := by
  cases h with
  | changed files => cases ht
  | recalled h => exact congrArg _ (Option.some.inj (h.symm.trans ht))
  | learnt _ hnone _ _ => cases hnone.symm.trans ht
  | failed _ hnone _ => cases hnone.symm.trans ht

/-- A part of the memo stays empty unless a question about it is answered. -/
theorem Step.unanswered (h : l.Step w m) (hw : l.Unanswered p w) (hm : m.event.part = some p → ¬m.Succeeds) :
    l.Unanswered p m.after := by
  refine ⟨h.holds hw.held, fun e he => ?_⟩
  cases h with
  | @learnt e' q content t hq hnone hread ht =>
    have hne : p ≠ q := by
      rintro rfl
      exact hm hq ⟨t, rfl⟩
    dsimp only
    rw [memo_setMemo, if_pos ⟨rfl, hw.held⟩, remembered_filled_of_ne (by simpa [he] using hne), hw.none e he]
  | _ => exact hw.none e he

/-- The first answer about a part is that of the content which the file has, and the part is filled from it. -/
theorem Step.first (h : l.Step w m) (hw : l.Unanswered p w) (hp : m.event.part = some p) (hm : m.Succeeds) :
    ∃ content, w.files.read l.path = .ok content ∧ (∃ t, l.answer content m.event = .ok t ∧ m.outcome = .ok t) ∧
      ∀ e, e.part = some p → ∃ t, l.answer content e = .ok t ∧ remembered (m.after.memo l.id) e = some t := by
  cases h with
  | changed files => cases hp
  | recalled h =>
    rw [hw.none _ hp] at h
    cases h
  | failed => exact absurd hm nofun
  | @learnt e q content t hq hnone hread ht =>
    obtain rfl : q = p := Option.some.inj (hq.symm.trans hp)
    refine ⟨content, hread, ⟨t, ht, rfl⟩, fun e' he' => ?_⟩
    obtain ⟨t', ht'⟩ := exists_answer_congr (hp.trans he'.symm) ht
    refine ⟨t', ht', ?_⟩
    dsimp only
    rw [memo_setMemo, if_pos ⟨rfl, hw.held⟩, remembered_filled he', ht']
    rfl

/-! ### Runs -/

theorem step_of_mem_life {es : List Event} (h : m ∈ l.life w es) : l.Step m.before m := by
  induction es generalizing w with
  | nil => cases h
  | cons e es ih =>
    rcases List.mem_cons.1 h with rfl | h
    · exact l.step_moment w e
    · exact ih h

/-- What is remembered is told for the rest of the run. -/
theorem outcome_of_remembered {es : List Event} (h : remembered (w.memo l.id) e = some t) :
    ∀ m ∈ l.life w es, m.event = e → m.outcome = .ok t := by
  induction es generalizing w with
  | nil => nofun
  | cons e' es ih =>
    intro m hm he
    rcases List.mem_cons.1 hm with rfl | hm
    · subst he
      exact (l.step_moment w e').outcome_of_remembered h
    · exact ih (remembered_of_remembers (l.remembers_moment w e') h) m hm he

/-- Up to the first answer about a part this part of the memo is empty, and what follows is again a run. -/
theorem life_eq_append {es : List Event} {earlier later : List Moment} (h : l.life w es = earlier ++ m :: later)
    (hw : l.Unanswered p w) (hearlier : ∀ q ∈ earlier, q.event.part = some p → ¬q.Succeeds) :
    l.Unanswered p m.before ∧ ∃ rest, later = l.life m.after rest := by
  induction earlier generalizing w es with
  | nil =>
    cases es with
    | nil => cases h
    | cons e es =>
      obtain ⟨rfl, rfl⟩ := List.cons.inj h
      exact ⟨hw, es, rfl⟩
  | cons q earlier ih =>
    cases es with
    | nil => cases h
    | cons e es =>
      obtain ⟨rfl, htail⟩ := List.cons.inj h
      exact ih htail ((l.step_moment w e).unanswered hw (hearlier _ (by simp))) fun q hq => hearlier q (by simp [hq])

/-! ### Layers that have been opened -/

/-- Whether a layer file has just been opened, with or without a look at its first bytes. -/
inductive Created (l : FileLayer) (w : Workspace) : Prop
  | ofType {path : String} {m : MediaType} {w0 : Workspace}
    (h : (ofType path m : Action Layer.Fault FileLayer).perform w0 = (.ok l, w))
  | openPath {path : String} {w0 : Workspace} (h : (openPath path).perform w0 = (.ok l, w))

theorem memo_of_ofType {path : String} {m : MediaType} {w0 : Workspace}
    (h : (ofType path m : Action Layer.Fault FileLayer).perform w0 = (.ok l, w)) :
    w.Holds (.file l) ∧ w.memo l.id = {} := by
  obtain ⟨-, -, hheld, rfl⟩ := ofType_ok h
  refine ⟨hheld, ?_⟩
  simp only [ofType, Action.perform_bind, Action.perform_get, Action.perform_set, Action.perform_pure,
    Prod.mk.injEq] at h
  obtain ⟨-, rfl⟩ := h
  simp [Workspace.memo]
  rfl

theorem Created.memo (h : l.Created w) : w.Holds (.file l) ∧ w.memo l.id = {} := by
  cases h with
  | ofType h => exact memo_of_ofType h
  | openPath h =>
    obtain ⟨feed, w1, -, h⟩ := Action.perform_bind_ok h
    obtain ⟨magic, w2, -, h⟩ := Action.perform_bind_ok h
    exact memo_of_ofType h

theorem Created.unanswered (h : l.Created w) (p : Part) : l.Unanswered p w := by
  obtain ⟨hheld, hmemo⟩ := h.memo
  refine ⟨hheld, fun e _ => ?_⟩
  rw [hmemo]
  cases e <;> rfl

/-- What a layer tells over a run, and what is kept in its memo on the way. -/
structure Steady (l : FileLayer) (run : List Moment) : Prop where
  /-- The first answer about a part is true of the content that the file has at that moment, and so is every later
  answer about this part. -/
  fixed : ∀ earlier m later p, run = earlier ++ m :: later → m.event.part = some p → m.Succeeds →
    (∀ q ∈ earlier, q.event.part = some p → ¬q.Succeeds) →
    ∃ content, m.before.files.read l.path = .ok content ∧ ∀ q ∈ m :: later, q.event.part = some p →
      ∃ t, l.answer content q.event = .ok t ∧ q.outcome = .ok t
  /-- A question that is not answered leaves everything as it was. -/
  failing : ∀ m ∈ run, ¬m.Succeeds → m.after = m.before
  /-- A question is answered at every moment at which the file's content has an answer. -/
  answered : ∀ m ∈ run, ∀ content t, m.before.files.read l.path = .ok content → l.answer content m.event = .ok t →
    m.Succeeds
  /-- A part of the memo is filled by questions about it only. -/
  apart : ∀ m ∈ run,
    (m.event.part ≠ some .stored → (m.after.memo l.id).stored = (m.before.memo l.id).stored) ∧
    (m.event.part ≠ some .diffId → (m.after.memo l.id).diffId = (m.before.memo l.id).diffId)

theorem Step.apart (h : l.Step w m) :
    (m.event.part ≠ some .stored → (m.after.memo l.id).stored = (w.memo l.id).stored) ∧
      (m.event.part ≠ some .diffId → (m.after.memo l.id).diffId = (w.memo l.id).diffId) := by
  cases h with
  | @learnt e p content t hp hnone hread ht =>
    dsimp only
    rw [memo_setMemo, hp]
    split_ifs
    · cases p
      · exact ⟨nofun, fun _ => rfl⟩
      · exact ⟨fun _ => rfl, nofun⟩
    · exact ⟨fun _ => rfl, fun _ => rfl⟩
  | _ => exact ⟨fun _ => rfl, fun _ => rfl⟩

theorem Step.after_of_fails (h : l.Step w m) (hm : ¬m.Succeeds) : m.after = w := by
  cases h with
  | failed => rfl
  | _ => exact absurd ⟨_, rfl⟩ hm

theorem Step.succeeds {content : ByteArray} (h : l.Step w m) (hread : w.files.read l.path = .ok content)
    (ht : l.answer content m.event = .ok t) : m.Succeeds := by
  cases h with
  | failed _ _ hfail => exact absurd ht (hfail content t hread)
  | _ => exact ⟨_, rfl⟩

/-- Whatever a layer file is asked and whatever becomes of its file, in any order: what it has told once about its
stored bytes or about its content it tells again, both the digest and the size being those of one content of the file;
what it could not tell is not remembered. -/
theorem steady_life (h : l.Created w) (es : List Event) : l.Steady (l.life w es) where
  fixed earlier m later p hrun hp hm hearlier := by
    obtain ⟨hunanswered, rest, rfl⟩ := life_eq_append hrun (h.unanswered p) hearlier
    have hstep : l.Step m.before m := step_of_mem_life (by rw [hrun]; simp)
    obtain ⟨content, hread, hfirst, hfilled⟩ := hstep.first hunanswered hp hm
    refine ⟨content, hread, fun q hq hqp => ?_⟩
    rcases List.mem_cons.1 hq with rfl | hq
    · exact hfirst
    · obtain ⟨t, ht, hremembered⟩ := hfilled q.event hqp
      exact ⟨t, ht, outcome_of_remembered hremembered q hq rfl⟩
  failing m hm hfail := (step_of_mem_life hm).after_of_fails hfail
  answered m hm content t hread ht := (step_of_mem_life hm).succeeds hread ht
  apart m hm := (step_of_mem_life hm).apart

/-- A layer whose file comes late, is rewritten after the first answer, and is removed before the last question. -/
theorem steady_life_of_late_file :
    let l : FileLayer := ⟨0, "layer", .layer⟩
    let w : Workspace := ⟨.empty, [{}]⟩
    let written (content : ByteArray) := Event.change (Files.empty.put ["layer"] (.file content))
    let run := l.life w [.digest, written ⟨#[1]⟩, .size, written ⟨#[2, 3]⟩, .size, .change .empty, .size, .diffId]
    l.Created w ∧ run.map (·.outcome.toOption) = [none, some .nothing, some (.size 1), some .nothing,
      some (.size 1), some .nothing, some (.size 1), none] ∧ l.Steady run := by
  have hopened : (ofType "layer" .layer : Action Layer.Fault FileLayer).perform .empty =
      (.ok ⟨0, "layer", .layer⟩, ⟨.empty, [{}]⟩) := rfl
  have hcreated := Created.ofType hopened
  exact ⟨hcreated, by decide +kernel, steady_life hcreated _⟩

end FileLayer

end ImageAssembly
