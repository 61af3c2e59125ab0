import ImageAssembly.ErrorKind
import ImageAssembly.Proofs.Layer.Asking

/-! Two runs in step. Work that is done in two states that stand in a relation leads to two such states, and either
succeeds in both with answers that belong together or fails in both with errors of one kind. -/

namespace ImageAssembly

/-- Whether two outcomes are answers that stand in a relation, or errors of one kind. -/
inductive Matched {ε α β : Type} (kind : ε → ErrorKind) (q : α → β → Prop) : Except ε α → Except ε β → Prop
  | ok {x : α} {y : β} (h : q x y) : Matched kind q (.ok x) (.ok y)
  | error {e e' : ε} (h : kind e = kind e') : Matched kind q (.error e) (.error e')

namespace Matched

variable {ε δ α β : Type} {kind : ε → ErrorKind} {kind' : δ → ErrorKind} {q : α → β → Prop}

theorem refl (kind : ε → ErrorKind) (x : Except ε α) : Matched kind (· = ·) x x := by
  cases x with
  | error e => exact .error rfl
  | ok x => exact .ok rfl

theorem mapError {x : Except ε α} {y : Except ε β} {f : ε → δ} (h : Matched kind q x y)
    (hf : ∀ e e', kind e = kind e' → kind' (f e) = kind' (f e')) : Matched kind' q (x.mapError f) (y.mapError f) := by
  cases h with
  | ok h => exact .ok h
  | error h => exact .error (hf _ _ h)

theorem imp {p : α → β → Prop} {x : Except ε α} {y : Except ε β} (h : Matched kind q x y)
    (hp : ∀ a b, q a b → p a b) : Matched kind p x y := by
  cases h with
  | ok h => exact .ok (hp _ _ h)
  | error h => exact .error h

theorem symm {x : Except ε α} {y : Except ε β} (h : Matched kind q x y) : Matched kind (fun b a => q a b) y x := by
  cases h with
  | ok h => exact .ok h
  | error h => exact .error h.symm

/-- Outcomes that match through a third. -/
theorem trans {γ : Type} {p : β → γ → Prop} {r : α → γ → Prop} {x : Except ε α} {y : Except ε β} {z : Except ε γ}
    (h : Matched kind q x y) (h' : Matched kind p y z) (hr : ∀ a b c, q a b → p b c → r a c) : Matched kind r x z := by
  cases h with
  | ok h => cases h' with
    | ok h' => exact .ok (hr _ _ _ h h')
  | error h => cases h' with
    | error h' => exact .error (h.trans h')

end Matched

/-- Whether two pieces of work stay in step. -/
def InStep {σ ε α β : Type} (r : σ → σ → Prop) (kind : ε → ErrorKind) (q : α → β → Prop) (a : ExceptT ε (StateM σ) α)
    (b : ExceptT ε (StateM σ) β) : Prop :=
  ∀ s t, r s t → Matched kind q (a.run.run s).1 (b.run.run t).1 ∧ r (a.run.run s).2 (b.run.run t).2

namespace InStep

section

variable {σ ε α α' β β' : Type} {r : σ → σ → Prop} {kind : ε → ErrorKind} {p : α → α' → Prop} {q : β → β' → Prop}

theorem pure {x : α} {y : α'} (h : p x y) :
    InStep r kind p (Pure.pure x : ExceptT ε (StateM σ) α) (Pure.pure y : ExceptT ε (StateM σ) α') :=
  fun _ _ hr => ⟨.ok h, hr⟩

theorem throw {e e' : ε} (h : kind e = kind e') :
    InStep r kind p (MonadExcept.throw e : ExceptT ε (StateM σ) α) (MonadExcept.throw e' : ExceptT ε (StateM σ) α') :=
  fun _ _ hr => ⟨.error h, hr⟩

/-- Behind an error nothing is done. -/
theorem throw_bind {e e' : ε} {f : α → ExceptT ε (StateM σ) β} {g : α' → ExceptT ε (StateM σ) β'}
    (h : kind e = kind e') : InStep r kind q (MonadExcept.throw e >>= f) (MonadExcept.throw e' >>= g) :=
  fun _ _ hr => ⟨.error h, hr⟩

/-- What follows matters only where both first parts have succeeded. -/
theorem bind {a : ExceptT ε (StateM σ) α} {b : ExceptT ε (StateM σ) α'} {f : α → ExceptT ε (StateM σ) β}
    {g : α' → ExceptT ε (StateM σ) β'} (h : InStep r kind p a b) (hf : ∀ x y, p x y → InStep r kind q (f x) (g y)) :
    InStep r kind q (a >>= f) (b >>= g) := by
  intro s t hr
  obtain ⟨houtcome, hr'⟩ := h s t hr
  rw [run_bind_eq, run_bind_eq]
  rcases ha : a.run.run s with ⟨e | x, s'⟩ <;> rcases hb : b.run.run t with ⟨e' | y, t'⟩ <;>
    rw [ha, hb] at houtcome hr' <;> cases houtcome
  · next herror => exact ⟨.error herror, hr'⟩
  · next hxy => exact hf x y hxy s' t' hr'

/-- Work that looks at the state first. -/
theorem get_bind {f g : σ → ExceptT ε (StateM σ) β} {q : β → β → Prop}
    (h : ∀ s t, r s t → InStep r kind q (f s) (g t)) : InStep r kind q (get >>= f) (get >>= g) :=
  fun s t hr => h s t hr s t hr

theorem modify {f g : σ → σ} (h : ∀ s t, r s t → r (f s) (g t)) :
    InStep r kind (· = ·) (modify f : ExceptT ε (StateM σ) Unit) (modify g : ExceptT ε (StateM σ) Unit) :=
  fun s t hr => ⟨.ok rfl, h s t hr⟩

theorem refl (kind : ε → ErrorKind) (a : ExceptT ε (StateM σ) α) : InStep (· = ·) kind (· = ·) a a := by
  rintro s _ rfl
  exact ⟨.refl _ _, rfl⟩

/-- What the relation says of the states where the work begins can be used of the work itself. -/
theorem given {a : ExceptT ε (StateM σ) α} {b : ExceptT ε (StateM σ) α'}
    (h : ∀ s t, r s t → InStep r kind p a b) : InStep r kind p a b := fun s t hr => h s t hr s t hr

end

variable {ε δ α β : Type} {r : Workspace → Workspace → Prop} {kind : ε → ErrorKind} {kind' : δ → ErrorKind}
variable {q : α → β → Prop} {a : Action ε α} {b : Action ε β}

theorem ofExcept {x : Except ε α} {y : Except ε β} (h : Matched kind q x y) :
    InStep r kind q (Action.ofExcept x) (Action.ofExcept y) := fun _ _ hr => ⟨h, hr⟩

theorem ofFiles (kind : ε → ErrorKind) {f : Files → Except ε α} {g : Files → Except ε β}
    (h : ∀ w v, r w v → Matched kind q (f w.files) (g v.files)) :
    InStep r kind q (Action.ofFiles f) (Action.ofFiles g) :=
  fun w v hr => ⟨h w v hr, hr⟩

/-- Work that stays in step from one state succeeds alike. -/
theorem ok_iff {a b : Action ε α} {x : α} {w w' : Workspace} (h : InStep (· = ·) kind (· = ·) a b) :
    a.perform w = (.ok x, w') ↔ b.perform w = (.ok x, w') := by
  obtain ⟨houtcome, hstate⟩ := h w w rfl
  rw [Action.perform, Action.perform]
  rcases ha : a.run.run w with ⟨e | y, w1⟩ <;> rcases hb : b.run.run w with ⟨e' | y', w2⟩ <;>
    rw [ha, hb] at houtcome hstate <;> cases houtcome
  · simp
  · next hy => rw [hy, show w1 = w2 from hstate]

/-- Two views of faults that keep kinds apart no further. -/
theorem mapFault {f : ε → δ} (h : InStep r kind q a b) (hf : ∀ e e', kind e = kind e' → kind' (f e) = kind' (f e')) :
    InStep r kind' q (a.mapFault f) (b.mapFault f) := by
  intro w v hr
  obtain ⟨houtcome, hr'⟩ := h w v hr
  have ha := a.perform_mapFault f w
  have hb := b.perform_mapFault f v
  rw [Action.perform] at ha hb
  rw [ha, hb]
  exact ⟨houtcome.mapError hf, hr'⟩

end InStep

end ImageAssembly
