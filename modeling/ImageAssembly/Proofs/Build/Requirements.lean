import ImageAssembly.ErrorKind
import ImageAssembly.Proofs.Layer.Asking

/-! Requirements in order. Work settles a list of them when it succeeds just if all hold, and otherwise
reports the first that does not. -/

namespace ImageAssembly

/-- Something that must hold, with the kind of the error that is reported where it does not. -/
structure Requirement where
  kind : ErrorKind
  holds : Prop

namespace Requirement

/-- Whether an outcome is what requirements, in their order, call for. -/
inductive Settles : List Requirement → Except ErrorKind Unit → Prop
  | none : Settles [] (.ok ())
  | met {r : Requirement} {rs : List Requirement} {x : Except ErrorKind Unit} (h : r.holds)
    (hs : Settles rs x) : Settles (r :: rs) x
  | unmet {r : Requirement} {rs : List Requirement} (h : ¬ r.holds) : Settles (r :: rs) (.error r.kind)

/-- What is reported of some work. -/
def verdict {ε α : Type} (kind : ε → ErrorKind) : Except ε α → Except ErrorKind Unit
  | .ok _ => .ok ()
  | .error fault => .error (kind fault)

namespace Settles

variable {r : Requirement} {rs rs' : List Requirement} {x : Except ErrorKind Unit} {k : ErrorKind}

/-- The outcome is a success just if all requirements hold. -/
theorem eq_ok_iff (h : Settles rs x) : x = .ok () ↔ ∀ r ∈ rs, r.holds := by
  induction h with
  | none => simp
  | met h _ ih => simp [h, ih]
  | unmet h => simp [h]

/-- An error is that of the first requirement that does not hold. -/
theorem first_unmet (h : Settles rs (.error k)) :
    ∃ before r after, rs = before ++ r :: after ∧ (∀ q ∈ before, q.holds) ∧ ¬ r.holds ∧ r.kind = k := by
  generalize hx : Except.error k = x at h
  induction h with
  | none => cases hx
  | @met r rs x h _ ih =>
    obtain ⟨before, q, after, rfl, hbefore, hq⟩ := ih hx
    refine ⟨r :: before, q, after, rfl, ?_, hq⟩
    rintro p (_ | ⟨_, hp⟩)
    · exact h
    · exact hbefore p hp
  | @unmet r rs h =>
    cases hx
    exact ⟨[], r, rs, rfl, by simp, h, rfl⟩

theorem single (hmet : r.holds → x = .ok ()) (hunmet : ¬ r.holds → x = .error r.kind) : Settles [r] x := by
  by_cases h : r.holds
  · rw [hmet h]
    exact .met h .none
  · rw [hunmet h]
    exact .unmet h

theorem append_ok (h : Settles rs (.ok ())) (h' : Settles rs' x) : Settles (rs ++ rs') x := by
  generalize hy : Except.ok () = y at h
  induction h with
  | none => exact h'
  | met h _ ih => exact .met h (ih hy)
  | unmet h => cases hy

theorem append_error (h : Settles rs (.error k)) : Settles (rs ++ rs') (.error k) := by
  generalize hy : Except.error k = y at h
  induction h with
  | none => cases hy
  | met h _ ih => exact .met h (ih hy)
  | unmet h => exact .unmet h

variable {ε δ α β : Type} {w : Workspace}

/-- Work in two parts: the requirements of the second count where the first succeeds. -/
theorem bind {kind : ε → ErrorKind} {a : Action ε α} {f : α → Action ε β}
    (ha : Settles rs (verdict kind (a.perform w).1))
    (hf : ∀ x w', a.perform w = (.ok x, w') → Settles rs' (verdict kind ((f x).perform w').1)) :
    Settles (rs ++ rs') (verdict kind ((a >>= f).perform w).1) := by
  rw [Action.perform_bind]
  rcases h : a.perform w with ⟨fault | x, w'⟩
  · rw [h] at ha
    exact ha.append_error
  · rw [h] at ha
    exact ha.append_ok (hf x w' h)

/-- The first part has one requirement. -/
theorem bind_cons {kind : ε → ErrorKind} {a : Action ε α} {f : α → Action ε β}
    (ha : Settles [r] (verdict kind (a.perform w).1))
    (hf : ∀ x w', a.perform w = (.ok x, w') → Settles rs (verdict kind ((f x).perform w').1)) :
    Settles (r :: rs) (verdict kind ((a >>= f).perform w).1) := ha.bind hf

theorem ofExcept {kind : ε → ErrorKind} {x : Except ε α} (h : Settles rs (verdict kind x)) :
    Settles rs (verdict kind ((Action.ofExcept x).perform w).1) := h

theorem bindExcept {kind : ε → ErrorKind} {a : Except ε α} {f : α → Except ε β}
    (ha : Settles rs (verdict kind a)) (hf : ∀ x, a = .ok x → Settles rs' (verdict kind (f x))) :
    Settles (rs ++ rs') (verdict kind (a >>= f)) := by
  cases a with
  | error fault => exact ha.append_error
  | ok x => exact ha.append_ok (hf x rfl)

/-- What follows cannot fail. -/
theorem bindExcept_ok {kind : ε → ErrorKind} {a : Except ε α} {f : α → Except ε β}
    (ha : Settles rs (verdict kind a)) (hf : ∀ x, a = .ok x → ∃ y, f x = .ok y) :
    Settles rs (verdict kind (a >>= f)) := by
  rw [← List.append_nil rs]
  refine ha.bindExcept fun x hx => ?_
  obtain ⟨y, hy⟩ := hf x hx
  rw [hy]
  exact .none

theorem bind_ok {kind : ε → ErrorKind} {a : Action ε α} {f : α → Action ε β}
    (ha : Settles rs (verdict kind (a.perform w).1))
    (hf : ∀ x w', a.perform w = (.ok x, w') → ∃ y, ((f x).perform w').1 = .ok y) :
    Settles rs (verdict kind ((a >>= f).perform w).1) := by
  rw [← List.append_nil rs]
  refine ha.bind fun x w' hx => ?_
  obtain ⟨y, hy⟩ := hf x w' hx
  rw [hy]
  exact .none

theorem mapFault {kind : δ → ErrorKind} {f : ε → δ} {a : Action ε α}
    (ha : Settles rs (verdict (kind ∘ f) (a.perform w).1)) :
    Settles rs (verdict kind ((a.mapFault f).perform w).1) := by
  rw [Action.perform_mapFault]
  rcases h : (a.perform w).1 with fault | x
  · rw [h] at ha
    exact ha
  · rw [h] at ha
    exact ha

end Settles

end Requirement

end ImageAssembly
