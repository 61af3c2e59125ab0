import ImageAssembly.Files
import Mathlib.Tactic.SplitIfs

/-! Overwriting a file. What paths lead to elsewhere stays as it was, whatever is put in the place of a file. -/

namespace ImageAssembly.Files

variable {fs : Files} {place p : Place} {data : ByteArray}

theorem lookup_filter_ne (entries : List (Place × Entry)) (h : p ≠ place) :
    (entries.filter fun x => x.1 != place).lookup p = entries.lookup p := by
  induction entries with
  | nil => rfl
  | cons x entries ih =>
    rw [List.filter_cons, List.lookup_cons]
    by_cases hx : x.1 = place
    · have hp : (p == x.1) = false := by
        rw [hx]
        exact beq_false_of_ne h
      rw [if_neg (by simp [hx]), hp, ih]
    · rw [if_pos (by simp [hx]), List.lookup_cons, ih]

/-- What stands at a place after something has been put at another. -/
theorem entryAt?_put_of_ne (e : Entry) (h : p ≠ place) : (fs.put place e).entryAt? p = fs.entryAt? p := by
  rw [entryAt?, entryAt?, put, List.lookup_cons, beq_false_of_ne h, lookup_filter_ne _ h]

/-- What has been put at the place of a file stands there. -/
theorem entryAt?_put_self (e : Entry) (h : fs.entryAt? place ≠ some .directory) :
    (fs.put place e).entryAt? place = some e := by
  rw [entryAt?] at h
  split_ifs at h with hd
  · exact absurd rfl h
  · rw [entryAt?, if_neg hd, put, List.lookup_cons, beq_self_eq_true]

theorem resolveFrom_put (hd : fs.entryAt? place ≠ some .directory) {start : Place} {names : List String}
    (h : fs.resolveFrom start names = .ok p) : (fs.put place (.file data)).resolveFrom start names = .ok p := by
  induction names generalizing start with
  | nil => exact h
  | cons name names ih =>
    rw [resolveFrom] at h ⊢
    have hne : fs.entryAt? start = some .directory → start ≠ place := by
      rintro hs rfl
      exact hd hs
    cases hs : fs.entryAt? start with
    | none => simp [hs] at h
    | some e => cases e with
      | file data => simp [hs] at h
      | directory =>
        rw [entryAt?_put_of_ne _ (hne hs), hs]
        rw [hs] at h
        dsimp only at h ⊢
        split_ifs at h with hlong
        rw [if_neg hlong]
        exact ih h

/-- Where a path leads does not change when a file is overwritten. -/
theorem resolve_put {path : String} (hd : fs.entryAt? place ≠ some .directory) (h : fs.resolve path = .ok p) :
    (fs.put place (.file data)).resolve path = .ok p := by
  rw [resolve] at h ⊢
  cases hc : checkPath path with
  | error fault => simp [hc, bind, Except.bind] at h
  | ok start =>
    simp only [hc, bind, Except.bind] at h ⊢
    exact resolveFrom_put hd h

/-- A path where a file can be written leads to its place, where no directory stands. -/
theorem writablePlace_ok {path : String} (h : fs.writablePlace path = .ok place) :
    fs.resolve path = .ok place ∧ fs.entryAt? place ≠ some .directory := by
  rw [writablePlace] at h
  rw [resolve]
  cases hc : checkPath path with
  | error fault => simp [hc, bind, Except.bind] at h
  | ok start =>
    simp only [hc, bind, Except.bind] at h ⊢
    split_ifs at h with hslash
    · cases hr : fs.resolveFrom start.1 start.2.dropLast <;> simp [hr, throw, throwThe, MonadExceptOf.throw] at h
    · cases hr : fs.resolveFrom start.1 start.2 with
      | error fault => simp [hr] at h
      | ok p =>
        simp only [hr] at h
        cases he : fs.entryAt? p with
        | none =>
          simp only [he, pure, Except.pure, Except.ok.injEq] at h
          simp [← h, he]
        | some e => cases e with
          | directory => simp [he, throw, throwThe, MonadExceptOf.throw] at h
          | file data =>
            simp only [he, pure, Except.pure, Except.ok.injEq] at h
            simp [← h, he]

/-- What has been put at the place that a path leads to is read there. -/
theorem read_put {path : String} (h : fs.resolve path = .ok place) (hd : fs.entryAt? place ≠ some .directory) :
    (fs.put place (.file data)).read path = .ok data := by
  rw [read, find, resolve_put hd h]
  simp only [bind, Except.bind, entryAt?_put_self _ hd, pure, Except.pure]

/-- What can be read is the content of a file. -/
theorem read_eq_ok {path : String} : fs.read path = .ok data ↔ fs.find path = .ok (.file data) := by
  rw [read]
  cases fs.find path with
  | error fault => simp [bind, Except.bind]
  | ok e => cases e with
    | file data' => simp [bind, Except.bind, pure, Except.pure]
    | directory => simp [bind, Except.bind, throw, throwThe, MonadExceptOf.throw]

theorem isFile_eq_true {path : String} : fs.isFile path = true ↔ ∃ data, fs.read path = .ok data := by
  simp only [read_eq_ok]
  rw [isFile]
  cases fs.find path with
  | error fault => simp
  | ok e => cases e <;> simp

/-- A file that can be read can be opened. -/
theorem openPath_of_read {path : String} (h : fs.read path = .ok data) : fs.openPath path = .ok (.ofBytes data) := by
  rw [openPath, read_eq_ok.1 h]
  rfl

/-- Whether a path leads to a file with some content, and not to a place. -/
def HoldsApart (fs : Files) (place : Place) (path : String) (data : ByteArray) : Prop :=
  ∃ p, fs.resolve path = .ok p ∧ p ≠ place ∧ fs.entryAt? p = some (.file data)

namespace HoldsApart

variable {path : String}

theorem read (h : fs.HoldsApart place path data) : fs.read path = .ok data := by
  obtain ⟨p, hp, -, he⟩ := h
  rw [read_eq_ok, find, hp]
  simp only [bind, Except.bind, he, pure, Except.pure]

theorem openPath (h : fs.HoldsApart place path data) : fs.openPath path = .ok (.ofBytes data) := openPath_of_read h.read

/-- A file apart from a place stays while the file at the place is overwritten. -/
theorem put {data' : ByteArray} (h : fs.HoldsApart place path data) (hd : fs.entryAt? place ≠ some .directory) :
    (fs.put place (.file data')).HoldsApart place path data := by
  obtain ⟨p, hp, hne, he⟩ := h
  exact ⟨p, resolve_put hd hp, hne, by rw [entryAt?_put_of_ne _ hne, he]⟩

end HoldsApart

end ImageAssembly.Files
