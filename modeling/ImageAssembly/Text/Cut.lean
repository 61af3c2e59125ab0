/-! Cutting a text at a separator: at its first occurrence, at its last, or at all of them. -/

namespace ImageAssembly.Text

/-- The parts before and after the first occurrence of `sep`. -/
def cutFirst (sep : Char) : List Char → Option (List Char × List Char)
  | [] => none
  | c :: r => if c = sep then some ([], r) else (cutFirst sep r).map fun (a, b) => (c :: a, b)

/-- The parts before and after the last occurrence of `sep`. -/
def cutLast (sep : Char) : List Char → Option (List Char × List Char)
  | [] => none
  | c :: r => match cutLast sep r with
    | some (a, b) => some (c :: a, b)
    | none => if c = sep then some ([], r) else none

/-- The maximal runs between separators, empty ones included; there is always at least one. -/
def pieces (isSep : Char → Bool) : List Char → List (List Char)
  | [] => [[]]
  | c :: r =>
    if isSep c then [] :: pieces isSep r
    else match pieces isSep r with
      | [] => [[c]]
      | p :: ps => (c :: p) :: ps

theorem cutFirst_eq_some {sep : Char} {s a b : List Char} (h : cutFirst sep s = some (a, b)) :
    s = a ++ sep :: b ∧ sep ∉ a := by
  induction s generalizing a b with
  | nil => simp [cutFirst] at h
  | cons c r ih =>
    rw [cutFirst] at h
    split at h
    · next hc =>
      simp only [Option.some.injEq, Prod.mk.injEq] at h
      simp [← h.1, ← h.2, hc]
    · next hc =>
      obtain ⟨⟨x, y⟩, hxy, he⟩ := Option.map_eq_some_iff.1 h
      simp only [Prod.mk.injEq] at he
      obtain ⟨h1, h2⟩ := ih hxy
      rw [← he.1, ← he.2, h1]
      simp [h2, Ne.symm hc]

theorem cutFirst_append {sep : Char} {a : List Char} (b : List Char) (h : sep ∉ a) :
    cutFirst sep (a ++ sep :: b) = some (a, b) := by
  induction a with
  | nil => simp [cutFirst]
  | cons c r ih =>
    simp only [List.mem_cons, not_or] at h
    simp [cutFirst, ih h.2, Ne.symm h.1]

theorem cutFirst_eq_none {sep : Char} {s : List Char} : cutFirst sep s = none ↔ sep ∉ s := by
  induction s with
  | nil => simp [cutFirst]
  | cons c r ih =>
    by_cases h : c = sep
    · simp [cutFirst, h]
    · simp [cutFirst, h, ih, Ne.symm h]

theorem cutLast_eq_none {sep : Char} {s : List Char} : cutLast sep s = none ↔ sep ∉ s := by
  induction s with
  | nil => simp [cutLast]
  | cons c r ih =>
    cases h : cutLast sep r with
    | none =>
      by_cases hc : c = sep
      · simp [cutLast, h, hc]
      · simp [cutLast, h, hc, ih.1 h, Ne.symm hc]
    | some p =>
      have : sep ∈ r := by
        by_cases hm : sep ∈ r
        · exact hm
        · rw [ih.2 hm] at h; simp at h
      simp [cutLast, h, this]

theorem cutLast_eq_some {sep : Char} {s a b : List Char} (h : cutLast sep s = some (a, b)) :
    s = a ++ sep :: b ∧ sep ∉ b := by
  induction s generalizing a b with
  | nil => simp [cutLast] at h
  | cons c r ih =>
    rw [cutLast] at h
    split at h
    · next x y hxy =>
      simp only [Option.some.injEq, Prod.mk.injEq] at h
      obtain ⟨h1, h2⟩ := ih hxy
      rw [← h.1, ← h.2, h1]
      simp [h2]
    · next hr =>
      split at h
      · next hc =>
        simp only [Option.some.injEq, Prod.mk.injEq] at h
        rw [← h.1, ← h.2]
        simp [hc, cutLast_eq_none.1 hr]
      · simp at h

theorem cutLast_append {sep : Char} (a : List Char) {b : List Char} (h : sep ∉ b) :
    cutLast sep (a ++ sep :: b) = some (a, b) := by
  induction a with
  | nil => simp [cutLast, cutLast_eq_none.2 h]
  | cons c r ih => simp [cutLast, ih]

end ImageAssembly.Text
