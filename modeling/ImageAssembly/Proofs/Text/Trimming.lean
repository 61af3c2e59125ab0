import ImageAssembly.Text.Blank
import Mathlib.Data.List.DropRight

/-! Texts without blanks at their ends. Trimming makes such a text of any other, and leaves it as it is. -/

namespace ImageAssembly.Text

variable {s : String} {l : List Char} {c : Char}

theorem trimEnd_concat (l : List Char) (c : Char) :
    trimEnd (l ++ [c]) = if isBlank c then trimEnd l else l ++ [c] := by
  induction l with
  | nil => rfl
  | cons d l ih =>
    rw [List.cons_append, trimEnd, ih]
    by_cases hc : isBlank c
    · rw [if_pos hc, if_pos hc, trimEnd]
    · rw [if_neg hc, if_neg hc]
      cases l <;> rfl

theorem trimEnd_eq (l : List Char) : trimEnd l = l.rdropWhile isBlank := by
  induction l using List.reverseRecOn with
  | nil => rfl
  | append_singleton l c ih => rw [trimEnd_concat, List.rdropWhile_concat, ih]

/-- Whether neither the first character nor the last one is a blank. -/
structure Trimmed (l : List Char) : Prop where
  first : ∀ c ∈ l.head?, isBlank c = false
  last : ∀ c ∈ l.getLast?, isBlank c = false

theorem dropWhile_of_first (h : ∀ c ∈ l.head?, isBlank c = false) : l.dropWhile isBlank = l := by
  cases l with
  | nil => rfl
  | cons c l => rw [List.dropWhile_cons_of_neg (by simp [h c rfl])]

theorem first_dropWhile (l : List Char) : ∀ c ∈ (l.dropWhile isBlank).head?, isBlank c = false := by
  intro c hc
  have hnot := List.head?_dropWhile_not isBlank l
  rw [Option.mem_def.1 hc] at hnot
  exact hnot

theorem trimEnd_eq_self_iff : trimEnd l = l ↔ ∀ c ∈ l.getLast?, isBlank c = false := by
  induction l using List.reverseRecOn with
  | nil => simp [trimEnd]
  | append_singleton l c _ =>
    rw [trimEnd_eq, List.rdropWhile_eq_self_iff]
    simp

theorem toList_trim (s : String) : (trim s).toList = trimEnd (s.toList.dropWhile isBlank) := String.toList_ofList

/-- Where no blank stands in front, those behind are dropped. -/
theorem toList_trim_of_first (h : ∀ c ∈ s.toList.head?, isBlank c = false) : (trim s).toList = trimEnd s.toList := by
  rw [toList_trim, dropWhile_of_first h]

theorem head?_trimEnd (h : ∀ c ∈ l.head?, isBlank c = false) : (trimEnd l).head? = l.head? := by
  cases l with
  | nil => rfl
  | cons c l =>
    have hc := h c rfl
    unfold trimEnd
    cases trimEnd l with
    | nil => simp [hc]
    | cons d r => rfl

theorem trimmed_trim (s : String) : Trimmed (trim s).toList where
  first := by
    rw [toList_trim, head?_trimEnd (first_dropWhile _)]
    exact first_dropWhile _
  last := by
    rw [toList_trim, ← trimEnd_eq_self_iff, trimEnd_eq, trimEnd_eq, List.rdropWhile_idempotent]

theorem trim_eq_self_iff : trim s = s ↔ Trimmed s.toList := by
  constructor
  · intro h
    rw [← h]
    exact trimmed_trim s
  · intro h
    apply String.toList_inj.1
    rw [toList_trim_of_first h.first]
    exact trimEnd_eq_self_iff.2 h.last

theorem trim_trim (s : String) : trim (trim s) = trim s := trim_eq_self_iff.2 (trimmed_trim s)

end ImageAssembly.Text
