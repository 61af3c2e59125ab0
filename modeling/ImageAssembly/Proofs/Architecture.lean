import ImageAssembly.Architecture
import ImageAssembly.Proofs.Text.Trimming

/-! The texts of architectures. Blanks are dropped around the whole text only, so that a name may end in one where a
separator without a variant stands behind it. The separator is not written again, and the blank is lost when the
written text is read; the text that is written then is read as it is. -/

namespace ImageAssembly.Architecture

open Text

variable {s : String} {a : Architecture}

/-! ### Reading -/

theorem parse_of_not_mem (h : '/' ∉ (trim s).toList) :
    parse s = .ok a ↔ trim s ≠ "" ∧ a = ⟨trim s, ""⟩ := by
  unfold parse
  dsimp only
  rw [cutFirst_eq_none.2 h]
  dsimp only [Option.getD_none]
  by_cases hempty : trim s = ""
  · rw [if_pos (by rw [hempty]; rfl)]
    exact iff_of_false nofun fun h => h.1 hempty
  · rw [if_neg (by simpa using hempty), if_neg List.not_mem_nil, String.ofList_toList, Except.ok.injEq]
    exact ⟨fun h => ⟨hempty, h.symm⟩, fun h => h.2.symm⟩

theorem parse_of_cut {name variant : List Char} (htext : (trim s).toList = name ++ '/' :: variant) (h : '/' ∉ name) :
    parse s = .ok a ↔ name ≠ [] ∧ '/' ∉ variant ∧ a = ⟨String.ofList name, String.ofList variant⟩ := by
  unfold parse
  dsimp only
  rw [htext, cutFirst_append variant h]
  cases name with
  | nil => simp
  | cons c name =>
    by_cases hmany : '/' ∈ variant
    · simp [hmany]
    · simp [hmany, eq_comm]

/-- Whether a text is a name without a separator, or a name and a variant with one between them. -/
structure Spells (text : List Char) (a : Architecture) : Prop where
  name_ne : a.name ≠ ""
  slash_not_mem_name : '/' ∉ a.name.toList
  slash_not_mem_variant : '/' ∉ a.variant.toList
  text_eq : text = a.name.toList ∧ a.variant = "" ∨ text = a.name.toList ++ '/' :: a.variant.toList

theorem parse_eq_ok : parse s = .ok a ↔ Spells (trim s).toList a := by
  constructor
  · intro h
    cases hcut : cutFirst '/' (trim s).toList with
    | none =>
      have hslash := cutFirst_eq_none.1 hcut
      obtain ⟨hname, rfl⟩ := (parse_of_not_mem hslash).1 h
      exact ⟨hname, hslash, by simp, .inl ⟨rfl, rfl⟩⟩
    | some parts =>
      obtain ⟨htext, hslash⟩ := cutFirst_eq_some hcut
      obtain ⟨hname, hvariant, rfl⟩ := (parse_of_cut htext hslash).1 h
      refine ⟨by simpa using hname, ?_, ?_, .inr ?_⟩
      · rw [String.toList_ofList]
        exact hslash
      · rw [String.toList_ofList]
        exact hvariant
      · rw [String.toList_ofList, String.toList_ofList]
        exact htext
  · rintro ⟨hname, hslash, hvariant, ⟨htext, hnone⟩ | htext⟩
    · obtain ⟨name, variant⟩ := a
      obtain rfl : trim s = name := String.toList_inj.1 htext
      exact (parse_of_not_mem hslash).2 ⟨hname, congrArg (Architecture.mk (trim s)) hnone⟩
    · rw [parse_of_cut htext hslash, String.ofList_toList, String.ofList_toList]
      exact ⟨by simpa using hname, hvariant, rfl⟩

/-! ### Writing, and reading again -/

/-- What is read where the text of an architecture is: without a variant, the name stands at the end of the text. -/
def reread (a : Architecture) : Architecture :=
  if a.variant = "" then { a with name := trim a.name } else a

/-- What every architecture that was read is. -/
structure WellFormed (a : Architecture) : Prop where
  name_ne : a.name ≠ ""
  slash_not_mem_name : '/' ∉ a.name.toList
  slash_not_mem_variant : '/' ∉ a.variant.toList
  first : ∀ c ∈ a.name.toList.head?, isBlank c = false
  last : ∀ c ∈ a.variant.toList.getLast?, isBlank c = false

theorem wellFormed_of_parse (h : parse s = .ok a) : WellFormed a := by
  have ⟨hname, hslash, hvariant, htext⟩ := parse_eq_ok.1 h
  have htrim := trimmed_trim s
  have hne : a.name.toList ≠ [] := by simpa using hname
  refine ⟨hname, hslash, hvariant, ?_, ?_⟩
  · intro c hc
    apply htrim.first
    rcases htext with ⟨htext, -⟩ | htext
    · rw [htext]
      exact hc
    · rw [htext, List.head?_append_of_ne_nil _ hne]
      exact hc
  · intro c hc
    apply htrim.last
    rcases htext with ⟨-, hnone⟩ | htext
    · simp [hnone] at hc
    · rw [htext, List.getLast?_append, List.getLast?_cons, Option.mem_def.1 hc]
      rfl

theorem trim_name_ne (h : WellFormed a) : trim a.name ≠ "" := by
  intro hempty
  have hhead := head?_trimEnd h.first
  rw [← toList_trim_of_first h.first, hempty] at hhead
  exact h.name_ne (by simpa using hhead.symm)

theorem mem_of_mem_trim {c : Char} (h : c ∈ (trim s).toList) : c ∈ s.toList := by
  rw [toList_trim, trimEnd_eq] at h
  exact (List.dropWhile_sublist _).subset ((List.rdropWhile_prefix _ _).subset h)

theorem wellFormed_reread (h : WellFormed a) : WellFormed a.reread := by
  unfold reread
  split_ifs with hnone
  · exact ⟨trim_name_ne h, fun hc => h.slash_not_mem_name (mem_of_mem_trim hc), h.slash_not_mem_variant,
      (trimmed_trim a.name).first, h.last⟩
  · exact h

theorem reread_reread (a : Architecture) : a.reread.reread = a.reread := by
  unfold reread
  by_cases hnone : a.variant = ""
  · simp [hnone, trim_trim]
  · simp [hnone]

theorem trimmed_toText (h : WellFormed a) (hvariant : a.variant ≠ "") : Trimmed a.toText.toList := by
  have hname : a.name.toList ≠ [] := by simpa using h.name_ne
  have hlast : a.variant.toList ≠ [] := by simpa using hvariant
  unfold toText
  rw [if_neg hvariant, String.toList_append, String.toList_append]
  constructor
  · rw [List.append_assoc, List.head?_append_of_ne_nil _ hname]
    exact h.first
  · rw [List.getLast?_append_of_ne_nil _ hlast]
    exact h.last

theorem parse_toText (h : WellFormed a) : parse a.toText = .ok a.reread := by
  have hread := wellFormed_reread h
  rw [parse_eq_ok]
  refine ⟨hread.name_ne, hread.slash_not_mem_name, hread.slash_not_mem_variant, ?_⟩
  by_cases hvariant : a.variant = ""
  · unfold toText reread
    rw [if_pos hvariant, if_pos hvariant]
    exact .inl ⟨rfl, hvariant⟩
  · rw [trim_eq_self_iff.2 (trimmed_toText h hvariant)]
    unfold toText reread
    rw [if_neg hvariant, if_neg hvariant]
    exact .inr (by simp)

/-! ### Blanks in front of a separator -/

/-- Whether a separator stands at the end, with a blank in front of it. -/
def EndsLoosely (text : List Char) : Prop :=
  ∃ l c, isBlank c = true ∧ text = l ++ [c, '/']

theorem not_endsLoosely_of_not_mem {text : List Char} (h : '/' ∉ text) : ¬EndsLoosely text := by
  rintro ⟨l, c, -, rfl⟩
  simp at h

theorem not_endsLoosely_of_variant {name variant : List Char} (hne : variant ≠ []) (h : '/' ∉ variant) :
    ¬EndsLoosely (name ++ '/' :: variant) := by
  rintro ⟨l, c, -, hend⟩
  have hlast := congrArg List.getLast? hend
  rw [List.append_cons, List.getLast?_append_of_ne_nil _ hne,
    List.getLast?_append_of_ne_nil l (List.cons_ne_nil c ['/'])] at hlast
  exact h (List.mem_of_getLast? hlast)

theorem not_endsLoosely_concat {name : List Char} :
    ¬EndsLoosely (name ++ ['/']) ↔ ∀ c ∈ name.getLast?, isBlank c = false := by
  have hparts (l : List Char) (c : Char) : name ++ ['/'] = l ++ [c, '/'] ↔ name = l ++ [c] := by
    rw [List.append_cons l c ['/'], List.append_cancel_right_eq]
  simp only [EndsLoosely, hparts, Option.mem_def, List.getLast?_eq_some_iff]
  constructor
  · rintro hnot c ⟨l, hname⟩
    exact eq_false_of_ne_true fun hblank => hnot ⟨l, c, hblank, hname⟩
  · rintro hlast ⟨l, c, hblank, hname⟩
    exact Bool.false_ne_true ((hlast c ⟨l, hname⟩).symm.trans hblank)

theorem reread_eq_self_iff_last (h : WellFormed a) (hnone : a.variant = "") :
    a.reread = a ↔ ∀ c ∈ a.name.toList.getLast?, isBlank c = false := by
  unfold reread
  rw [if_pos hnone, ← trimEnd_eq_self_iff, ← toList_trim_of_first h.first, String.toList_inj]
  exact ⟨congrArg name, congrArg ({ a with name := · })⟩

theorem reread_eq_self_iff (h : parse s = .ok a) : a.reread = a ↔ ¬EndsLoosely (trim s).toList := by
  obtain ⟨-, hslash, hvariant, htext⟩ := parse_eq_ok.1 h
  by_cases hnone : a.variant = ""
  · rw [reread_eq_self_iff_last (wellFormed_of_parse h) hnone]
    rcases htext with ⟨htext, -⟩ | htext
    · rw [← htext] at hslash ⊢
      exact iff_of_true (trimmed_trim s).last (not_endsLoosely_of_not_mem hslash)
    · rw [htext, hnone]
      exact not_endsLoosely_concat.symm
  · have hsame : a.reread = a := if_neg hnone
    refine iff_of_true hsame ?_
    rcases htext with ⟨-, hempty⟩ | htext
    · exact absurd hempty hnone
    · rw [htext]
      exact not_endsLoosely_of_variant (by simpa using hnone) hvariant

/-- The text of an architecture that was read is read again, and the text of what is read then is read as it is. The
first of the two readings gives the architecture back unless a blank stands in front of a separator at the end. -/
theorem parse_toText_of_parse (h : parse s = .ok a) :
    parse a.toText = .ok a.reread ∧ parse a.reread.toText = .ok a.reread ∧
      (parse a.toText = .ok a ↔ ¬EndsLoosely (trim s).toList) := by
  have hformed := wellFormed_of_parse h
  refine ⟨parse_toText hformed, ?_, ?_⟩
  · rw [parse_toText (wellFormed_reread hformed), reread_reread]
  · rw [parse_toText hformed, Except.ok.injEq]
    exact reread_eq_self_iff h

/-- A text with a variant, and one with a blank in front of a separator at its end. -/
theorem parse_toText_of_parse_two_cases :
    (parse "arm64/v8" = .ok ⟨"arm64", "v8"⟩ ∧ parse "arm64/v8" = .ok ⟨"arm64", "v8"⟩) ∧
      (parse "amd64 /" = .ok ⟨"amd64 ", ""⟩ ∧ parse "amd64 " = .ok ⟨"amd64", ""⟩) := by
  have hvariant : parse "arm64/v8" = .ok ⟨"arm64", "v8"⟩ := by decide
  have hblank : parse "amd64 /" = .ok ⟨"amd64 ", ""⟩ := by decide
  exact ⟨⟨hvariant, (parse_toText_of_parse hvariant).1⟩, hblank, (parse_toText_of_parse hblank).1⟩

/-- The blank is lost between the two readings. -/
theorem exists_parse_toText_ne : ∃ s a, parse s = .ok a ∧ parse a.toText ≠ .ok a :=
  ⟨"amd64 /", ⟨"amd64 ", ""⟩, by decide, by decide⟩

end ImageAssembly.Architecture
