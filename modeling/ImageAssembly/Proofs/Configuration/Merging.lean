import ImageAssembly.Configuration.Merge
import ImageAssembly.Proofs.Dictionary

/-! Laying descriptions over one another. Several layers can be laid down from the bottom or put together first, a
layer that is laid down twice is laid down once, and what is put together of descriptions that keep the rules keeps
them. -/

namespace ImageAssembly.Configuration

variable {a b c : Configuration}

/-! ### Texts and the entrypoint -/

theorem overText_assoc (a b c : String) : overText (overText a b) c = overText a (overText b c) := by
  simp only [overText]
  split_ifs <;> rfl

theorem overText_overText_self (a b : String) : overText (overText a b) b = overText a b := by
  simp only [overText]
  split_ifs <;> rfl

@[simp] theorem overText_empty (text : String) : overText "" text = text := by
  rw [overText]
  split_ifs with h
  · exact h.symm
  · rfl

/-- An entrypoint is set if either of its forms is. -/
theorem overEntrypoint_eq (a b : Entrypoint) : overEntrypoint a b = if b = {} then a else b := by
  obtain ⟨command, fragment⟩ := b
  simp only [overEntrypoint, Entrypoint.mk.injEq]
  split_ifs <;> tauto

theorem overEntrypoint_assoc (a b c : Entrypoint) :
    overEntrypoint (overEntrypoint a b) c = overEntrypoint a (overEntrypoint b c) := by
  simp only [overEntrypoint]
  split_ifs <;> rfl

theorem overEntrypoint_overEntrypoint_self (a b : Entrypoint) :
    overEntrypoint (overEntrypoint a b) b = overEntrypoint a b := by
  simp only [overEntrypoint]
  split_ifs <;> rfl

@[simp] theorem overEntrypoint_default (e : Entrypoint) : overEntrypoint {} e = e := by
  rw [overEntrypoint_eq]
  split_ifs with h
  · exact h.symm
  · rfl

/-! ### Volumes -/

theorem addNew_cons (vs : List String) (v : String) (more : List String) :
    addNew vs (v :: more) = addNew (if v ∈ vs then vs else vs ++ [v]) more := rfl

theorem addNew_append (vs more more' : List String) : addNew vs (more ++ more') = addNew (addNew vs more) more' :=
  List.foldl_append

theorem mem_addNew {vs more : List String} {v : String} : v ∈ addNew vs more ↔ v ∈ vs ∨ v ∈ more := by
  induction more generalizing vs with
  | nil => simp [addNew]
  | cons u r ih =>
    rw [addNew_cons, ih, List.mem_cons]
    split_ifs with hu
    · constructor
      · tauto
      · rintro (h | rfl | h)
        · exact .inl h
        · exact .inl hu
        · exact .inr h
    · rw [List.mem_append, List.mem_singleton, or_assoc]

theorem addNew_of_subset {vs more : List String} (h : ∀ v ∈ more, v ∈ vs) : addNew vs more = vs := by
  induction more with
  | nil => rfl
  | cons v more ih =>
    rw [addNew_cons, if_pos (h v (by simp)), ih fun u hu => h u (by simp [hu])]

/-- A path that is listed already is added neither to the one list nor to the other. -/
theorem addNew_assoc (us vs ws : List String) : addNew (addNew us vs) ws = addNew us (addNew vs ws) := by
  induction ws generalizing vs with
  | nil => rfl
  | cons w ws ih =>
    rw [addNew_cons, addNew_cons, ← ih]
    by_cases hw : w ∈ vs
    · rw [if_pos hw, if_pos (mem_addNew.2 (.inr hw))]
    · rw [if_neg hw, addNew_append]
      rfl

/-- The paths that are added are the new ones, in the order of their first occurrence. -/
theorem addNew_eq (vs more : List String) : addNew vs more = vs ++ (more.filter (· ∉ vs)).eraseDups := by
  induction more generalizing vs with
  | nil => simp [addNew]
  | cons v more ih =>
    rw [addNew_cons, ih]
    by_cases hv : v ∈ vs
    · rw [if_pos hv, List.filter_cons_of_neg (by simpa using hv)]
    · rw [if_neg hv, List.filter_cons_of_pos (by simpa using hv), List.eraseDups_cons, List.filter_filter,
        List.append_assoc, List.singleton_append]
      congr 3
      refine List.filter_congr fun u _ => ?_
      by_cases hu : u = v <;> simp [hu]

theorem overVolumes_assoc (a b c : Option (List String)) :
    overVolumes (overVolumes a b) c = overVolumes a (overVolumes b c) := by
  cases c with
  | none => rfl
  | some ws => cases b with
    | none => exact congrArg some (addNew_assoc (a.getD []) [] ws)
    | some vs => exact congrArg some (addNew_assoc (a.getD []) vs ws)

theorem overVolumes_overVolumes_self (a b : Option (List String)) :
    overVolumes (overVolumes a b) b = overVolumes a b := by
  cases b with
  | none => rfl
  | some vs =>
    simp only [overVolumes, Option.getD_some]
    rw [addNew_of_subset fun v hv => mem_addNew.2 (.inr hv)]

/-! ### Descriptions -/

theorem overlay_assoc (a b c : Configuration) : overlay (overlay a b) c = overlay a (overlay b c) := by
  simp only [overlay, Dictionary.overlay_assoc, overText_assoc, overEntrypoint_assoc, overVolumes_assoc]

theorem overlay_overlay_self (a b : Configuration) : overlay (overlay a b) b = overlay a b := by
  simp only [overlay, Dictionary.overlay_overlay_self, overText_overText_self, overEntrypoint_overEntrypoint_self,
    overVolumes_overVolumes_self]

/-- A working copy is the description with every volume listed once. -/
theorem overlay_default (description : Configuration) : overlay {} description =
    { description with volumes := description.volumes.map (addNew []) } := by
  have hvolumes : overVolumes none description.volumes = description.volumes.map (addNew []) := by
    cases description.volumes <;> rfl
  simp only [overlay, Dictionary.overlay_empty, overText_empty, overEntrypoint_default, hvolumes]

theorem workingCopy_eq_ok {description c : Configuration} : description.workingCopy = .ok c ↔
    description.validate = .ok () ∧ c = overlay {} description := by
  rw [workingCopy, mergeInto]
  cases description.validate with
  | error fault => simp
  | ok u => simp [eq_comm]

/-- What a description that breaks no rule looks like. -/
structure Valid (c : Configuration) : Prop where
  names : ∀ name ∈ c.environment.keys, name ≠ "" ∧ '=' ∉ name.toList
  annotations : "" ∉ c.annotations.keys
  volumes : ∀ path ∈ c.volumes.getD [], isAbsolute path = true
  source : ∀ source revision, splitVcsUrl c.vcsUrl = some (source, revision) → source ≠ "" ∧ revision ≠ ""

theorem variableNameFault?_eq_none {name : String} :
    variableNameFault? name = none ↔ name ≠ "" ∧ '=' ∉ name.toList := by
  rw [variableNameFault?]
  split_ifs <;> simp_all

theorem volumeFault?_eq_none {path : String} : volumeFault? path = none ↔ isAbsolute path = true := by
  rw [volumeFault?]
  split_ifs <;> simp_all

theorem vcsUrlFault?_eq_none {url : String} : vcsUrlFault? url = none ↔
    ∀ source revision, splitVcsUrl url = some (source, revision) → source ≠ "" ∧ revision ≠ "" := by
  rw [vcsUrlFault?]
  cases splitVcsUrl url with
  | none => simp
  | some parts =>
    obtain ⟨source, revision⟩ := parts
    simp only [Option.some.injEq, Prod.mk.injEq, and_imp]
    split_ifs with h
    · simpa using fun hs => h.resolve_left hs
    · simpa [not_or] using h

theorem fault?_eq_none {c : Configuration} : c.fault? = none ↔ c.Valid := by
  simp only [fault?, Option.orElse_eq_orElse, Option.orElse_eq_or, Option.or_eq_none_iff, List.findSome?_eq_none_iff,
    variableNameFault?_eq_none, volumeFault?_eq_none, vcsUrlFault?_eq_none, ite_eq_right_iff, reduceCtorEq, imp_false]
  exact ⟨fun ⟨h1, h2, h3, h4⟩ => ⟨h1, h2, h3, h4⟩, fun h => ⟨h.names, h.annotations, h.volumes, h.source⟩⟩

theorem validate_eq_ok_iff {c : Configuration} : c.validate = .ok () ↔ c.Valid := by
  rw [← fault?_eq_none, validate]
  cases c.fault? <;> simp

/-- Whether a description says what an upper one sets, and else what a lower one says: maps key by key, volumes with
the new paths at the end, the entrypoint as a whole and each text on its own. -/
structure LaidOver (upper lower result : Configuration) : Prop where
  annotations : ∀ k, result.annotations.get? k = (upper.annotations.get? k).or (lower.annotations.get? k)
  environment : ∀ k, result.environment.get? k = (upper.environment.get? k).or (lower.environment.get? k)
  noVolumes : upper.volumes = none → result.volumes = lower.volumes
  volumes : ∀ paths, upper.volumes = some paths → result.volumes =
    some (lower.volumes.getD [] ++ (paths.filter (· ∉ lower.volumes.getD [])).eraseDups)
  entrypoint : result.entrypoint = if upper.entrypoint = {} then lower.entrypoint else upper.entrypoint
  vcsUrl : result.vcsUrl = if upper.vcsUrl = "" then lower.vcsUrl else upper.vcsUrl
  cmd : result.cmd = if upper.cmd = "" then lower.cmd else upper.cmd
  workDir : result.workDir = if upper.workDir = "" then lower.workDir else upper.workDir
  runAs : result.accounts.runAs = if upper.accounts.runAs = "" then lower.accounts.runAs else upper.accounts.runAs
  stopSignal : result.stopSignal = if upper.stopSignal = "" then lower.stopSignal else upper.stopSignal

theorem laidOver_overlay (upper lower : Configuration) : LaidOver upper lower (overlay lower upper) where
  annotations := Dictionary.get?_overlay _ _
  environment := Dictionary.get?_overlay _ _
  noVolumes h := by simp [overlay, overVolumes, h]
  volumes paths h := by simp only [overlay, overVolumes, h, addNew_eq]
  entrypoint := overEntrypoint_eq _ _
  vcsUrl := rfl
  cmd := rfl
  workDir := rfl
  runAs := rfl
  stopSignal := rfl

/-- A description that keeps the rules is laid over any other. -/
theorem mergeInto_of_validate (h : a.validate = .ok ()) (target : Configuration) :
    a.mergeInto target = .ok (overlay target a) := by
  rw [mergeInto, h]

theorem Valid.overlay (ha : a.Valid) (hb : b.Valid) : (overlay b a).Valid where
  names name hname := by
    rcases Dictionary.mem_keys_overlay.1 hname with h | h
    · exact hb.names name h
    · exact ha.names name h
  annotations h := (Dictionary.mem_keys_overlay.1 h).elim hb.annotations ha.annotations
  volumes := by
    cases hv : a.volumes with
    | none => simpa [Configuration.overlay, overVolumes, hv] using hb.volumes
    | some vs =>
      intro path hpath
      simp only [Configuration.overlay, overVolumes, hv, Option.getD_some, mem_addNew] at hpath
      rcases hpath with h | h
      · exact hb.volumes path h
      · exact ha.volumes path (by simpa [hv] using h)
  source := by
    simp only [Configuration.overlay, overText]
    split_ifs
    · exact hb.source
    · exact ha.source

/-- Descriptions that keep the rules can be put together before they are laid over a third; the result keeps the
rules, and to lay one of them down again changes nothing. -/
theorem mergeInto_assoc_closed_idempotent (ha : a.validate = .ok ()) (hb : b.validate = .ok ()) :
    ∃ merged, a.mergeInto b = .ok merged ∧ LaidOver a b merged ∧ merged.validate = .ok () ∧
      (∀ c, ∃ lower result, b.mergeInto c = .ok lower ∧ a.mergeInto lower = .ok result ∧
        merged.mergeInto c = .ok result) ∧
      ∀ target, ∃ once, a.mergeInto target = .ok once ∧ a.mergeInto once = .ok once := by
  have hmerged : (overlay b a).validate = .ok () :=
    validate_eq_ok_iff.2 ((validate_eq_ok_iff.1 ha).overlay (validate_eq_ok_iff.1 hb))
  refine ⟨overlay b a, mergeInto_of_validate ha b, laidOver_overlay a b, hmerged, fun c => ?_, fun target => ?_⟩
  · refine ⟨overlay c b, overlay (overlay c b) a, mergeInto_of_validate hb c, mergeInto_of_validate ha _, ?_⟩
    rw [mergeInto_of_validate hmerged, overlay_assoc]
  · refine ⟨overlay target a, mergeInto_of_validate ha target, ?_⟩
    rw [mergeInto_of_validate ha, overlay_overlay_self]

/-- A description whose volumes repeat. -/
def serving : Configuration where
  entrypoint := { command := "/bin/app --serve" }
  volumes := some ["/b", "/a", "/b"]
  environment := .ofList [("MODE", "a=b")]

/-- A description with a source and an empty list of volumes. -/
def sourced : Configuration where
  vcsUrl := "repo@1"
  entrypoint := { shellFragment := "run" }
  volumes := some []
  environment := .ofList [("MODE", "x"), ("PATH", "/bin")]

/-- The two descriptions over any others. -/
theorem serving_over_sourced : serving.validate = .ok () ∧ sourced.validate = .ok () ∧
    ∃ merged, serving.mergeInto sourced = .ok merged ∧ LaidOver serving sourced merged ∧ merged.validate = .ok () ∧
      (∀ c, ∃ lower result, sourced.mergeInto c = .ok lower ∧ serving.mergeInto lower = .ok result ∧
        merged.mergeInto c = .ok result) ∧
      ∀ target, ∃ once, serving.mergeInto target = .ok once ∧ serving.mergeInto once = .ok once :=
  ⟨by decide, by decide, mergeInto_assoc_closed_idempotent (by decide) (by decide)⟩

end ImageAssembly.Configuration
