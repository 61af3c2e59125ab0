import ImageAssembly.Error
import ImageAssembly.Proofs.Configuration.Merging

/-! Merging in place. A description is checked as a whole and then written over another one entry by entry. The check
comes first, so the other one is left as it was when a rule is broken. Over the empty description a working copy
comes out: every field that is passed over because it is empty is empty there too, and only repeated volumes go. -/

namespace ImageAssembly.Configuration

variable {c source target : Configuration}

/-! ### Descriptions that break a rule -/

/-- What is wrong with a description that cannot be laid over another one. -/
inductive Broken (c : Configuration) : Prop
  | emptyVariableName (h : "" ∈ c.environment.keys)
  | variableNameWithEquals (name : String) (h : name ∈ c.environment.keys) (hequals : '=' ∈ name.toList)
  | emptyAnnotationKey (h : "" ∈ c.annotations.keys)
  | relativeVolume (paths : List String) (path : String) (hpaths : c.volumes = some paths) (h : path ∈ paths)
      (hrelative : ¬['/'] <+: path.toList)
  | halfSource (url revision : List Char) (h : c.vcsUrl.toList = url ++ '@' :: revision) (hlast : '@' ∉ revision)
      (hhalf : url = [] ∨ revision = [])

theorem isAbsolute_iff {path : String} : isAbsolute path = true ↔ ['/'] <+: path.toList := by
  rw [isAbsolute, beq_iff_eq, List.singleton_prefix_iff_head?_eq_some]

theorem splitVcsUrl_eq_some {text url revision : String} : splitVcsUrl text = some (url, revision) ↔
    text.toList = url.toList ++ '@' :: revision.toList ∧ '@' ∉ revision.toList := by
  rw [splitVcsUrl, Option.map_eq_some_iff]
  constructor
  · rintro ⟨⟨a, b⟩, hcut, hparts⟩
    obtain ⟨rfl, rfl⟩ := Prod.mk.inj hparts
    simpa using Text.cutLast_eq_some hcut
  · rintro ⟨htext, hlast⟩
    exact ⟨(url.toList, revision.toList), htext ▸ Text.cutLast_append _ hlast, by simp⟩

theorem not_broken_iff : ¬c.Broken ↔ c.Valid := by
  constructor
  · intro h
    refine ⟨fun name hname => ⟨?_, fun hequals => h (.variableNameWithEquals name hname hequals)⟩,
      fun hempty => h (.emptyAnnotationKey hempty), fun path hpath => ?_, fun url revision hsplit => ?_⟩
    · rintro rfl
      exact h (.emptyVariableName hname)
    · cases hpaths : c.volumes with
      | none => simp [hpaths] at hpath
      | some paths =>
        by_contra hrelative
        exact h (.relativeVolume paths path hpaths (by simpa [hpaths] using hpath) (mt isAbsolute_iff.2 hrelative))
    · obtain ⟨htext, hlast⟩ := splitVcsUrl_eq_some.1 hsplit
      constructor <;> rintro rfl
      · exact h (.halfSource _ _ htext hlast (.inl (by simp)))
      · exact h (.halfSource _ _ htext hlast (.inr (by simp)))
  · intro hvalid hbroken
    cases hbroken with
    | emptyVariableName h => exact (hvalid.names _ h).1 rfl
    | variableNameWithEquals name h hequals => exact (hvalid.names name h).2 hequals
    | emptyAnnotationKey h => exact hvalid.annotations h
    | relativeVolume paths path hpaths h hrelative =>
      exact hrelative (isAbsolute_iff.1 (hvalid.volumes path (by simpa [hpaths] using h)))
    | halfSource url revision h hlast hhalf =>
      have hsplit : splitVcsUrl c.vcsUrl = some (String.ofList url, String.ofList revision) :=
        splitVcsUrl_eq_some.2 (by simpa using ⟨h, hlast⟩)
      obtain ⟨hurl, hrevision⟩ := hvalid.source _ _ hsplit
      rcases hhalf with rfl | rfl
      · exact hurl rfl
      · exact hrevision rfl

theorem mergeInto_eq_error_iff : (∃ fault, source.mergeInto target = .error fault) ↔ source.Broken := by
  rw [← not_iff_not, not_broken_iff, ← validate_eq_ok_iff, mergeInto]
  cases source.validate <;> simp

/-! ### One entry after the other -/

/-- Work that changes a description in place and can stop at a rule that is broken. -/
abbrev InPlace := ExceptT Fault (StateM Configuration)

namespace InPlace

def change (f : Configuration → Configuration) : InPlace Unit := modify f

def run (work : InPlace Unit) (target : Configuration) : Except Fault Unit × Configuration :=
  (ExceptT.run work).run target

@[simp] theorem run_change (f : Configuration → Configuration) : (change f).run target = (.ok (), f target) := rfl

theorem change_bind_change (f g : Configuration → Configuration) :
    (change f >>= fun _ => change g) = change fun c => g (f c) := rfl

@[simp] theorem run_change_bind (f : Configuration → Configuration) (next : Unit → InPlace Unit) :
    (change f >>= next).run target = (next ()).run (f target) := rfl

theorem run_check_bind (check : Except Fault Unit) (next : Unit → InPlace Unit) :
    (liftExcept check >>= next : InPlace Unit).run target = match check with
      | .error fault => (.error fault, target)
      | .ok () => (next ()).run target := by
  cases check <;> rfl

theorem forM_change {α : Type} (es : List α) (f : Configuration → α → Configuration) :
    forM es (fun e => change (f · e)) = change fun c => es.foldl f c := by
  induction es with
  | nil => rfl
  | cons e es ih =>
    rw [List.forM_cons, ih]
    rfl

end InPlace

open InPlace

def annotate (c : Configuration) (e : String × String) : Configuration :=
  { c with annotations := c.annotations.insert e.1 e.2 }

def setVariable (c : Configuration) (e : String × String) : Configuration :=
  { c with environment := c.environment.insert e.1 e.2 }

/-- Adds a volume at the end, unless it is there. -/
def mount (c : Configuration) (path : String) : Configuration :=
  { c with volumes := some (if path ∈ c.volumes.getD [] then c.volumes.getD [] else c.volumes.getD [] ++ [path]) }

theorem foldl_annotate (c : Configuration) (es : List (String × String)) :
    es.foldl annotate c = { c with annotations := c.annotations.insertAll es } := by
  induction es generalizing c with
  | nil => rfl
  | cons e es ih => exact ih (annotate c e)

theorem foldl_setVariable (c : Configuration) (es : List (String × String)) :
    es.foldl setVariable c = { c with environment := c.environment.insertAll es } := by
  induction es generalizing c with
  | nil => rfl
  | cons e es ih => exact ih (setVariable c e)

theorem foldl_mount {vs : List String} (h : c.volumes = some vs) (paths : List String) :
    paths.foldl mount c = { c with volumes := some (addNew vs paths) } := by
  induction paths generalizing c vs with
  | nil => exact h ▸ rfl
  | cons path paths ih =>
    rw [List.foldl_cons, ih (c := mount c path) rfl, h, addNew_cons]
    rfl

/-- Adds the volumes that are new; a list without any still takes the place of no list. -/
def mountAll : Option (List String) → InPlace Unit
  | none => pure ()
  | some paths => do
    change fun c => { c with volumes := some (c.volumes.getD []) }
    forM paths fun path => change (mount · path)

/-- Sets the texts and the entrypoint that `source` has. -/
def assign (source c : Configuration) : Configuration :=
  { c with
    vcsUrl := overText c.vcsUrl source.vcsUrl
    entrypoint := overEntrypoint c.entrypoint source.entrypoint
    cmd := overText c.cmd source.cmd
    workDir := overText c.workDir source.workDir
    accounts := ⟨overText c.accounts.runAs source.accounts.runAs⟩
    stopSignal := overText c.stopSignal source.stopSignal }

/-- Lays `source` over a description in place. -/
def mergeOnto (source : Configuration) : InPlace Unit := do
  liftExcept source.validate
  forM source.annotations.entries fun e => change (annotate · e)
  forM source.environment.entries fun e => change (setVariable · e)
  mountAll source.volumes
  change (assign source)

theorem mountAll_eq (volumes : Option (List String)) :
    mountAll volumes = change fun c => { c with volumes := overVolumes c.volumes volumes } := by
  cases volumes with
  | none => rfl
  | some paths =>
    rw [mountAll, forM_change, change_bind_change]
    congr 1
    funext c
    rw [foldl_mount rfl]
    rfl

/-- Merging in place leaves the merged description, or else the description that was there. -/
theorem run_mergeOnto (source target : Configuration) : (mergeOnto source).run target =
    match source.mergeInto target with
    | .ok result => (.ok (), result)
    | .error fault => (.error fault, target) := by
  rw [mergeOnto, run_check_bind, mergeInto]
  cases source.validate with
  | error fault => rfl
  | ok u =>
    simp only [forM_change, mountAll_eq, run_change_bind, run_change, foldl_annotate, foldl_setVariable]
    rfl

/-! ### Working copies -/

theorem addNew_nil (paths : List String) : addNew [] paths = paths.eraseDups := by
  simp [addNew_eq]

/-- A working copy is its own working copy. -/
theorem workingCopy_workingCopy {copy : Configuration} (h : source.workingCopy = .ok copy) :
    copy.workingCopy = .ok copy := by
  obtain ⟨hvalid, rfl⟩ := workingCopy_eq_ok.1 h
  have hempty : ({} : Configuration).Valid := validate_eq_ok_iff.1 (by decide)
  have hcopy : (overlay {} source).Valid := (validate_eq_ok_iff.1 hvalid).overlay hempty
  refine workingCopy_eq_ok.2 ⟨validate_eq_ok_iff.2 hcopy, ?_⟩
  rw [← overlay_assoc, overlay_default {}]
  rfl

/-- A merge fails just if the description to be laid on top breaks a rule. It fails as an error of merging and
leaves the other one as it was; over the empty description it repeats the one on top, each volume listed once. -/
theorem merging_all_or_nothing (source target : Configuration) :
    ((∃ fault, source.mergeInto target = .error fault) ↔ source.Broken) ∧
    ((mergeOnto source).run target = match source.mergeInto target with
      | .ok result => (.ok (), result)
      | .error fault => (.error fault, target)) ∧
    (∀ fault, source.mergeInto target = .error fault → (Error.merge fault).kind = .configMerge) ∧
    (¬source.Broken → ∃ copy, source.workingCopy = .ok copy ∧ copy.workingCopy = .ok copy ∧
      copy = { source with volumes := source.volumes.map List.eraseDups }) := by
  refine ⟨mergeInto_eq_error_iff, run_mergeOnto source target, fun fault _ => rfl, fun hnot => ?_⟩
  have hcopy : source.workingCopy = .ok (overlay {} source) :=
    workingCopy_eq_ok.2 ⟨validate_eq_ok_iff.2 (not_broken_iff.1 hnot), rfl⟩
  refine ⟨overlay {} source, hcopy, workingCopy_workingCopy hcopy, ?_⟩
  rw [overlay_default, funext addNew_nil]

end ImageAssembly.Configuration
