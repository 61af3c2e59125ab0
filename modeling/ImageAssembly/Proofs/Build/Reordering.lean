import ImageAssembly.Export.SingleLayer
import ImageAssembly.Proofs.Build.Stacking
import ImageAssembly.Proofs.InStep

/-! The order of volumes. A description lists volumes, but an image has a set of them: two descriptions that list the
same ones, in whatever order and however often, are kept to the same rules and give the same documents. -/

namespace ImageAssembly

variable {vs vs' : List String} {description : Configuration} {created : Time.Instant} {arch : Architecture}

namespace Configuration

/-- A description with its volumes listed in some way. -/
def listing (description : Configuration) (vs : List String) : Configuration :=
  { description with volumes := some vs }

theorem Valid.relisted (h : (description.listing vs).Valid) (hvs : ∀ v, v ∈ vs ↔ v ∈ vs') :
    (description.listing vs').Valid where
  names := h.names
  annotations := h.annotations
  volumes v hv := h.volumes v ((hvs v).2 hv)
  source := h.source

/-- The working copies list the same volumes, or neither description is taken. -/
theorem matched_workingCopy (hvs : ∀ v, v ∈ vs ↔ v ∈ vs') (description : Configuration) :
    Matched (fun _ => .configMerge)
      (fun c c' => c = description.listing (addNew [] vs) ∧ c' = description.listing (addNew [] vs'))
      (description.listing vs).workingCopy (description.listing vs').workingCopy := by
  rw [workingCopy, workingCopy]
  cases hv : (description.listing vs).validate with
  | ok u =>
    have hv' := validate_eq_ok_iff.2 ((validate_eq_ok_iff.1 hv).relisted hvs)
    rw [mergeInto_of_validate hv, mergeInto_of_validate hv']
    exact .ok ⟨overlay_default _, overlay_default _⟩
  | error fault =>
    cases hv' : (description.listing vs').validate with
    | ok u =>
      have hvalid := validate_eq_ok_iff.2 ((validate_eq_ok_iff.1 hv').relisted fun v => (hvs v).symm)
      cases hv.symm.trans hvalid
    | error fault' =>
      rw [mergeInto, mergeInto, hv, hv']
      exact .error rfl

end Configuration

namespace Build

/-- A set is determined by its members. -/
theorem setOf_congr (hvs : ∀ v, v ∈ vs ↔ v ∈ vs') : setOf vs = setOf vs' := by
  refine Dictionary.ext_get? fun k => Option.ext fun u => ?_
  have hmem : ∀ names, (setOf names).get? k = some u ↔ k ∈ names := fun names => by
    rw [← mem_keys_setOf, Dictionary.mem_keys_iff]
    exact ⟨fun h => ⟨u, h⟩, fun ⟨_, h⟩ => h⟩
  rw [hmem, hmem, hvs]

theorem configure_listing (hvs : ∀ v, v ∈ vs ↔ v ∈ vs') (old : ConfigFile) (description : Configuration)
    (labels : Dictionary String) (created : Time.Instant) (arch : Architecture) :
    configure old (description.listing vs) labels created arch =
      configure old (description.listing vs') labels created arch := by
  simp only [configure, configureContainer, Configuration.listing, setOf_congr hvs]

/-- Builds from descriptions that list the same volumes make the same image, or fail with errors of one kind. -/
theorem inStep_build_listing (hvs : ∀ v, v ∈ vs ↔ v ∈ vs') (base : Image) (layers : List Layer)
    (description : Configuration) (created : Time.Instant) (arch : Architecture) :
    InStep (· = ·) Fault.kind (· = ·) (build base layers (description.listing vs) created arch)
      (build base layers (description.listing vs') created arch) := by
  have hcopies : Matched Fault.kind _ ((description.listing vs).workingCopy.mapError .merge)
      ((description.listing vs').workingCopy.mapError .merge) :=
    (Configuration.matched_workingCopy hvs description).mapError fun _ _ _ => rfl
  refine InStep.bind (.ofExcept hcopies) ?_
  rintro _ _ ⟨rfl, rfl⟩
  have hlisted : ∀ v, v ∈ Configuration.addNew [] vs ↔ v ∈ Configuration.addNew [] vs' := fun v => by
    simp only [Configuration.mem_addNew, hvs]
  have hannotations : Provenance.annotations (description.listing (Configuration.addNew [] vs)) created =
      Provenance.annotations (description.listing (Configuration.addNew [] vs')) created := rfl
  simp only [hannotations, configure_listing hlisted]
  exact .refl _ _

end Build

/-- The image of one layer is written alike whatever the order of the volumes. -/
theorem Export.inStep_buildFromLayer_listing (hvs : ∀ v, v ∈ vs ↔ v ∈ vs') (reference : String) (l : Layer)
    (path : String) (description : Configuration) (created : Time.Instant) (arch : Architecture) :
    InStep (· = ·) Error.kind (· = ·) (buildFromLayer reference l path (description.listing vs) created arch)
      (buildFromLayer reference l path (description.listing vs') created arch) := by
  have hbuild := Build.inStep_build_listing hvs .empty [l] description created arch
  refine InStep.bind (hbuild.mapFault fun _ _ => id) ?_
  rintro image _ rfl
  exact .refl _ _

end ImageAssembly
