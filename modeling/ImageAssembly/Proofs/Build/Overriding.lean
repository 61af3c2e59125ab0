import ImageAssembly.Proofs.Build.Provenance

/-! Descriptions that differ in their variables and their annotations. They are built alike: wherever the one gives an
image, so does the other, and the documents of the two differ in what stands there of the variables and of the
annotations. -/

namespace ImageAssembly

namespace Configuration

/-- The description with other variables and annotations. -/
def withMaps (c : Configuration) (environment annotations : Dictionary String) : Configuration :=
  { c with environment, annotations }

/-- Variables and annotations that are laid over a description leave the rest of it alone. -/
theorem overlay_maps (lower : Configuration) (environment annotations : Dictionary String) :
    overlay lower { environment, annotations } =
      lower.withMaps (lower.environment.overlay environment) (lower.annotations.overlay annotations) := rfl

/-- What is laid over a description mends none of its rules. -/
theorem Valid.of_overlay_maps {lower : Configuration} {environment annotations : Dictionary String}
    (h : (Configuration.overlay lower { environment, annotations }).Valid) : lower.Valid where
  names name hname := h.names name (Dictionary.mem_keys_overlay.2 (.inl hname))
  annotations hempty := h.annotations (Dictionary.mem_keys_overlay.2 (.inl hempty))
  volumes := h.volumes
  source := h.source

theorem workingCopy_withMaps {description : Configuration} {environment annotations : Dictionary String} :
    overlay {} (description.withMaps environment annotations) =
      (overlay {} description).withMaps environment annotations := by
  rw [overlay_default, overlay_default]
  rfl

end Configuration

namespace Build

open ImageAssembly.Configuration (withMaps)

/-- The document that is written differs in the variables and the labels alone. -/
theorem configure_withMaps (old : ConfigFile) (c : Configuration) (environment annotations : Dictionary String)
    (labels labels' : Dictionary String) (created : Time.Instant) (arch : Architecture) :
    configure old (c.withMaps environment annotations) labels' created arch =
      (configure old c labels created arch).map (·.withSettings (renderEnvironment environment) labels') := by
  have hentrypoint : (c.withMaps environment annotations).entrypoint = c.entrypoint := rfl
  have hcmd : (c.withMaps environment annotations).cmd = c.cmd := rfl
  rw [configure, configure, configureContainer, configureContainer, hentrypoint, hcmd]
  cases entrypointWords old.config.entrypoint c.entrypoint with
  | error fault => rfl
  | ok entrypoint => cases cmdWords old.config.cmd c.cmd <;> rfl

variable {base j : Image} {layers : List Layer} {description : Configuration} {created : Time.Instant}
variable {arch : Architecture} {w w' : Workspace}

/-- Where a description with other variables and annotations is built, so is the description itself if it keeps the
rules, and what is read of the documents is the same but for these. -/
theorem exists_build_of_withMaps {environment annotations : Dictionary String} (hvalid : description.Valid)
    (h : (build base layers (description.withMaps environment annotations) created arch).perform w = (.ok j, w')) :
    ∃ j0, (build base layers description created arch).perform w = (.ok j0, w') ∧
      ∀ c0, j0.configFile = .ok c0 → j.configFile = .ok (c0.withSettings (renderEnvironment environment)
        (Provenance.annotations (description.withMaps environment annotations) created)) := by
  obtain ⟨c, w1, mid, old, document, hc, hcheck, happend, hold, hdocument, hcommit⟩ := build_ok h
  obtain ⟨-, rfl⟩ := Configuration.workingCopy_eq_ok.1 hc
  rw [annotations_overlay] at hdocument hcommit
  rw [Configuration.workingCopy_withMaps, configure_withMaps _ _ _ _
    (Provenance.annotations (Configuration.overlay {} description) created), map_eq_ok] at hdocument
  obtain ⟨document0, hdocument0, rfl⟩ := hdocument
  obtain ⟨hcount, rfl⟩ := Image.withConfigFile_eq_ok.1 hcommit
  have hcopy : description.workingCopy = .ok (Configuration.overlay {} description) :=
    Configuration.workingCopy_eq_ok.2 ⟨Configuration.validate_eq_ok_iff.2 hvalid, rfl⟩
  refine ⟨_, build_of_steps hcopy hcheck happend hold hdocument0 (Image.withConfigFile_eq_ok.2 ⟨hcount, rfl⟩),
    fun c0 hc0 => mapError_eq_ok.2 ?_⟩
  have hread := mapError_eq_ok.1 hc0
  rw [Image.rawConfig_storeConfig] at hread ⊢
  exact ConfigFile.ofBytes_toBytes_withSettings (isKept_configure (ConfigFile.isKept_of_ofBytes hold) hdocument0)
    hread _ _

end Build

end ImageAssembly
