import ImageAssembly.Build.Assembly
import ImageAssembly.Proofs.Configuration.Merging
import ImageAssembly.Proofs.Image.Appending

/-! The steps of a build: the description is laid out, the layers are asked, put on the image, and the
document is written anew. -/

namespace ImageAssembly.Build

open Workspace (Remembers)

/-! ### Asking the layers -/

theorem leads_checkLayers {r : Workspace → Workspace → Prop} [IsPreorder Workspace r] {ls : List Layer}
    (h : ∀ l ∈ ls, l.Asks r) : (checkLayers ls).Leads r := by
  induction ls with
  | nil => exact .pure _
  | cons l ls ih =>
    have hl := h l (by simp)
    exact hl.digest.bind fun _ => hl.diffId.bind fun _ => ih fun k hk => h k (by simp [hk])

theorem checkLayers_ok {ls : List Layer} {w w' : Workspace} (h : (checkLayers ls).perform w = (.ok (), w')) :
    w.Remembers w' ∧ w'.files = w.files := by
  induction ls generalizing w with
  | nil =>
    simp only [checkLayers, Action.perform_pure, Prod.mk.injEq, true_and] at h
    subst h
    exact ⟨.refl w, rfl⟩
  | cons l ls ih =>
    obtain ⟨d, w1, h1, h⟩ := Action.perform_bind_ok h
    obtain ⟨d', w2, h2, h⟩ := Action.perform_bind_ok h
    obtain ⟨r1, f1, -⟩ := Layer.digest_ok h1
    obtain ⟨r2, f2, -⟩ := Layer.diffId_ok h2
    obtain ⟨r3, f3⟩ := ih h
    exact ⟨(r1.trans r2).trans r3, f3.trans (f2.trans f1)⟩

/-- Layers that have been asked are known. -/
theorem known_of_checkLayers {ls : List Layer} {w w' : Workspace}
    (h : (checkLayers ls).perform w = (.ok (), w')) (held : ∀ l ∈ ls, w.Holds l) : ∀ l ∈ ls, l.Known w' := by
  induction ls generalizing w with
  | nil => simp
  | cons l ls ih =>
    obtain ⟨d, w1, h1, h⟩ := Action.perform_bind_ok h
    obtain ⟨d', w2, h2, h⟩ := Action.perform_bind_ok h
    obtain ⟨r1, -, k1⟩ := Layer.digest_ok h1
    obtain ⟨r2, -, k2⟩ := Layer.diffId_ok h2
    obtain ⟨r3, -⟩ := checkLayers_ok h
    have hl := held l (by simp)
    obtain ⟨n, hn⟩ := k1 hl
    rw [List.forall_mem_cons]
    refine ⟨⟨⟨_, hn.later (r2.trans r3)⟩, d', (k2 (hl.later r1)).later r3⟩, ih h fun k hk => ?_⟩
    exact ((held k (by simp [hk])).later r1).later r2

/-- The layers with their records. -/
def addendaOf (layers : List Layer) (created : Time.Instant) : List Addendum :=
  layers.map fun l => ⟨l, historyOf created layers.length⟩

@[simp] theorem map_layer_addendaOf (layers : List Layer) (created : Time.Instant) :
    (addendaOf layers created).map (·.layer) = layers := by
  rw [addendaOf, List.map_map]
  exact List.map_id layers

theorem addenda_ok {layers : List Layer} {created : Time.Instant} {as : List Addendum} {w w' : Workspace}
    (h : (addenda layers created).perform w = (.ok as, w')) :
    (checkLayers layers).perform w = (.ok (), w') ∧ as = addendaOf layers created := by
  obtain ⟨u, w1, h1, h⟩ := Action.perform_bind_ok h
  simp only [Action.perform_pure, Prod.mk.injEq, Except.ok.injEq] at h
  obtain ⟨rfl, rfl⟩ := h
  exact ⟨h1, rfl⟩

/-! ### The description -/

theorem cmd_overlay (description : Configuration) :
    (Configuration.overlay {} description).cmd = description.cmd := Configuration.overText_empty _

theorem entrypoint_overlay (description : Configuration) :
    (Configuration.overlay {} description).entrypoint = description.entrypoint :=
  Configuration.overEntrypoint_default _

theorem environment_overlay (description : Configuration) :
    (Configuration.overlay {} description).environment = description.environment := Dictionary.overlay_empty _

theorem annotations_overlay (description : Configuration) (created : Time.Instant) :
    Provenance.annotations (Configuration.overlay {} description) created =
      Provenance.annotations description created := by
  rw [Configuration.overlay_default]
  rfl

/-! ### The document -/

theorem configure_ok {old new : ConfigFile} {c : Configuration} {labels : Dictionary String}
    {created : Time.Instant} {arch : Architecture} (h : configure old c labels created arch = .ok new) :
    ∃ config, configureContainer old.config c labels = .ok config ∧
      new = { old with
        author := imageAuthor
        architecture := arch.name
        variant := arch.variant
        os := imageOs
        created := some created
        config } := by
  rw [configure] at h
  cases hc : configureContainer old.config c labels with
  | error fault => simp [hc, bind, Except.bind] at h
  | ok config =>
    simp only [hc, bind, Except.bind, pure, Except.pure, Except.ok.injEq] at h
    exact ⟨config, rfl, h.symm⟩

theorem configureContainer_ok {old config : ContainerConfig} {c : Configuration} {labels : Dictionary String}
    (h : configureContainer old c labels = .ok config) :
    ∃ entrypoint cmd, entrypointWords old.entrypoint c.entrypoint = .ok entrypoint ∧
      cmdWords old.cmd c.cmd = .ok cmd ∧
      config = { old with
        labels
        entrypoint
        cmd
        workingDir := Configuration.overText old.workingDir c.workDir
        volumes := match c.volumes with
          | some volumes => setOf volumes
          | none => old.volumes
        env := renderEnvironment c.environment
        user := Configuration.overText old.user c.accounts.runAs
        stopSignal := Configuration.overText old.stopSignal c.stopSignal } := by
  rw [configureContainer] at h
  cases he : entrypointWords old.entrypoint c.entrypoint with
  | error fault => simp [he, bind, Except.bind] at h
  | ok entrypoint =>
    cases hc : cmdWords old.cmd c.cmd with
    | error fault => simp [he, hc, bind, Except.bind] at h
    | ok cmd =>
      simp only [he, hc, bind, Except.bind, pure, Except.pure, Except.ok.injEq] at h
      exact ⟨entrypoint, cmd, rfl, rfl, h.symm⟩

/-- Members that the container's record does not name stay. -/
theorem extra_configureContainer {old config : ContainerConfig} {c : Configuration} {labels : Dictionary String}
    (h : configureContainer old c labels = .ok config) : config.extra = old.extra := by
  obtain ⟨entrypoint, cmd, -, -, rfl⟩ := configureContainer_ok h
  rfl

/-- A document that keeps only what can be kept still does so where it is written anew. -/
theorem isKept_configure {old new : ConfigFile} {c : Configuration} {labels : Dictionary String}
    {created : Time.Instant} {arch : Architecture} (hk : old.IsKept)
    (h : configure old c labels created arch = .ok new) : new.IsKept := by
  obtain ⟨config, hconfig, rfl⟩ := configure_ok h
  refine ⟨hk.extra, ?_, hk.history⟩
  rw [ContainerConfig.IsKept, extra_configureContainer hconfig]
  exact hk.config

theorem hasPlainYears_configure {old new : ConfigFile} {c : Configuration} {labels : Dictionary String}
    {created : Time.Instant} {arch : Architecture} (hyears : old.HasPlainYears) (hcreated : created.HasPlainYear)
    (h : configure old c labels created arch = .ok new) : new.HasPlainYears := by
  obtain ⟨config, -, rfl⟩ := configure_ok h
  refine ⟨?_, hyears.history⟩
  rintro _ ⟨⟩
  exact hcreated

theorem rootfs_configure {old new : ConfigFile} {c : Configuration} {labels : Dictionary String}
    {created : Time.Instant} {arch : Architecture} (h : configure old c labels created arch = .ok new) :
    new.rootfs = old.rootfs := by
  obtain ⟨config, -, rfl⟩ := configure_ok h
  rfl

/-! ### The build -/

/-- The base with the types of what is built. -/
def typed (base : Image) : Image := (base.withMediaType .imageManifest).withConfigMediaType .imageConfig

/-- A build does to a workspace what putting its layers on an image does. -/
theorem leads_build {r : Workspace → Workspace → Prop} [IsPreorder Workspace r] {layers : List Layer}
    (h : ∀ l ∈ layers, l.Asks r) (base : Image) (description : Configuration) (created : Time.Instant)
    (arch : Architecture) : (build base layers description created arch).Leads r := by
  refine (Action.Leads.ofExcept _).bind fun c => ?_
  have hchecked : (addenda layers created).Leads r := (leads_checkLayers h).bind fun _ => .pure _
  refine (hchecked.mapFault _).bind_ok fun w1 as w2 h2 => ?_
  obtain ⟨-, rfl⟩ := addenda_ok (Action.perform_mapFault_ok.1 h2)
  rw [← map_layer_addendaOf layers created] at h
  refine Action.Leads.bind ((Image.leads_append _ h).mapFault _) (fun image => ?_) w2
  exact (Action.Leads.ofExcept _).bind fun old => (Action.Leads.ofExcept _).bind fun config => .ofExcept _

/-- A successful build, taken apart: the image between putting the layers on and writing the document is
`mid`. -/
theorem build_ok {base j : Image} {layers : List Layer} {description : Configuration} {created : Time.Instant}
    {arch : Architecture} {w w' : Workspace}
    (h : (build base layers description created arch).perform w = (.ok j, w')) :
    ∃ c w1 mid old config, description.workingCopy = .ok c ∧ (checkLayers layers).perform w = (.ok (), w1) ∧
      ((typed base).append (addendaOf layers created)).perform w1 = (.ok mid, w') ∧
      ConfigFile.ofBytes mid.rawConfig = .ok old ∧
      configure old c (Provenance.annotations c created) created arch = .ok config ∧
      (mid.withAnnotations (Provenance.annotations c created)).withConfigFile config = .ok j := by
  obtain ⟨c, w0, h0, h⟩ := Action.perform_bind_ok h
  obtain ⟨as, w1, h1, h⟩ := Action.perform_bind_ok h
  obtain ⟨mid, w2, h2, h⟩ := Action.perform_bind_ok h
  obtain ⟨old, w3, h3, h⟩ := Action.perform_bind_ok h
  obtain ⟨config, w4, h4, h⟩ := Action.perform_bind_ok h
  rw [Action.perform_mapFault_ok] at h1 h2
  simp only [Action.perform_ofExcept, Prod.mk.injEq, mapError_eq_ok] at h0 h3 h4 h
  obtain ⟨hc, rfl⟩ := h0
  obtain ⟨hold, rfl⟩ := h3
  obtain ⟨hconfig, rfl⟩ := h4
  obtain ⟨hj, rfl⟩ := h
  obtain ⟨hcheck, rfl⟩ := addenda_ok h1
  exact ⟨c, w1, mid, old, config, hc, hcheck, h2, mapError_eq_ok.1 hold, hconfig, hj⟩

/-- Steps that succeed make up a build that does. -/
theorem build_of_steps {base mid j : Image} {layers : List Layer} {description c : Configuration}
    {created : Time.Instant} {arch : Architecture} {old config : ConfigFile} {w w1 w' : Workspace}
    (hc : description.workingCopy = .ok c) (hcheck : (checkLayers layers).perform w = (.ok (), w1))
    (happend : ((typed base).append (addendaOf layers created)).perform w1 = (.ok mid, w'))
    (hold : ConfigFile.ofBytes mid.rawConfig = .ok old)
    (hconfig : configure old c (Provenance.annotations c created) created arch = .ok config)
    (hcommit : (mid.withAnnotations (Provenance.annotations c created)).withConfigFile config = .ok j) :
    (build base layers description created arch).perform w = (.ok j, w') := by
  have haddenda : (addenda layers created).perform w = (.ok (addendaOf layers created), w1) := by
    rw [addenda, Action.perform_bind, hcheck]
    rfl
  have hread : (mid.withAnnotations (Provenance.annotations c created)).configFile = .ok old :=
    mapError_eq_ok.2 hold
  rw [typed] at happend
  simp only [build, Action.perform_bind, Action.perform_ofExcept, Action.perform_mapFault, Except.mapError, hc,
    haddenda, happend, hread, hconfig, hcommit]

/-- The layers of a built image are those of the base and the new ones. -/
theorem layers_of_build {base j : Image} {layers : List Layer} {description : Configuration}
    {created : Time.Instant} {arch : Architecture} {w w' : Workspace}
    (h : (build base layers description created arch).perform w = (.ok j, w')) :
    j.layers = base.layers ++ layers := by
  obtain ⟨c, w1, mid, old, config, -, -, happend, -, -, hcommit⟩ := build_ok h
  obtain ⟨old', summaries, -, -, rfl⟩ := Image.append_ok happend
  obtain ⟨-, rfl⟩ := Image.withConfigFile_eq_ok.1 hcommit
  rw [Image.layers_storeConfig, Image.withAnnotations, Image.layers_extend, map_layer_addendaOf]
  rfl

/-- The variables and the labels of what a build writes are the description's. -/
theorem document_of_build {base j : Image} {layers : List Layer} {description : Configuration}
    {created : Time.Instant} {arch : Architecture} {w w' : Workspace}
    (h : (build base layers description created arch).perform w = (.ok j, w')) :
    ∃ document : ConfigFile, j.rawConfig = document.toBytes ∧ document.IsKept ∧
      document.config.env = renderEnvironment description.environment ∧
      document.config.labels = Provenance.annotations description created := by
  obtain ⟨c, w1, mid, old, document, hc, -, -, hold, hdocument, hcommit⟩ := build_ok h
  obtain ⟨-, rfl⟩ := Configuration.workingCopy_eq_ok.1 hc
  obtain ⟨-, rfl⟩ := Image.withConfigFile_eq_ok.1 hcommit
  refine ⟨document, Image.rawConfig_storeConfig _ _, isKept_configure (ConfigFile.isKept_of_ofBytes hold) hdocument, ?_⟩
  obtain ⟨config, hconfig, rfl⟩ := configure_ok hdocument
  obtain ⟨entrypoint, cmd, -, -, rfl⟩ := configureContainer_ok hconfig
  rw [environment_overlay, annotations_overlay]
  exact ⟨rfl, rfl⟩

/-- Only descriptions that keep the rules are built. -/
theorem valid_of_build {base j : Image} {layers : List Layer} {description : Configuration}
    {created : Time.Instant} {arch : Architecture} {w w' : Workspace}
    (h : (build base layers description created arch).perform w = (.ok j, w')) : description.Valid := by
  obtain ⟨c, -, -, -, -, hc, -⟩ := build_ok h
  exact Configuration.validate_eq_ok_iff.1 (Configuration.workingCopy_eq_ok.1 hc).1

/-- The manifest tells the digest of the document. -/
theorem digest_of_build {base j : Image} {layers : List Layer} {description : Configuration}
    {created : Time.Instant} {arch : Architecture} {w w' : Workspace}
    (h : (build base layers description created arch).perform w = (.ok j, w')) :
    j.manifest.config.digest = .sha256 j.rawConfig := by
  obtain ⟨c, w1, mid, old, document, -, -, -, -, -, hcommit⟩ := build_ok h
  obtain ⟨-, rfl⟩ := Image.withConfigFile_eq_ok.1 hcommit
  rw [Image.digest_storeConfig, Image.rawConfig_storeConfig]

/-- The manifest's annotations are the base's with the labels laid over them. -/
theorem annotations_of_build {base j : Image} {layers : List Layer} {description : Configuration}
    {created : Time.Instant} {arch : Architecture} {w w' : Workspace}
    (h : (build base layers description created arch).perform w = (.ok j, w')) :
    j.manifest.annotations = base.manifest.annotations.overlay (Provenance.annotations description created) := by
  obtain ⟨c, w1, mid, old, document, hc, -, happend, -, -, hcommit⟩ := build_ok h
  obtain ⟨-, rfl⟩ := Configuration.workingCopy_eq_ok.1 hc
  obtain ⟨-, rfl⟩ := Image.withConfigFile_eq_ok.1 hcommit
  obtain ⟨old', summaries, -, -, rfl⟩ := Image.append_ok happend
  rw [annotations_overlay]
  rfl

/-- After a build its layers are known. -/
theorem known_of_build {base j : Image} {layers : List Layer} {description : Configuration} {created : Time.Instant}
    {arch : Architecture} {w w' : Workspace} (held : ∀ l ∈ layers, w.Holds l)
    (h : (build base layers description created arch).perform w = (.ok j, w')) : ∀ l ∈ layers, l.Known w' := by
  obtain ⟨c, w1, mid, old, config, -, hcheck, happend, -, -, -⟩ := build_ok h
  have hremembers : ((typed base).append (addendaOf layers created)).Leads Remembers :=
    Image.leads_append _ fun l _ => l.asks_remembers
  exact fun l hl => (known_of_checkLayers hcheck held l hl).later (hremembers.of_perform happend)

end ImageAssembly.Build
