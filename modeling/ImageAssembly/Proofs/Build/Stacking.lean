import ImageAssembly.Proofs.Build.Outcome
import ImageAssembly.Proofs.Configuration.Merging
import ImageAssembly.Proofs.Image.Consistency
import ImageAssembly.Proofs.Image.Documents

/-! What a build leaves of its base. The base's document is written and read again twice on the way; where it holds
no doubles nothing is lost of it, so that the new document differs from the old one by just what was described and
by what the new layers add. -/

namespace ImageAssembly.Build

open ImageAssembly.Configuration (overlay_default workingCopy_eq_ok)

variable {base j : Image} {b old new : ConfigFile} {layers : List Layer} {description c : Configuration}
variable {created : Time.Instant} {arch : Architecture} {labels : Dictionary String} {w w' : Workspace}

/-! ### The description -/

@[simp] theorem mem_keys_setOf {names : List String} {name : String} :
    name ∈ (setOf names).keys ↔ name ∈ names := by
  rw [setOf, Dictionary.ofList, Dictionary.mem_keys_insertAll, List.map_map]
  simp [Dictionary.keys, Dictionary.empty]

/-! ### Runtime defaults -/

/-- Whether runtime defaults are those of a base where a description sets nothing, and else what it says. -/
structure Follows (description : Configuration) (old new : ContainerConfig) : Prop where
  fragment : description.entrypoint.shellFragment ≠ "" →
    new.entrypoint = ["/bin/sh", "-c", description.entrypoint.shellFragment]
  command : description.entrypoint.shellFragment = "" → description.entrypoint.command ≠ "" →
    ShellWords.split? description.entrypoint.command = some new.entrypoint
  noEntrypoint : description.entrypoint.shellFragment = "" → description.entrypoint.command = "" →
    new.entrypoint = old.entrypoint
  cmd : description.cmd ≠ "" → ShellWords.split? description.cmd = some new.cmd
  noCmd : description.cmd = "" → new.cmd = old.cmd
  workingDir : new.workingDir = if description.workDir = "" then old.workingDir else description.workDir
  user : new.user = if description.accounts.runAs = "" then old.user else description.accounts.runAs
  stopSignal : new.stopSignal = if description.stopSignal = "" then old.stopSignal else description.stopSignal
  volumes : ∀ paths, description.volumes = some paths → ∀ path, path ∈ new.volumes.keys ↔ path ∈ paths
  noVolumes : description.volumes = none → new.volumes = old.volumes
  env : new.env = renderEnvironment description.environment
  exposedPorts : new.exposedPorts = old.exposedPorts
  extra : new.extra = old.extra

theorem entrypointWords_ok {before after : List String} {e : Entrypoint} (h : entrypointWords before e = .ok after) :
    (e.shellFragment ≠ "" → after = ["/bin/sh", "-c", e.shellFragment]) ∧
      (e.shellFragment = "" → e.command ≠ "" → ShellWords.split? e.command = some after) ∧
      (e.shellFragment = "" → e.command = "" → after = before) := by
  rw [entrypointWords] at h
  split_ifs at h with hf hc
  · simp_all
  · cases hs : ShellWords.split? e.command with
    | none => simp [hs] at h
    | some words => simp_all
  · simp_all

theorem cmdWords_ok {before after : List String} {cmd : String} (h : cmdWords before cmd = .ok after) :
    (cmd ≠ "" → ShellWords.split? cmd = some after) ∧ (cmd = "" → after = before) := by
  rw [cmdWords] at h
  split_ifs at h with hc
  · simp_all
  · cases hs : ShellWords.split? cmd with
    | none => simp [hs] at h
    | some words => simp_all

theorem follows_configureContainer {before after : ContainerConfig} (hc : description.workingCopy = .ok c)
    (h : configureContainer before c labels = .ok after) :
    Follows description before after ∧ after.labels = labels := by
  obtain ⟨-, rfl⟩ := workingCopy_eq_ok.1 hc
  rw [overlay_default] at h
  obtain ⟨entrypoint, cmd, he, hcmd, rfl⟩ := configureContainer_ok h
  obtain ⟨hfragment, hcommand, hnone⟩ := entrypointWords_ok he
  obtain ⟨hset, hunset⟩ := cmdWords_ok hcmd
  refine ⟨⟨hfragment, hcommand, hnone, hset, hunset, rfl, rfl, rfl, ?_, ?_, rfl, rfl, rfl⟩, rfl⟩
  · intro paths hpaths path
    simp [hpaths, Configuration.mem_addNew]
  · intro hnone
    simp [hnone]

/-! ### The document -/

theorem hasIntegers_extendedConfig (hb : b.HasIntegers) (summaries : List Image.LayerSummary) :
    (Image.extendedConfig b (addendaOf layers created) summaries).HasIntegers where
  extra := hb.extra
  config := hb.config
  history h hh := by
    rw [Image.extendedConfig, List.mem_append, addendaOf, List.map_map, List.mem_map] at hh
    rcases hh with hh | ⟨l, -, rfl⟩
    · exact hb.history h hh
    · trivial

theorem hasIntegers_configure (hold : old.HasIntegers) (h : configure old c labels created arch = .ok new) :
    new.HasIntegers := by
  obtain ⟨config, hconfig, rfl⟩ := configure_ok h
  refine ⟨hold.extra, ?_, hold.history⟩
  dsimp only
  rw [extra_configureContainer hconfig]
  exact hold.config

theorem hasProperTimes_extendedConfig (hb : b.HasProperTimes) (hcreated : created.IsProper)
    (summaries : List Image.LayerSummary) :
    (Image.extendedConfig b (addendaOf layers created) summaries).HasProperTimes where
  created := hb.created
  history h hh := by
    rw [Image.extendedConfig, List.mem_append, addendaOf, List.map_map, List.mem_map] at hh
    rcases hh with hh | ⟨l, -, rfl⟩
    · exact hb.history h hh
    · rintro t ⟨⟩
      exact hcreated

theorem hasProperTimes_configure (hold : old.HasProperTimes) (hcreated : created.IsProper)
    (h : configure old c labels created arch = .ok new) : new.HasProperTimes := by
  obtain ⟨config, -, rfl⟩ := configure_ok h
  refine ⟨?_, hold.history⟩
  rintro t ⟨⟩
  exact hcreated

/-- A successful build on a base whose document holds no doubles, taken apart: both documents on the way come back as
they were written. -/
theorem build_exact_ok (hread : ConfigFile.ofBytes base.rawConfig = .ok b) (hintegers : b.HasIntegers)
    (hproper : created.IsProper) (hlayers : layers ≠ [])
    (h : (build base layers description created arch).perform w = (.ok j, w')) :
    ∃ c w1 summaries new, description.workingCopy = .ok c ∧ w.Remembers w1 ∧
      (Image.summarizeAll layers).perform w1 = (.ok summaries, w') ∧
      configure (Image.extendedConfig b (addendaOf layers created) summaries) c (Provenance.annotations c created)
        created arch = .ok new ∧ new.IsExact ∧ new.HasProperTimes ∧
      j = (((typed base).extend b (addendaOf layers created) summaries).withAnnotations
        (Provenance.annotations c created)).storeConfig new := by
  obtain ⟨c, w1, mid, old, new, hcopy, hcheck, happend, hold, hconfig, hcommit⟩ := build_ok h
  obtain ⟨b', summaries, happendable, hsummaries, rfl⟩ := Image.append_ok happend
  obtain ⟨hread', -, -⟩ := Image.appendable_eq_ok.1 happendable
  obtain rfl : b = b' := Except.ok.inj (hread.symm.trans hread')
  rw [Image.rawConfig_extend] at hold
  have hkept := @isKept_extendedConfig layers created b (ConfigFile.isKept_of_ofBytes hread) summaries
  have hyears := (ConfigFile.exists_ofBytes_toBytes_iff hkept).1 ⟨old, hold⟩
  have hexact : ConfigFile.IsExact _ := ⟨hkept, hasIntegers_extendedConfig hintegers summaries, hyears⟩
  have htimes := @hasProperTimes_extendedConfig b layers created (ConfigFile.hasProperTimes_of_ofBytes hread) hproper
    summaries
  rw [ConfigFile.ofBytes_toBytes hexact, htimes.settled] at hold
  obtain rfl := Except.ok.inj hold
  have hcreated := ((hasPlainYears_extendedConfig_iff summaries).1 hyears).2 hlayers
  obtain ⟨-, rfl⟩ := Image.withConfigFile_eq_ok.1 hcommit
  rw [map_layer_addendaOf] at hsummaries
  have hnew : new.IsExact := ⟨isKept_configure hkept hconfig, hasIntegers_configure hexact.integers hconfig,
    hasPlainYears_configure hyears hcreated hconfig⟩
  exact ⟨c, w1, summaries, new, hcopy, (checkLayers_ok hcheck).1, hsummaries, hconfig, hnew,
    hasProperTimes_configure htimes hproper hconfig, rfl⟩

/-! ### The image -/

/-- Whether an image is a base with layers stacked on it, `b` being the document of the base and `c` its own. -/
structure Stacked (w : Workspace) (base j : Image) (b c : ConfigFile) (added : List Layer)
    (description : Configuration) (created : Time.Instant) (arch : Architecture) : Prop where
  layers : j.layers = base.layers ++ added
  descriptors : ∃ ds, j.manifest.layers = base.manifest.layers ++ ds ∧ List.Forall₂ (Image.Describes w) ds added
  rootfs : ∃ ids, c.rootfs = ⟨b.rootfs.type, b.rootfs.diffIds ++ ids⟩ ∧
    List.Forall₂ (fun d l => l.diffId.perform w = (.ok d, w)) ids added
  history : ∃ records, c.history = b.history ++ records ∧ records.length = added.length ∧
    ∀ h ∈ records, h.created = some created ∧ (h.comment = singleLayerComment ↔ added.length = 1)
  extra : c.extra = b.extra
  config : Follows description b.config c.config
  labels : c.config.labels = Provenance.annotations description created
  platform : c.architecture = arch.name ∧ c.variant = arch.variant ∧ c.os = imageOs
  authored : c.author = imageAuthor ∧ c.created = some created
  manifest : j.manifest.schemaVersion = base.manifest.schemaVersion ∧ j.manifest.mediaType = some .imageManifest ∧
    j.manifest.annotations = base.manifest.annotations.overlay (Provenance.annotations description created)
  document : j.manifest.config =
    ⟨.imageConfig, .sha256 j.rawConfig, j.rawConfig.size, base.manifest.config.annotations⟩

theorem comment_historyOf (created : Time.Instant) (n : Nat) :
    (historyOf created n).comment = singleLayerComment ↔ n = 1 := by
  rw [historyOf]
  split_ifs with h
  · simp [h]
  · have hne : "" ≠ singleLayerComment := by decide
    exact ⟨fun he => absurd he hne, fun hn => absurd hn h⟩

theorem history_addendaOf (layers : List Layer) (created : Time.Instant) :
    ((addendaOf layers created).map (·.history)).length = layers.length ∧
      ∀ h ∈ (addendaOf layers created).map (·.history),
        h.created = some created ∧ (h.comment = singleLayerComment ↔ layers.length = 1) := by
  rw [addendaOf, List.map_map, List.length_map, List.forall_mem_map]
  exact ⟨rfl, fun l _ => ⟨rfl, comment_historyOf created layers.length⟩⟩

/-- An image that was built on a base whose document holds no doubles, at no leap second but a minute's, is the base
with the new layers stacked on it: what the description does not set and what the new layers do not add is as it
was. -/
theorem stacked_of_build (base : Image) (b : ConfigFile) (layers : List Layer) (description : Configuration)
    (created : Time.Instant) (arch : Architecture) (w : Workspace) (j : Image) (w' : Workspace)
    (hread : base.configFile = .ok b) (hintegers : b.HasIntegers) (hproper : created.IsProper) (hlayers : layers ≠ [])
    (held : ∀ l ∈ layers, w.Holds l)
    (h : (build base layers description created arch).perform w = (.ok j, w')) :
    ∃ c, j.configFile = .ok c ∧ Stacked w' base j b c layers description created arch := by
  have hstacked := layers_of_build h
  obtain ⟨c, w1, summaries, new, hcopy, hremembers, hsummaries, hconfigure, hexact, htimes, rfl⟩ :=
    build_exact_ok (mapError_eq_ok.1 hread) hintegers hproper hlayers h
  have hback := Image.configFile_storeConfig hexact
  rw [htimes.settled] at hback
  obtain ⟨config, hconfig, rfl⟩ := configure_ok hconfigure
  obtain ⟨hfollows, hlabels⟩ := follows_configureContainer hcopy hconfig
  have hannotations : Provenance.annotations c created = Provenance.annotations description created := by
    rw [(workingCopy_eq_ok.1 hcopy).2, overlay_default]
    rfl
  have hsummarized := (Image.summarizeAll_ok hsummaries).2.2 fun l hl => (held l hl).later hremembers
  have hdescribed : List.Forall₂ (Image.Describes w') (summaries.map (·.descriptor)) layers := by
    rw [List.forall₂_map_left_iff]
    exact hsummarized.imp fun _ _ hs => ⟨hs.mediaType, hs.stored.digest, hs.stored.size⟩
  have hids : List.Forall₂ (fun d l => l.diffId.perform w' = (.ok d, w')) (summaries.map (·.diffId)) layers := by
    rw [List.forall₂_map_left_iff]
    exact hsummarized.imp fun _ _ hs => hs.diffId.diffId
  obtain ⟨hcount, hrecords⟩ := history_addendaOf layers created
  rw [hannotations] at hlabels hstacked ⊢
  exact ⟨_, hback _, {
    layers := hstacked
    descriptors := ⟨_, rfl, hdescribed⟩
    rootfs := ⟨_, rfl, hids⟩
    history := ⟨_, rfl, hcount, hrecords⟩
    extra := rfl
    config := hfollows
    labels := hlabels
    platform := ⟨rfl, rfl, rfl⟩
    authored := ⟨rfl, rfl⟩
    manifest := ⟨rfl, rfl, rfl⟩
    document := by
      rw [Image.rawConfig_storeConfig]
      rfl }⟩

/-- A base that has no layers and a document with members of its own. -/
def annotatedBase : Image := Image.empty.storeConfig annotatedDocument

/-- Two layers stacked on a base whose document keeps members at every level. -/
theorem stacked_on_annotated_base : annotatedBase.configFile = .ok annotatedDocument ∧ annotatedDocument.HasIntegers ∧
    Time.Instant.epoch.IsProper ∧ ∃ j w',
      (build annotatedBase twoLayers {} .epoch ⟨"amd64", ""⟩).perform .empty = (.ok j, w') ∧
      ∃ c, j.configFile = .ok c ∧
        Stacked w' annotatedBase j annotatedDocument c twoLayers {} .epoch ⟨"amd64", ""⟩ := by
  have hexact := isExact_annotatedDocument
  have hconfig : annotatedBase.configFile = .ok annotatedDocument :=
    (Image.configFile_storeConfig hexact _).trans (by rw [hasProperTimes_annotatedDocument.settled])
  have hproper : Time.Instant.epoch.IsProper := by decide
  have hread := mapError_eq_ok.1 hconfig
  have hopened := opened_twoLayers .empty
  have hyears : PlainYears annotatedBase twoLayers .epoch := by
    rw [PlainYears, hread]
    exact ⟨fun c hc => Except.ok.inj hc ▸ hexact.years, fun _ => by decide⟩
  have hpaired : Paired annotatedBase := rfl
  obtain ⟨j, w', hbuild⟩ := exists_build_undescribed hpaired ⟨annotatedDocument, hread, rfl, rfl⟩ hopened
    tells_twoLayers hyears ⟨"amd64", ""⟩
  exact ⟨hconfig, hexact.integers, hproper, j, w', hbuild,
    stacked_of_build _ _ _ _ _ _ _ _ _ hconfig hexact.integers hproper twoLayers_ne_nil hopened.held hbuild⟩

end ImageAssembly.Build
