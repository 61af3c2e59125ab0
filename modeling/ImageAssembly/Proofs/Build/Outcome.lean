import ImageAssembly.Image.Layout
import ImageAssembly.Proofs.Build.Requirements
import ImageAssembly.Proofs.Build.Steps
import ImageAssembly.Proofs.ConfigFile.Timestamps
import ImageAssembly.Proofs.Layer.Learning
import ImageAssembly.Time.SourceDate

/-! What comes of a build. It succeeds just if a list of requirements holds, and otherwise reports the first
of them that does not. The document is written and read again on the way, which asks of the timestamps that
they stand in years of four digits. -/

namespace ImageAssembly.Build

open Workspace Requirement
open ImageAssembly.Configuration (workingCopy_eq_ok)

/-! ### Images to build on -/

/-- The images that can be had: the empty one, those of layouts, and what operations make of them. -/
inductive Obtained : Image → Prop
  | empty : Obtained .empty
  | load {root : String} {w w' : Workspace} {i : Image} (h : (Layout.load root).perform w = (.ok i, w')) :
    Obtained i
  | withMediaType {i : Image} (hi : Obtained i) (m : MediaType) : Obtained (i.withMediaType m)
  | withConfigMediaType {i : Image} (hi : Obtained i) (m : MediaType) : Obtained (i.withConfigMediaType m)
  | withAnnotations {i : Image} (hi : Obtained i) (annotations : Dictionary String) :
    Obtained (i.withAnnotations annotations)
  | append {w w' : Workspace} {i j : Image} {addenda : List Addendum} (hi : Obtained i)
    (h : (i.append addenda).perform w = (.ok j, w')) : Obtained j
  | withConfigFile {i j : Image} {c : ConfigFile} (hi : Obtained i) (h : i.withConfigFile c = .ok j) :
    Obtained j
  | build {w w' : Workspace} {i j : Image} {layers : List Layer} {description : Configuration}
    {created : Time.Instant} {arch : Architecture} (hi : Obtained i)
    (h : (build i layers description created arch).perform w = (.ok j, w')) : Obtained j

/-- Whether an image has a layer for each descriptor. -/
def Paired (i : Image) : Prop := i.manifest.layers.length = i.layers.length

theorem paired_append {i j : Image} {addenda : List Addendum} {w w' : Workspace} (hi : Paired i)
    (h : (i.append addenda).perform w = (.ok j, w')) : Paired j := by
  obtain ⟨c, summaries, -, hs, rfl⟩ := Image.append_ok h
  have hn := Image.length_of_summarizeAll hs
  rw [List.length_map] at hn
  rw [Paired, Image.manifestLayers_extend, Image.layers_extend, List.length_append, List.length_append, hi,
    List.length_map, List.length_map, hn]

theorem paired_withConfigFile {i j : Image} {c : ConfigFile} (hi : Paired i) (h : i.withConfigFile c = .ok j) :
    Paired j := by
  obtain ⟨-, rfl⟩ := Image.withConfigFile_eq_ok.1 h
  rwa [Paired, Image.manifestLayers_storeConfig, Image.layers_storeConfig]

theorem length_of_layersOf {root : String} {ds : List Descriptor} {ls : List Layer} {w w' : Workspace}
    (h : (Layout.layersOf root ds).perform w = (.ok ls, w')) : ls.length = ds.length := by
  induction ds generalizing w ls with
  | nil =>
    simp only [Layout.layersOf, Action.perform_pure, Prod.mk.injEq, Except.ok.injEq] at h
    rw [← h.1]
    rfl
  | cons d ds ih =>
    rw [Layout.layersOf] at h
    obtain ⟨w1, w2, -, h⟩ := Action.perform_bind_ok h
    dsimp only at h
    split_ifs at h
    · obtain ⟨u, w3, hthrow, -⟩ := Action.perform_bind_ok h
      simp at hthrow
    · obtain ⟨layer, w3, -, h⟩ := Action.perform_bind_ok h
      obtain ⟨rest, w4, hrest, h⟩ := Action.perform_bind_ok h
      simp only [Action.perform_pure, Prod.mk.injEq, Except.ok.injEq] at h
      obtain ⟨rfl, rfl⟩ := h
      rw [List.length_cons, ih hrest, List.length_cons]

/-- Every image that can be had has a layer for each descriptor. -/
theorem Obtained.paired {i : Image} (h : Obtained i) : Paired i := by
  induction h with
  | empty => rfl
  | load h =>
    obtain ⟨⟨manifest, rawConfig⟩, w1, -, h⟩ := Action.perform_bind_ok h
    obtain ⟨layers, w2, h2, h⟩ := Action.perform_bind_ok h
    simp only [Action.perform_pure, Prod.mk.injEq, Except.ok.injEq] at h
    rw [← h.1]
    exact (length_of_layersOf h2).symm
  | withMediaType _ m ih => exact ih
  | withConfigMediaType _ m ih => exact ih
  | withAnnotations _ annotations ih => exact ih
  | append _ h ih => exact paired_append ih h
  | withConfigFile _ h ih => exact paired_withConfigFile ih h
  | @build w w' i j _ _ created _ _ h ih =>
    obtain ⟨c, w1, mid, old, config, -, -, happend, -, -, hcommit⟩ := build_ok h
    have htyped : Paired (typed i) := ih
    have hmid : Paired mid := paired_append htyped happend
    have hannotated : Paired (mid.withAnnotations (Provenance.annotations c created)) := hmid
    exact paired_withConfigFile hannotated hcommit

/-! ### What a build requires -/

/-- What a build requires of a layer. -/
def layerRequirements (w : Workspace) (l : Layer) : List Requirement :=
  [⟨.layerDigest, l.TellsDigest w⟩, ⟨.layerDiffId, l.TellsDiffId w⟩]

/-- Whether layers can be put on an image: its document can be read, is one of stacked layers, and lists as
many as the manifest. -/
def Appendable (i : Image) : Prop :=
  ∃ c, ConfigFile.ofBytes i.rawConfig = .ok c ∧ c.rootfs.type = RootFs.layersType ∧
    c.rootfs.diffIds.length = i.manifest.layers.length

/-- Whether all timestamps of a built document stand in years of four digits: those of the base's document,
and the one that the records of new layers bear. -/
def PlainYears (base : Image) (layers : List Layer) (created : Time.Instant) : Prop :=
  (∀ c, ConfigFile.ofBytes base.rawConfig = .ok c → c.HasPlainYears) ∧ (layers ≠ [] → created.HasPlainYear)

/-- What a build requires of the command lines. -/
def commandRequirements (description : Configuration) : List Requirement :=
  [⟨.entrypointParse, description.entrypoint.shellFragment = "" → description.entrypoint.command ≠ "" →
      (ShellWords.split? description.entrypoint.command).isSome⟩,
    ⟨.cmdParse, description.cmd ≠ "" → (ShellWords.split? description.cmd).isSome⟩]

/-- What a build requires, in the order in which it is asked for. -/
def requirements (w : Workspace) (base : Image) (layers : List Layer) (description : Configuration)
    (created : Time.Instant) : List Requirement :=
  ⟨.configMerge, description.validate = .ok ()⟩ :: (layers.flatMap (layerRequirements w) ++
    ⟨.layerAppend, Appendable base⟩ :: ⟨.configFile, PlainYears base layers created⟩ ::
    commandRequirements description)

theorem kind_ne_configCommit {w : Workspace} {base : Image} {layers : List Layer} {description : Configuration}
    {created : Time.Instant} {r : Requirement} (h : r ∈ requirements w base layers description created) :
    r.kind ≠ .configCommit := by
  simp only [requirements, layerRequirements, commandRequirements, List.mem_cons, List.mem_append,
    List.mem_flatMap, List.not_mem_nil, or_false] at h
  rcases h with rfl | ⟨l, -, rfl | rfl⟩ | rfl | rfl | rfl | rfl <;> simp

/-! ### The parts of a build -/

variable {w : Workspace} {base : Image} {layers : List Layer} {description : Configuration}
  {created : Time.Instant} {arch : Architecture}

theorem settles_digest (l : Layer) (w : Workspace) :
    Settles [⟨.layerDigest, l.TellsDigest w⟩] (verdict Layer.Fault.kind (l.digest.perform w).1) := by
  refine .single (fun ⟨d, hd⟩ => ?_) fun hn => ?_
  · rw [hd]
    rfl
  · cases h : (l.digest.perform w).1 with
    | ok d => exact absurd ⟨d, h⟩ hn
    | error fault => rw [verdict, Layer.kind_of_digest_error h]

theorem settles_diffId (l : Layer) (w : Workspace) :
    Settles [⟨.layerDiffId, l.TellsDiffId w⟩] (verdict Layer.Fault.kind (l.diffId.perform w).1) := by
  refine .single (fun ⟨d, hd⟩ => ?_) fun hn => ?_
  · rw [hd]
    rfl
  · cases h : (l.diffId.perform w).1 with
    | ok d => exact absurd ⟨d, h⟩ hn
    | error fault => rw [verdict, Layer.kind_of_diffId_error h]

/-- Asking layers in turn. What the first ones are asked makes no difference to the last ones. -/
theorem settles_checkLayers {w' : Workspace} {ls : List Layer} (own : OwnMemos layers)
    (hls : ∀ l ∈ ls, l ∈ layers) (hw : Learns layers w w') :
    Settles (ls.flatMap (layerRequirements w)) (verdict Layer.Fault.kind ((checkLayers ls).perform w').1) := by
  induction ls generalizing w' with
  | nil => exact .none
  | cons l ls ih =>
    have hl := hls l (by simp)
    rw [List.flatMap_cons]
    have hdigest := settles_digest l w'
    rw [Layer.tellsDigest_congr hw hl] at hdigest
    refine hdigest.bind_cons fun d w1 h1 => ?_
    have hw1 := hw.trans ((Layer.asks_learns hl own).digest.of_perform h1)
    have hdiffId := settles_diffId l w1
    rw [Layer.tellsDiffId_congr hw1 hl] at hdiffId
    refine hdiffId.bind_cons fun d' w2 h2 => ?_
    exact ih (fun k hk => hls k (by simp [hk])) (hw1.trans ((Layer.asks_learns hl own).diffId.of_perform h2))

theorem appendable_iff {i : Image} : Appendable i ↔ ∃ c, i.appendable = .ok c :=
  exists_congr fun _ => Image.appendable_eq_ok.symm

theorem isKept_extendedConfig {c : ConfigFile} (hc : c.IsKept) (summaries : List Image.LayerSummary) :
    (Image.extendedConfig c (addendaOf layers created) summaries).IsKept where
  extra := hc.extra
  config := hc.config
  history h hh := by
    rw [Image.extendedConfig, List.mem_append, addendaOf, List.map_map, List.mem_map] at hh
    rcases hh with hh | ⟨l, -, rfl⟩
    · exact hc.history h hh
    · exact .empty _ _

theorem hasPlainYears_extendedConfig_iff {c : ConfigFile} (summaries : List Image.LayerSummary) :
    (Image.extendedConfig c (addendaOf layers created) summaries).HasPlainYears ↔
      c.HasPlainYears ∧ (layers ≠ [] → created.HasPlainYear) := by
  have hrecords : (∀ h ∈ (addendaOf layers created).map (·.history), ∀ t ∈ h.created, t.HasPlainYear) ↔
      (layers ≠ [] → created.HasPlainYear) := by
    rw [addendaOf, List.map_map]
    cases layers with
    | nil => simp
    | cons l ls => simp +contextual [historyOf]
  constructor
  · intro h
    obtain ⟨hold, hnew⟩ := List.forall_mem_append.1 h.history
    exact ⟨⟨h.created, hold⟩, hrecords.1 hnew⟩
  · rintro ⟨h, hnew⟩
    exact ⟨h.created, List.forall_mem_append.2 ⟨h.history, hrecords.2 hnew⟩⟩

/-- The document is read again just if the years are plain. -/
theorem plainYears_iff {c : ConfigFile} (hc : ConfigFile.ofBytes base.rawConfig = .ok c)
    (summaries : List Image.LayerSummary) : PlainYears base layers created ↔
      ∃ c', ConfigFile.ofBytes (Image.extendedConfig c (addendaOf layers created) summaries).toBytes = .ok c' := by
  have hk := @isKept_extendedConfig layers created c (ConfigFile.isKept_of_ofBytes hc) summaries
  rw [ConfigFile.exists_ofBytes_toBytes_iff hk, hasPlainYears_extendedConfig_iff, PlainYears, hc]
  simp

theorem settles_entrypointWords (old : List String) (e : Entrypoint) :
    Settles [⟨.entrypointParse, e.shellFragment = "" → e.command ≠ "" → (ShellWords.split? e.command).isSome⟩]
      (verdict Fault.kind (entrypointWords old e)) := by
  rw [entrypointWords]
  refine .single (fun h => ?_) fun h => ?_
  · split_ifs with hf hc
    · rfl
    · obtain ⟨words, hw⟩ := Option.isSome_iff_exists.1 (h (not_not.1 hf) hc)
      rw [hw]
      rfl
    · rfl
  · simp only [Classical.not_imp, Option.not_isSome_iff_eq_none] at h
    obtain ⟨hf, hc, hw⟩ := h
    rw [if_neg (not_not.2 hf), if_pos hc, hw]
    rfl

theorem settles_cmdWords (old : List String) (cmd : String) :
    Settles [⟨.cmdParse, cmd ≠ "" → (ShellWords.split? cmd).isSome⟩] (verdict Fault.kind (cmdWords old cmd)) := by
  rw [cmdWords]
  refine .single (fun h => ?_) fun h => ?_
  · split_ifs with hc
    · rfl
    · obtain ⟨words, hw⟩ := Option.isSome_iff_exists.1 (h hc)
      rw [hw]
      rfl
  · simp only [Classical.not_imp, Option.not_isSome_iff_eq_none] at h
    rw [if_neg h.1, h.2]
    rfl

theorem settles_configure (old : ConfigFile) {c : Configuration} (labels : Dictionary String)
    (created : Time.Instant) (arch : Architecture) (hc : description.workingCopy = .ok c) :
    Settles (commandRequirements description) (verdict Fault.kind (configure old c labels created arch)) := by
  obtain ⟨-, rfl⟩ := workingCopy_eq_ok.1 hc
  rw [configure, configureContainer, entrypoint_overlay, cmd_overlay]
  refine Settles.bindExcept_ok (.bindExcept (settles_entrypointWords _ _) fun words _ => ?_) fun config _ => ⟨_, rfl⟩
  exact (settles_cmdWords _ _).bindExcept_ok fun cmd _ => ⟨_, rfl⟩

/-- Reading the document that has been written of the layered image. -/
theorem settles_configFile {c : ConfigFile} {i : Image} (hc : ConfigFile.ofBytes base.rawConfig = .ok c)
    {summaries : List Image.LayerSummary}
    (hi : i.rawConfig = (Image.extendedConfig c (addendaOf layers created) summaries).toBytes) :
    Settles [⟨.configFile, PlainYears base layers created⟩]
      (verdict Fault.kind (i.configFile.mapError Fault.config)) := by
  have hread := @plainYears_iff base layers created c hc summaries
  rw [← hi] at hread
  rw [Image.configFile]
  refine .single (fun h => ?_) fun h => ?_
  · obtain ⟨c', hc'⟩ := hread.1 h
    rw [hc']
    rfl
  · cases hr : ConfigFile.ofBytes i.rawConfig with
    | ok c' => exact absurd (hread.2 ⟨c', hr⟩) h
    | error fault => rfl

theorem settles_append {addenda : List Addendum} (hknown : ∀ a ∈ addenda, a.layer.Known w) :
    Settles [⟨.layerAppend, Appendable base⟩]
      (verdict Fault.kind ((((typed base).append addenda).mapFault Fault.append).perform w).1) := by
  refine .mapFault (.single (fun h => ?_) fun h => ?_)
  · obtain ⟨c, hc⟩ := appendable_iff.1 h
    obtain ⟨ss, hss⟩ := Image.exists_append (i := typed base) hc hknown
    rw [hss]
    rfl
  · rw [Image.append, Action.perform_bind, Action.perform_ofExcept]
    cases hc : (typed base).appendable with
    | ok c => exact absurd (appendable_iff.2 ⟨c, hc⟩) h
    | error fault => rfl

theorem settles_workingCopy (description : Configuration) :
    Settles [⟨.configMerge, description.validate = .ok ()⟩]
      (verdict Fault.kind (description.workingCopy.mapError Fault.merge)) := by
  rw [Configuration.workingCopy, Configuration.mergeInto]
  refine .single (fun h => ?_) fun h => ?_
  · rw [h]
    rfl
  · cases hv : description.validate with
    | ok u => exact absurd hv h
    | error fault => rfl

/-- The image after its layers have been put on: its document lists as many as it has. -/
theorem layered_ok {mid : Image} {w' : Workspace} (hbase : Paired base)
    (h : ((typed base).append (addendaOf layers created)).perform w = (.ok mid, w')) :
    ∃ c summaries, ConfigFile.ofBytes base.rawConfig = .ok c ∧
      mid.rawConfig = (Image.extendedConfig c (addendaOf layers created) summaries).toBytes ∧
      (Image.extendedConfig c (addendaOf layers created) summaries).rootfs.diffIds.length = mid.layers.length := by
  obtain ⟨c, summaries, hold, hsummaries, rfl⟩ := Image.append_ok h
  obtain ⟨hread, -, hcount⟩ := Image.appendable_eq_ok.1 hold
  have hn := Image.length_of_summarizeAll hsummaries
  have hbase' : (typed base).manifest.layers.length = (typed base).layers.length := hbase
  refine ⟨c, summaries, hread, Image.rawConfig_extend _ _ _ _, ?_⟩
  rw [Image.layers_extend, Image.extendedConfig, List.length_append, List.length_append, hcount, hbase',
    List.length_map, hn]

theorem exists_commit {i : Image} {c : ConfigFile} (hn : c.rootfs.diffIds.length = i.layers.length)
    (w : Workspace) : ∃ j, ((Action.ofExcept ((i.withConfigFile c).mapError Fault.commit)).perform w).1 = .ok j :=
  ⟨i.storeConfig c, mapError_eq_ok.2 (Image.withConfigFile_eq_ok.2 ⟨hn, rfl⟩)⟩

/-- A build settles what it requires. -/
theorem settles_build (hbase : Paired base) (hlayers : w.Opened layers) :
    Settles (requirements w base layers description created)
      (verdict Fault.kind ((build base layers description created arch).perform w).1) := by
  refine (settles_workingCopy description).ofExcept.bind_cons fun c w0 h0 => ?_
  simp only [Action.perform_ofExcept, Prod.mk.injEq, mapError_eq_ok] at h0
  obtain ⟨hc, rfl⟩ := h0
  have hcheck := settles_checkLayers hlayers.own (fun _ h => h) (.refl layers w)
  have haddenda : Settles (layers.flatMap (layerRequirements w))
      (verdict Layer.Fault.kind ((addenda layers created).perform w).1) :=
    hcheck.bind_ok fun _ _ _ => ⟨_, rfl⟩
  refine (Settles.mapFault haddenda).bind fun as w1 h1 => ?_
  obtain ⟨hchecked, rfl⟩ := addenda_ok (Action.perform_mapFault_ok.1 h1)
  have hknown := known_of_checkLayers hchecked hlayers.held
  refine (settles_append ?_).bind_cons fun mid w2 h2 => ?_
  · rw [← List.forall_mem_map, map_layer_addendaOf]
    exact hknown
  obtain ⟨c', summaries, hread, hraw, hn⟩ := layered_ok hbase (Action.perform_mapFault_ok.1 h2)
  have hannotated : (mid.withAnnotations (Provenance.annotations c created)).rawConfig =
      (Image.extendedConfig c' (addendaOf layers created) summaries).toBytes := hraw
  refine (settles_configFile hread hannotated).ofExcept.bind_cons fun old w3 h3 => ?_
  simp only [Action.perform_ofExcept, Prod.mk.injEq, Image.configFile, mapError_eq_ok, hannotated] at h3
  refine (settles_configure old _ created arch hc).ofExcept.bind_ok fun config w4 h4 => exists_commit ?_ w4
  simp only [Action.perform_ofExcept, Prod.mk.injEq] at h4
  -- the document lists a diff id for each layer, old and new, so that it is accepted
  rw [rootfs_configure h4.1, ConfigFile.rootfs_of_ofBytes_toBytes h3.1, hn]
  rfl

/-- A build on an image that can be had succeeds just if all that it requires holds. Otherwise it reports the
first requirement that does not hold, which is never that the document lists other layers. -/
theorem build_outcome (base : Image) (layers : List Layer) (description : Configuration)
    (created : Time.Instant) (arch : Architecture) (w : Workspace) (hbase : Obtained base)
    (hlayers : w.Opened layers) :
    ((∃ j, ((build base layers description created arch).perform w).1 = .ok j) ↔
      ∀ r ∈ requirements w base layers description created, r.holds) ∧
    ∀ fault, ((build base layers description created arch).perform w).1 = .error fault →
      fault.kind ≠ .configCommit ∧
      ∃ before r after, requirements w base layers description created = before ++ r :: after ∧
        (∀ q ∈ before, q.holds) ∧ ¬ r.holds ∧ r.kind = fault.kind := by
  have hsettles := @settles_build w base layers description created arch hbase.paired hlayers
  refine ⟨?_, fun fault hfault => ?_⟩
  · rw [← hsettles.eq_ok_iff]
    cases ((build base layers description created arch).perform w).1 <;> simp [verdict]
  · rw [hfault] at hsettles
    obtain ⟨before, r, after, hreq, hbefore, hr, hkind⟩ := hsettles.first_unmet
    refine ⟨?_, before, r, after, hreq, hbefore, hr, hkind⟩
    have hmem : r ∈ requirements w base layers description created := by
      rw [hreq]
      simp
    rw [← hkind]
    exact kind_ne_configCommit hmem

/-! ### The documents of a build -/

/-- The documents that a build goes through: the base's, the one with the records of the new layers, which is read
again, and the one that is written of the description over what was read. -/
theorem documents_of_build {j : Image} {w' : Workspace}
    (h : (build base layers description created arch).perform w = (.ok j, w')) :
    ∃ b summaries old c document, ConfigFile.ofBytes base.rawConfig = .ok b ∧
      ConfigFile.ofBytes (Image.extendedConfig b (addendaOf layers created) summaries).toBytes = .ok old ∧
      configure old c (Provenance.annotations c created) created arch = .ok document ∧
      j.rawConfig = document.toBytes := by
  obtain ⟨c, w1, mid, old, document, -, -, happend, hold, hdocument, hcommit⟩ := build_ok h
  obtain ⟨b, summaries, happendable, -, rfl⟩ := Image.append_ok happend
  obtain ⟨hread, -, -⟩ := Image.appendable_eq_ok.1 happendable
  obtain ⟨-, rfl⟩ := Image.withConfigFile_eq_ok.1 hcommit
  rw [Image.rawConfig_extend] at hold
  exact ⟨b, summaries, old, c, document, hread, hold, hdocument, Image.rawConfig_storeConfig _ _⟩

theorem hasPlainYear_of_build {j : Image} {w' : Workspace} (hlayers : layers ≠ [])
    (h : (build base layers description created arch).perform w = (.ok j, w')) : created.HasPlainYear := by
  obtain ⟨b, summaries, old, -, -, hread, hold, -, -⟩ := documents_of_build h
  have hyears := (ConfigFile.exists_ofBytes_toBytes_iff
    (isKept_extendedConfig (ConfigFile.isKept_of_ofBytes hread) summaries)).1 ⟨old, hold⟩
  exact ((hasPlainYears_extendedConfig_iff summaries).1 hyears).2 hlayers

/-- The document of a built image can be read if the time of the build can, and has the instant that is named by that
time in itself and in the records of the new layers. -/
theorem timestamps_of_build {j : Image} {w' : Workspace} (hyear : created.HasPlainYear)
    (h : (build base layers description created arch).perform w = (.ok j, w')) :
    ∃ b c, base.configFile = .ok b ∧ j.configFile = .ok c ∧ c.created = some created.settled ∧
      c.history.map (·.created) =
        b.history.map (·.created) ++ List.replicate layers.length (some created.settled) := by
  obtain ⟨b, summaries, old, copy, document, hread, hold, hdocument, hraw⟩ := documents_of_build h
  have hkept := @isKept_extendedConfig layers created b (ConfigFile.isKept_of_ofBytes hread) summaries
  obtain ⟨-, hlayered⟩ := ConfigFile.timestamps_of_ofBytes_toBytes hkept hold
  have hyears := hasPlainYears_configure (ConfigFile.hasPlainYears_of_ofBytes_toBytes hkept hold) hyear hdocument
  have hkept' := isKept_configure (ConfigFile.isKept_of_ofBytes hold) hdocument
  obtain ⟨c, hc⟩ := (ConfigFile.exists_ofBytes_toBytes_iff hkept').2 hyears
  obtain ⟨hcreated, hhistory⟩ := ConfigFile.timestamps_of_ofBytes_toBytes hkept' hc
  obtain ⟨config, -, rfl⟩ := configure_ok hdocument
  refine ⟨b, c, mapError_eq_ok.2 hread, ?_, hcreated, ?_⟩
  · apply mapError_eq_ok.2
    rwa [hraw]
  · have hbase := (ConfigFile.hasProperTimes_of_ofBytes hread).map_created
    have hadded : ((addendaOf layers created).map (·.history)).map (·.created.map Time.Instant.settled) =
        List.replicate layers.length (some created.settled) := by
      rw [addendaOf, List.map_map, List.map_map]
      exact List.map_const'
    rw [hhistory, (ConfigFile.hasProperTimes_of_ofBytes hold).map_created, hlayered, Image.extendedConfig,
      List.map_append, hbase, hadded]

/-- The document of an image that has been built with new layers can be read. -/
theorem exists_configFile_of_build {j : Image} {w' : Workspace} (hlayers : layers ≠ [])
    (h : (build base layers description created arch).perform w = (.ok j, w')) :
    ∃ c, ConfigFile.ofBytes j.rawConfig = .ok c := by
  obtain ⟨b, c, -, hc, -⟩ := timestamps_of_build (hasPlainYear_of_build hlayers h) h
  exact ⟨c, mapError_eq_ok.1 hc⟩

/-! ### Builds that succeed -/

theorem opened_memory (w : Workspace) (ms : List MemoryLayer) : w.Opened (ms.map .memory) where
  held := by simp [Workspace.Holds]
  own := by simp [OwnMemos]

/-- Putting layers on an image, with no commands described, requires only that it takes layers, that these tell their
digests, and plain years. -/
theorem requirements_commandless {r : Requirement} (h : r ∈ requirements w base layers description created)
    (hvalid : description.validate = .ok ()) (hentrypoint : description.entrypoint = {}) (hcmd : description.cmd = "")
    (hbase : Appendable base) (hlayers : ∀ l ∈ layers, l.TellsDigest w ∧ l.TellsDiffId w) :
    r.holds ∨ r = ⟨.configFile, PlainYears base layers created⟩ := by
  simp only [requirements, layerRequirements, commandRequirements, List.mem_cons, List.mem_append,
    List.mem_flatMap, List.not_mem_nil, or_false] at h
  rcases h with rfl | ⟨l, hl, rfl | rfl⟩ | rfl | rfl | rfl | rfl
  · exact .inl hvalid
  · exact .inl (hlayers l hl).1
  · exact .inl (hlayers l hl).2
  · exact .inl hbase
  · exact .inr rfl
  · exact .inl (by simp [hentrypoint])
  · exact .inl (by simp [hcmd])

theorem requirements_empty {r : Requirement} (h : r ∈ requirements w .empty layers {} created)
    (hlayers : ∀ l ∈ layers, l.TellsDigest w ∧ l.TellsDiffId w) :
    r.holds ∨ r = ⟨.configFile, PlainYears .empty layers created⟩ :=
  requirements_commandless h rfl rfl rfl (appendable_iff.2 ⟨_, Image.appendable_empty⟩) hlayers

theorem tells_memory (ms : List MemoryLayer) : ∀ l ∈ ms.map Layer.memory, l.TellsDigest w ∧ l.TellsDiffId w := by
  rw [List.forall_mem_map]
  exact fun m _ => ⟨⟨_, rfl⟩, ⟨_, rfl⟩⟩

/-- Two layers in memory. -/
def twoLayers : List Layer := [.ofTar ⟨#[1]⟩, .ofTar ⟨#[2, 3]⟩].map .memory

theorem twoLayers_ne_nil : twoLayers ≠ [] := by simp [twoLayers]

theorem opened_twoLayers (w : Workspace) : w.Opened twoLayers := opened_memory w _

theorem tells_twoLayers : ∀ l ∈ twoLayers, l.TellsDigest w ∧ l.TellsDiffId w := tells_memory _

theorem plainYears_empty_iff (hlayers : layers ≠ []) : PlainYears .empty layers created ↔ created.HasPlainYear := by
  rw [PlainYears, Image.ofBytes_rawConfig_empty]
  constructor
  · exact fun h => h.2 hlayers
  · rintro h
    refine ⟨?_, fun _ => h⟩
    rintro c ⟨⟩
    exact ⟨by simp, by simp⟩

/-- Layers that tell their digests are put on every image that takes layers. -/
theorem exists_build_commandless (hvalid : description.validate = .ok ()) (hentrypoint : description.entrypoint = {})
    (hcmd : description.cmd = "") (hbase : Paired base) (happendable : Appendable base) (hopened : w.Opened layers)
    (htells : ∀ l ∈ layers, l.TellsDigest w ∧ l.TellsDiffId w) (hyears : PlainYears base layers created)
    (arch : Architecture) : ∃ j w', (build base layers description created arch).perform w = (.ok j, w') := by
  have hok := (@settles_build w base layers description created arch hbase hopened).eq_ok_iff.2 fun r hr =>
    (requirements_commandless hr hvalid hentrypoint hcmd happendable htells).elim id fun h => h ▸ hyears
  rcases hbuild : (build base layers description created arch).perform w with ⟨fault | j, w'⟩
  · rw [hbuild] at hok
    cases hok
  · exact ⟨j, w', rfl⟩

theorem exists_build_undescribed (hbase : Paired base) (happendable : Appendable base) (hopened : w.Opened layers)
    (htells : ∀ l ∈ layers, l.TellsDigest w ∧ l.TellsDiffId w) (hyears : PlainYears base layers created)
    (arch : Architecture) : ∃ j w', (build base layers {} created arch).perform w = (.ok j, w') :=
  exists_build_commandless rfl rfl rfl hbase happendable hopened htells hyears arch

theorem exists_build_empty (hopened : w.Opened layers) (htells : ∀ l ∈ layers, l.TellsDigest w ∧ l.TellsDiffId w)
    (hyears : PlainYears .empty layers created) (arch : Architecture) :
    ∃ j w', (build .empty layers {} created arch).perform w = (.ok j, w') := by
  have hpaired : Paired .empty := rfl
  exact exists_build_undescribed hpaired (appendable_iff.2 ⟨_, Image.appendable_empty⟩) hopened htells hyears arch

/-- Two layers put on the empty image at the beginning of 1970. -/
theorem build_outcome_two_layers : Obtained .empty ∧ Workspace.empty.Opened twoLayers ∧
    ∃ j, ((build .empty twoLayers {} .epoch ⟨"amd64", ""⟩).perform .empty).1 = .ok j := by
  have hopened := opened_twoLayers .empty
  refine ⟨.empty, hopened, (build_outcome _ _ _ _ _ _ .empty hopened).1.2 fun r hr => ?_⟩
  rcases requirements_empty hr tells_twoLayers with h | rfl
  · exact h
  · exact (plainYears_empty_iff twoLayers_ne_nil).2 (by decide)

/-- The first second of the year 10000 is accepted as the time of a build. A layer put on the empty image at
that time meets every other requirement, but the document that is written cannot be read. -/
theorem build_refused_in_year_10000 : ∃ created, Time.SourceDate.read (some "253402300800") = .ok created ∧
    (∀ r ∈ requirements .empty .empty [.memory (.ofTar .empty)] {} created, r.kind ≠ .configFile → r.holds) ∧
    ∃ fault, ((build .empty [.memory (.ofTar .empty)] {} created ⟨"amd64", ""⟩).perform .empty).1 =
      .error fault ∧ fault.kind = .configFile := by
  have hread : Time.SourceDate.read (some "253402300800") = .ok (Time.Instant.ofSeconds 253402300800) := rfl
  have hyear : ¬ (Time.Instant.ofSeconds 253402300800).HasPlainYear := by decide
  generalize Time.Instant.ofSeconds 253402300800 = created at hread hyear
  refine ⟨created, hread, fun r hr hkind => (requirements_empty hr (tells_memory [_])).resolve_right ?_, ?_⟩
  · rintro rfl
    exact hkind rfl
  have hsettles := @settles_build .empty .empty [.memory (.ofTar .empty)] {} created ⟨"amd64", ""⟩ rfl
    (opened_memory _ [_])
  cases hresult : ((build .empty [.memory (.ofTar .empty)] {} created ⟨"amd64", ""⟩).perform .empty).1 with
  | ok j =>
    rw [hresult] at hsettles
    have hall := hsettles.eq_ok_iff.1 rfl
    have hyears := hall ⟨.configFile, PlainYears .empty [.memory (.ofTar .empty)] created⟩
      (by simp [requirements])
    exact absurd ((plainYears_empty_iff (by simp)).1 hyears) hyear
  | error fault =>
    rw [hresult] at hsettles
    obtain ⟨before, r, after, hreq, -, hr, hkind⟩ := hsettles.first_unmet
    have hmem : r ∈ requirements .empty .empty [.memory (.ofTar .empty)] {} created := by
      rw [hreq]
      simp
    obtain rfl := (requirements_empty hmem (tells_memory [_])).resolve_left hr
    exact ⟨fault, rfl, hkind.symm⟩

end ImageAssembly.Build
