import ImageAssembly.Proofs.Build.Overriding
import ImageAssembly.Proofs.CommandLine.Reordering

/-! What the command line overrides. The last pair of a key wins over the description in the file, which wins over the
defaults; the time of the build and the source that the file names win over all. Whatever else an image's document
says is as the file alone would have it. A pair that is none, or that has no key, ends the command at once. -/

namespace ImageAssembly

open ImageAssembly.Configuration (withMaps)
open Build (Renders defaultValue? renderEnvironment)
open Provenance (Annotates)

namespace CommandLine

variable {r : BuildRequest} {arguments : List String} {epoch : Option String} {w w' : Workspace}

/-! ### Pairs -/

theorem splitPair_eq_ok {argument key value : String} : splitPair argument = .ok (key, value) ↔
    argument = key ++ "=" ++ value ∧ '=' ∉ key.toList := by
  rw [splitPair]
  constructor
  · intro h
    cases hcut : Text.cutFirst '=' argument.toList with
    | none => simp [hcut] at h
    | some parts =>
      obtain ⟨before, behind⟩ := parts
      simp only [hcut, Except.ok.injEq, Prod.mk.injEq] at h
      obtain ⟨rfl, rfl⟩ := h
      obtain ⟨htext, hkey⟩ := Text.cutFirst_eq_some hcut
      refine ⟨?_, by simpa using hkey⟩
      rw [← String.toList_inj, htext, Build.toList_entry]
      simp
  · rintro ⟨rfl, hkey⟩
    rw [Build.toList_entry, Text.cutFirst_append _ hkey]
    simp

/-- The value that one argument gives a key. -/
def ownValue? (key argument : String) : Option String :=
  (splitPair argument).toOption.bind fun pair => if key = pair.1 then some pair.2 else none

theorem ownValue?_eq_some {key argument value : String} : ownValue? key argument = some value ↔
    argument = key ++ "=" ++ value ∧ '=' ∉ key.toList := by
  rw [ownValue?, ← splitPair_eq_ok]
  cases splitPair argument with
  | error failure => simp [Except.toOption]
  | ok pair =>
    obtain ⟨key', value'⟩ := pair
    simp only [Except.toOption, Option.bind_some, Except.ok.injEq, Prod.mk.injEq]
    split_ifs with hkey
    · simp [hkey]
    · simp [Ne.symm hkey]

theorem lastValue?_cons (key argument : String) (rest : List String) :
    lastValue? key (argument :: rest) = (lastValue? key rest).or (ownValue? key argument) := by
  rw [lastValue?, ownValue?]
  cases hpair : splitPair argument with
  | error failure =>
    rw [List.filterMap_cons_none (by rw [hpair]; rfl)]
    exact Option.or_none.symm
  | ok pair =>
    rw [List.filterMap_cons_some (by rw [hpair]; rfl), Dictionary.last?_cons]
    rfl

theorem lastValue?_eq_none {key : String} :
    lastValue? key arguments = none ↔ ∀ argument ∈ arguments, ownValue? key argument = none := by
  induction arguments with
  | nil => exact iff_of_true rfl (by simp)
  | cons argument rest ih => rw [lastValue?_cons, Option.or_eq_none_iff, ih, List.forall_mem_cons, and_comm]

/-- The value that stands last is the text behind the first equals sign of the last argument with the key. -/
theorem lastValue?_eq_some {key value : String} : lastValue? key arguments = some value ↔
    '=' ∉ key.toList ∧ ∃ before behind, arguments = before ++ (key ++ "=" ++ value) :: behind ∧
      ∀ argument ∈ behind, ∀ other, argument ≠ key ++ "=" ++ other := by
  have hnone {behind : List String} (hkey : '=' ∉ key.toList) : (lastValue? key behind = none ↔
      ∀ argument ∈ behind, ∀ other, argument ≠ key ++ "=" ++ other) := by
    rw [lastValue?_eq_none]
    refine forall₂_congr fun argument _ => ?_
    rw [Option.eq_none_iff_forall_ne_some]
    exact forall_congr' fun other => not_congr (ownValue?_eq_some.trans (and_iff_left hkey))
  induction arguments with
  | nil => simp [lastValue?, Dictionary.last?, Dictionary.lookup]
  | cons argument rest ih =>
    simp only [lastValue?_cons, Option.or_eq_some_iff, ih, ownValue?_eq_some]
    constructor
    · rintro (⟨hkey, before, behind, rfl, hbehind⟩ | ⟨hrest, rfl, hkey⟩)
      · exact ⟨hkey, argument :: before, behind, rfl, hbehind⟩
      · exact ⟨hkey, [], rest, rfl, (hnone hkey).1 hrest⟩
    · rintro ⟨hkey, _ | ⟨first, before⟩, behind, harguments, hbehind⟩
      · obtain ⟨rfl, rfl⟩ := List.cons_eq_cons.1 harguments
        exact .inr ⟨(hnone hkey).2 hbehind, rfl, hkey⟩
      · obtain ⟨rfl, rfl⟩ := List.cons_eq_cons.1 harguments
        exact .inl ⟨hkey, before, behind, rfl, hbehind⟩

/-- Arguments from which a map is read have keys, and the map has them. -/
theorem forall_of_readPairs {d : Dictionary String} (h : readPairs arguments = .ok d) :
    ∀ argument ∈ arguments, ∃ key value, splitPair argument = .ok (key, value) ∧ key ∈ d.keys := by
  obtain ⟨pairs, hpairs, rfl⟩ := map_eq_ok.1 h
  have hkeys : ∀ pair ∈ pairs, pair.1 ∈ (Dictionary.ofList pairs).keys := fun pair hpair =>
    Dictionary.mem_keys_insertAll.2 (.inr (List.mem_map_of_mem hpair))
  generalize (Dictionary.ofList pairs).keys = keys at hkeys
  clear h
  induction arguments generalizing pairs with
  | nil => simp
  | cons argument rest ih =>
    rw [List.mapM_cons] at hpairs
    obtain ⟨pair, hpair, hpairs⟩ := bind_eq_ok.1 hpairs
    obtain ⟨others, hrest, hpairs⟩ := bind_eq_ok.1 hpairs
    obtain rfl := Except.ok.inj hpairs
    rw [List.forall_mem_cons] at hkeys ⊢
    exact ⟨⟨pair.1, pair.2, hpair, hkeys.1⟩, ih others hrest hkeys.2⟩

/-! ### What is described -/

theorem leads_loadDescription (config : Option String) : (loadDescription config).Leads Eq := by
  cases config with
  | none => exact .pure _
  | some path => exact .mapFault ((Action.Leads.ofFiles _).bind fun _ => .ofExcept _) _

/-- To find out what is described changes nothing. -/
theorem leads_describe (r : BuildRequest) : (describe r).Leads Eq :=
  ((leads_loadDescription r.config).mapFault _).bind fun _ => (Action.Leads.ofExcept _).bind fun _ =>
    (Action.Leads.ofExcept _).bind fun _ => .ofExcept _

/-- What is described has the pairs laid over the variables and the annotations of the file. -/
theorem describe_ok {description : Configuration} (h : (describe r).perform w = (.ok description, w')) :
    ∃ lower environment annotations, (loadDescription r.config).perform w = (.ok lower, w) ∧
      readPairs r.env = .ok environment ∧ readPairs r.annotations = .ok annotations ∧
      ({ environment, annotations } : Configuration).Valid ∧
      description =
        lower.withMaps (lower.environment.overlay environment) (lower.annotations.overlay annotations) := by
  obtain ⟨lower, w1, hload, h⟩ := Action.perform_bind_ok h
  rw [Action.perform_mapFault_ok] at hload
  obtain rfl := (leads_loadDescription r.config).of_perform hload
  obtain ⟨environment, w2, henv, h⟩ := Action.perform_bind_ok h
  obtain ⟨annotations, w3, hannotations, h⟩ := Action.perform_bind_ok h
  have hmerged := mapError_eq_ok.1 (Prod.mk.inj h).1
  rw [Configuration.mergeInto] at hmerged
  cases hvalid : ({ environment, annotations } : Configuration).validate with
  | error fault => simp [hvalid] at hmerged
  | ok u =>
    rw [hvalid, Except.ok.injEq, Configuration.overlay_maps] at hmerged
    exact ⟨lower, environment, annotations, hload, (Prod.mk.inj henv).1, (Prod.mk.inj hannotations).1,
      Configuration.validate_eq_ok_iff.1 hvalid, hmerged.symm⟩

/-- Whether an argument is no pair, or a pair without a key. -/
def IsKeyless (argument : String) : Prop := '=' ∉ argument.toList ∨ argument.toList.head? = some '='

theorem not_isKeyless_of_pair {argument key value : String} (h : splitPair argument = .ok (key, value))
    (hkey : key ≠ "") : ¬IsKeyless argument := by
  obtain ⟨rfl, hequals⟩ := splitPair_eq_ok.1 h
  rw [IsKeyless, Build.toList_entry]
  rintro (hnone | hhead)
  · exact hnone (by simp)
  · cases hlist : key.toList with
    | nil => exact hkey (String.toList_eq_nil_iff.1 hlist)
    | cons c cs =>
      rw [hlist, List.cons_append, List.head?_cons, Option.some.injEq] at hhead
      rw [hlist, hhead] at hequals
      exact hequals (by simp)

/-- An argument without a key ends a build before anything is done. -/
theorem build_of_isKeyless {argument : String} (hmem : argument ∈ r.env ++ r.annotations) (h : IsKeyless argument)
    (epoch : Option String) (w : Workspace) : ∃ failure, (build r epoch).perform w = (.error failure, w) := by
  rcases hdescribe : (describe r).perform w with ⟨failure | description, w1⟩
  · obtain rfl := (leads_describe r).of_perform hdescribe
    exact ⟨failure, by rw [build, Action.perform_bind, hdescribe]⟩
  · obtain ⟨lower, environment, annotations, -, henv, hannotations, hvalid, -⟩ := describe_ok hdescribe
    refine absurd h ?_
    rcases List.mem_append.1 hmem with hmem | hmem
    · obtain ⟨key, value, hpair, hkey⟩ := forall_of_readPairs henv argument hmem
      exact not_isKeyless_of_pair hpair (hvalid.names key hkey).1
    · obtain ⟨key, value, hpair, hkey⟩ := forall_of_readPairs hannotations argument hmem
      exact not_isKeyless_of_pair hpair fun hempty => hvalid.annotations (hempty ▸ hkey)

/-! ### The image -/

theorem layers_ne_nil (h : read ("build" :: arguments) = .ok (.build r)) : r.layers ≠ [] := by
  obtain ⟨rest, hcomplete, rfl⟩ := readBuild_ok h
  rw [Given.complete] at hcomplete
  split at hcomplete
  · next hlayers _ _ =>
    obtain rfl := Except.ok.inj hcomplete
    rw [BuildRequest.withPairs, hlayers]
    simp
  · cases hcomplete

theorem length_of_openLayers {paths : List String} {layers : List Layer}
    (h : (openLayers paths).perform w = (.ok layers, w')) : layers.length = paths.length := by
  induction paths generalizing w w' layers with
  | nil =>
    obtain ⟨hlayers, -⟩ := Prod.mk.inj h
    rw [← Except.ok.inj hlayers]
    rfl
  | cons path paths ih =>
    obtain ⟨layer, w1, -, h⟩ := Action.perform_bind_ok h
    obtain ⟨rest, w2, hrest, h⟩ := Action.perform_bind_ok h
    obtain ⟨hlayers, -⟩ := Prod.mk.inj h
    rw [← Except.ok.inj hlayers, List.length_cons, ih hrest, List.length_cons]

/-- The image that a build makes of a description before anything is written. -/
def imageOf (r : BuildRequest) (description : Configuration) (epoch : Option String) : Action Error Image := do
  let arch ← Action.ofExcept ((Architecture.parse r.arch).mapError .architecture)
  let created ← Action.ofExcept ((Time.SourceDate.read epoch).mapError .sourceDate)
  let layers ← (openLayers r.layers).mapFault .layer
  let base ← loadBase r.base
  (Build.build base layers description created arch).mapFault .build

variable {description lower : Configuration} {j : Image} {text : String}

theorem imageOf_ok : (imageOf r description epoch).perform w = (.ok j, w') ↔
    ∃ arch created layers base w1 w2, Architecture.parse r.arch = .ok arch ∧
      Time.SourceDate.read epoch = .ok created ∧ (openLayers r.layers).perform w = (.ok layers, w1) ∧
      (loadBase r.base).perform w1 = (.ok base, w2) ∧
      (Build.build base layers description created arch).perform w2 = (.ok j, w') := by
  constructor
  · intro h
    obtain ⟨arch, w0, harch, hrest⟩ := Action.perform_bind_ok h
    obtain ⟨created, w1, hcreated, hrest⟩ := Action.perform_bind_ok hrest
    obtain ⟨layers, w2, hlayers, hrest⟩ := Action.perform_bind_ok hrest
    obtain ⟨base, w3, hbase, hbuild⟩ := Action.perform_bind_ok hrest
    simp only [Action.perform_ofExcept, Prod.mk.injEq, mapError_eq_ok] at harch hcreated
    obtain ⟨harch, rfl⟩ := harch
    obtain ⟨hcreated, rfl⟩ := hcreated
    exact ⟨arch, created, layers, base, w2, w3, harch, hcreated, Action.perform_mapFault_ok.1 hlayers, hbase,
      Action.perform_mapFault_ok.1 hbuild⟩
  · rintro ⟨arch, created, layers, base, w1, w2, harch, hcreated, hlayers, hbase, h⟩
    simp only [imageOf, Action.perform_bind, Action.perform_ofExcept, Action.perform_mapFault, Except.mapError, harch,
      hcreated, hlayers, hbase, h]

/-- A build that succeeds makes the image of what is described, and writes it. -/
theorem written_of_build (h : (build r epoch).perform w = (.ok text, w')) :
    ∃ description tag j w1, (describe r).perform w = (.ok description, w) ∧
      (imageOf r description epoch).perform w = (.ok j, w1) ∧
      (Export.writeFile r.output tag j).perform w1 = (.ok (), w') := by
  -- one layer on nothing is built like any other number of them
  have hconcurs := concur_buildBy r epoch w
  rw [h] at hconcurs
  have hgeneral : (buildBy produceGenerally r epoch).perform w = (.ok text, w') := by
    generalize (buildBy produceGenerally r epoch).perform w = x at hconcurs
    cases hconcurs
    rfl
  obtain ⟨description, w0, hdescribe, hrest⟩ := Action.perform_bind_ok hgeneral
  obtain rfl := (leads_describe r).of_perform hdescribe
  obtain ⟨_, w5, hproduce, hrest⟩ := Action.perform_bind_ok hrest
  obtain ⟨w6, w7, hget, hrest⟩ := Action.perform_bind_ok hrest
  obtain ⟨-, rfl⟩ := Prod.mk.inj hget
  obtain ⟨-, rfl⟩ := Prod.mk.inj hrest
  obtain ⟨arch, w1, harch, hproduce⟩ := Action.perform_bind_ok (Action.perform_mapFault_ok.1 hproduce)
  obtain ⟨created, w2, hcreated, hproduce⟩ := Action.perform_bind_ok hproduce
  obtain ⟨layers, w3, hlayers, hproduce⟩ := Action.perform_bind_ok hproduce
  obtain ⟨tag, w4, htag, hproduce⟩ := Action.perform_bind_ok hproduce
  obtain ⟨base, w8, hbase, hproduce⟩ := Action.perform_bind_ok hproduce
  obtain ⟨j, w9, hbuild, hwrite⟩ := Action.perform_bind_ok hproduce
  simp only [Action.perform_ofExcept, Prod.mk.injEq, mapError_eq_ok] at harch hcreated htag
  obtain ⟨harch, rfl⟩ := harch
  obtain ⟨hcreated, rfl⟩ := hcreated
  obtain ⟨htag, rfl⟩ := htag
  rw [Action.perform_mapFault_ok] at hlayers hbuild hwrite
  exact ⟨description, tag, j, w9, hdescribe,
    imageOf_ok.2 ⟨arch, created, layers, base, _, w8, harch, hcreated, hlayers, hbase, hbuild⟩, hwrite⟩

/-! ### The exported document -/

/-- Whether a file is an archive of an image of which a document is read: it begins with the document's text, under the
name that the manifest at its end gives. -/
def Exports (w : Workspace) (path : String) (c : ConfigFile) : Prop :=
  ∃ document more manifest tag names,
    w.files.read path = .ok (Archive.record (Digest.sha256 document).toText document ++ more ++
      Archive.record Export.manifestName manifest ++ Archive.ending) ∧
    Json.decodeBytes (Json.Tree.keep 0) manifest =
      .ok (Export.manifestRecord (Digest.sha256 document).toText tag names) ∧
    ConfigFile.ofBytes document = .ok c

theorem exports_of_writeFile {c : ConfigFile} {tag : Tag} {w1 : Workspace} {path : String}
    (h : (imageOf r description epoch).perform w = (.ok j, w1)) (hc : j.configFile = .ok c)
    (hwrite : (Export.writeFile path tag j).perform w1 = (.ok (), w')) : Exports w' path c := by
  obtain ⟨arch, created, layers, base, w2, w3, -, -, -, -, hbuild⟩ := imageOf_ok.1 h
  obtain ⟨more, names, hread⟩ := Export.ends_of_writeFile hwrite
  rw [Build.digest_of_build hbuild] at hread
  exact ⟨j.rawConfig, more, _, tag, names, hread, Export.decode_manifestValue _ tag names, mapError_eq_ok.1 hc⟩

/-- Whether a document says what arguments and the description in a file ask for, and all else that the document of the
file alone says. -/
structure Overrides (r : BuildRequest) (lower : Configuration) (created : Time.Instant) (c alone : ConfigFile) :
    Prop where
  env : Renders c.config.env fun name =>
    ((lastValue? name r.env).or (lower.environment.get? name)).or (defaultValue? name)
  labels : Annotates (fun key => (lastValue? key r.annotations).or (lower.annotations.get? key)) lower.vcsUrl created
    c.config.labels
  rest : c = alone.withSettings c.config.env c.config.labels

/-- The image that is made with pairs of the command line, and that of the file alone. -/
theorem exists_overrides {w1 : Workspace} (hlayers : r.layers ≠ [])
    (hdescribe : (describe r).perform w = (.ok description, w))
    (h : (imageOf r description epoch).perform w = (.ok j, w1)) :
    ∃ lower created c j0 alone, (loadDescription r.config).perform w = (.ok lower, w) ∧
      Time.SourceDate.read epoch = .ok created ∧ j.configFile = .ok c ∧ Overrides r lower created c alone ∧
      (imageOf r lower epoch).perform w = (.ok j0, w1) ∧ j0.configFile = .ok alone := by
  obtain ⟨lower, environment, annotations, hload, henv, hannotations, -, rfl⟩ := describe_ok hdescribe
  obtain ⟨arch, created, layers, base, w2, w3, harch, hcreated, hopen, hbase, hbuild⟩ := imageOf_ok.1 h
  have hvalid := Build.valid_of_build hbuild
  rw [← Configuration.overlay_maps] at hvalid
  obtain ⟨j0, hbuild0, hdocuments⟩ := Build.exists_build_of_withMaps hvalid.of_overlay_maps hbuild
  have hnew : layers ≠ [] := by
    rw [← List.length_pos_iff, length_of_openLayers hopen]
    exact List.length_pos_iff.2 hlayers
  obtain ⟨alone, halone⟩ := Build.readable_of_build hnew hbuild0
  refine ⟨lower, created, _, j0, alone, hload, hcreated, hdocuments alone halone, ⟨?_, ?_, rfl⟩,
    imageOf_ok.2 ⟨arch, created, layers, base, w2, w3, harch, hcreated, hopen, hbase, hbuild0⟩, halone⟩
  · have hrenders := Build.renders_renderEnvironment fun name hname => (hvalid.names name hname).2
    simp only [Configuration.overlay_maps, withMaps, Dictionary.get?_overlay, get?_readPairs henv] at hrenders
    exact hrenders
  · have hannotates := Provenance.annotates_annotations hvalid created
    have hget : (lower.annotations.overlay annotations).get? =
        fun key => (lastValue? key r.annotations).or (lower.annotations.get? key) := by
      funext key
      rw [Dictionary.get?_overlay, get?_readPairs hannotations]
    rw [← hget]
    exact hannotates

/-- Whether a document is that of the file alone: its image is made, and is what the command without pairs exports. -/
structure OfFileAlone (r : BuildRequest) (lower : Configuration) (epoch : Option String) (w : Workspace)
    (alone : ConfigFile) : Prop where
  image : ∃ j w1, (imageOf r lower epoch).perform w = (.ok j, w1) ∧ j.configFile = .ok alone
  exported : ∀ text w', (build (r.withPairs [] []) epoch).perform w = (.ok text, w') → Exports w' r.output alone

/-- With no pairs, what is described is what the file says. -/
theorem description_of_withPairs_nil (hload : (loadDescription r.config).perform w = (.ok lower, w))
    (h : (describe (r.withPairs [] [])).perform w = (.ok description, w)) : description = lower := by
  obtain ⟨lower0, environment, annotations, hload0, henv, hannotations, -, rfl⟩ := describe_ok h
  obtain rfl : lower = lower0 := Except.ok.inj (Prod.mk.inj (hload.symm.trans hload0)).1
  obtain rfl : Dictionary.empty = environment := Except.ok.inj henv
  obtain rfl : Dictionary.empty = annotations := Except.ok.inj hannotations
  rfl

theorem exports_withPairs_nil {alone : ConfigFile} {w1 w0 : Workspace}
    (hload : (loadDescription r.config).perform w = (.ok lower, w))
    (himage : (imageOf r lower epoch).perform w = (.ok j, w1)) (halone : j.configFile = .ok alone)
    (h : (build (r.withPairs [] []) epoch).perform w = (.ok text, w0)) : Exports w0 r.output alone := by
  obtain ⟨description, tag, j0, w2, hdescribe, himage0, hwrite⟩ := written_of_build h
  obtain rfl := description_of_withPairs_nil hload hdescribe
  obtain ⟨hj, rfl⟩ := Prod.mk.inj (himage0.symm.trans himage)
  obtain rfl := Except.ok.inj hj
  exact exports_of_writeFile himage0 halone hwrite

/-- The command line wins. In what a build that succeeds exports, the last pair of a key stands for the file's value,
and this for the default; the time of the build and the source that the file names stand for what either says, and all
else is as the file alone has it. A pair without a key ends the build before anything is written. -/
theorem overrides_win (arguments : List String) (epoch : Option String) (w : Workspace) :
    (∀ text w', (run ("build" :: arguments) epoch).perform w = (.ok text, w') → ∃ r lower created c alone,
      read ("build" :: arguments) = .ok (.build r) ∧ (loadDescription r.config).perform w = (.ok lower, w) ∧
      Time.SourceDate.read epoch = .ok created ∧ Exports w' r.output c ∧ Overrides r lower created c alone ∧
      OfFileAlone r lower epoch w alone) ∧
    ∀ r, read ("build" :: arguments) = .ok (.build r) → (∃ argument ∈ r.env ++ r.annotations, IsKeyless argument) →
      ∃ failure, (run ("build" :: arguments) epoch).perform w = (.error failure, w) := by
  constructor
  · intro text w' h
    obtain ⟨r, haccepted, hbuild⟩ := accepted_of_run h
    obtain ⟨description, tag, j, w1, hdescribe, himage, hwrite⟩ := written_of_build hbuild
    obtain ⟨lower, created, c, j0, alone, hload, hcreated, hc, hoverrides, himage0, halone⟩ :=
      exists_overrides (layers_ne_nil haccepted.request) hdescribe himage
    exact ⟨r, lower, created, c, alone, haccepted.request, hload, hcreated, exports_of_writeFile himage hc hwrite,
      hoverrides, ⟨_, _, himage0, halone⟩, fun _ _ => exports_withPairs_nil hload himage0 halone⟩
  · rintro r hread ⟨argument, hmem, hkeyless⟩
    rw [run_build hread]
    exact build_of_isKeyless hmem hkeyless epoch w

/-! ### A description in a file -/

/-- A description with two variables, an annotation and a source. -/
def overridden : Configuration where
  environment := .ofList [("A", "x"), ("C", "y")]
  annotations := .ofList [("team", "ops")]
  vcsUrl := "git@host@1"

/-- What a file says of it. -/
def overriddenText : String := "environment: \x7bA: x, C: y\x7d\nannotations: \x7bteam: ops\x7d\nvcs-url: git@host@1\n"

theorem ofYaml_overriddenText : Configuration.ofYaml overriddenText = .ok overridden := by
  have h : (Configuration.ofYaml overriddenText).toOption = some overridden := by decide +kernel
  cases hread : Configuration.ofYaml overriddenText with
  | error fault => simp [hread, Except.toOption] at h
  | ok c =>
    rw [hread] at h
    exact congrArg Except.ok (Option.some.inj h)

/-- The file, and the empty file of a layer. -/
def describedFiles : Files :=
  (Files.empty.put ["g"] (.file .empty)).put ["c"] (.file overriddenText.toUTF8)

theorem load_overridden :
    (loadDescription (some "c")).perform ⟨describedFiles, []⟩ = (.ok overridden, ⟨describedFiles, []⟩) := by
  have hread : describedFiles.read "c" = .ok overriddenText.toUTF8 := rfl
  have htext : describedFiles.readText "c" = .ok overriddenText := by
    rw [Files.readText, hread]
    simp only [bind, Except.bind, Bytes.fromUTF8?_toUTF8]
    rfl
  simp only [loadDescription, Configuration.load, Action.perform_mapFault, Action.perform_bind, Action.perform_ofFiles,
    Action.perform_ofExcept, htext, Except.mapError, ofYaml_overriddenText]

/-- Arguments of a build that give `A` twice, and the annotation another value. -/
def overriding : List String :=
  ["-c", "c", "-l", "g", "-t", "app", "-o", "out.tar", "-e", "A=1", "-e", "A=2=3", "--annotation", "team=infra"]

def overridingRequest : BuildRequest := plainRequest (some "c") ["A=1", "A=2=3"] ["team=infra"]

theorem read_overriding : read ("build" :: overriding) = .ok (.build overridingRequest) := by decide

/-- The description with what the arguments say laid over it. -/
def overridingDescription : Configuration :=
  overridden.withMaps (overridden.environment.overlay (.ofList [("A", "1"), ("A", "2=3")]))
    (overridden.annotations.overlay (.ofList [("team", "infra")]))

theorem describe_overridingRequest : (describe overridingRequest).perform ⟨describedFiles, []⟩ =
    (.ok overridingDescription, ⟨describedFiles, []⟩) := by
  have hconfig : overridingRequest.config = some "c" := rfl
  rw [describe, Action.perform_bind, Action.perform_mapFault, hconfig, load_overridden]
  rfl

theorem exists_run_overriding :
    ∃ text w, (run ("build" :: overriding) none).perform ⟨describedFiles, []⟩ = (.ok text, w) := by
  have hkept : describedFiles.HoldsApart ["out.tar"] "g" .empty := ⟨["g"], rfl, by decide, rfl⟩
  have hvalid : overridingDescription.validate = .ok () := by decide
  rw [run_build read_overriding]
  exact exists_build_plain rfl hkept describe_overridingRequest hvalid rfl rfl

/-- The arguments win over the file, whose other variable and whose source are in the exported document; a variable
without a name ends the command. -/
theorem overrides_win_file : read ("build" :: overriding) = .ok (.build overridingRequest) ∧
    (loadDescription (some "c")).perform ⟨describedFiles, []⟩ = (.ok overridden, ⟨describedFiles, []⟩) ∧
    (∃ text w' c alone, (run ("build" :: overriding) none).perform ⟨describedFiles, []⟩ = (.ok text, w') ∧
      Exports w' "out.tar" c ∧ Overrides overridingRequest overridden .epoch c alone ∧
      ("A", "2=3") ∈ Build.variablesOf c.config.env ∧ ("C", "y") ∈ Build.variablesOf c.config.env ∧
      c.config.labels.get? "team" = some "infra" ∧
      c.config.labels.get? Provenance.createdKey = some "1970-01-01T00:00:00Z" ∧
      c.config.labels.get? Provenance.sourceKey = some "git@host") ∧
    ∃ failure, (run ["build", "-c", "c", "-l", "g", "-t", "app", "-o", "out.tar", "-e", "=1"] none).perform
      ⟨describedFiles, []⟩ = (.error failure, ⟨describedFiles, []⟩) := by
  obtain ⟨text, w', h⟩ := exists_run_overriding
  obtain ⟨r, lower, created, c, alone, hread, hload, hcreated, hexports, hoverrides, -⟩ :=
    (overrides_win overriding none ⟨describedFiles, []⟩).1 text w' h
  obtain rfl : overridingRequest = r := Command.build.inj (Except.ok.inj (read_overriding.symm.trans hread))
  obtain rfl : overridden = lower := Except.ok.inj (Prod.mk.inj (load_overridden.symm.trans hload)).1
  obtain rfl : Time.Instant.epoch = created := Except.ok.inj hcreated
  have hrefused : read ["build", "-c", "c", "-l", "g", "-t", "app", "-o", "out.tar", "-e", "=1"] =
    .ok (.build (plainRequest (some "c") ["=1"] [])) := by decide
  have hlast : lastValue? "A" overridingRequest.env = some "2=3" :=
    lastValue?_eq_some.2 ⟨by decide, ["A=1"], [], rfl, by simp⟩
  refine ⟨read_overriding, load_overridden, ⟨text, w', c, alone, h, hexports, hoverrides,
    (hoverrides.env.values _ _).2 (by rw [hlast]; rfl), (hoverrides.env.values _ _).2 (by decide), ?_,
    hoverrides.labels.created, ?_⟩,
    (overrides_win _ none _).2 _ hrefused ⟨"=1", by decide, .inr rfl⟩⟩
  · rw [hoverrides.labels.others "team" (by decide) (by decide) (by decide)]
    decide
  · obtain ⟨source, revision, -, -, hrevision, hurl, hsource, -⟩ := hoverrides.labels.sourced (by decide)
    have hsplit : Configuration.splitVcsUrl overridden.vcsUrl = some (source, revision) :=
      Configuration.splitVcsUrl_eq_some.2 ⟨by simp [← hurl, String.toList_append], hrevision⟩
    have hgiven : Configuration.splitVcsUrl overridden.vcsUrl = some ("git@host", "1") := by decide
    obtain ⟨rfl, rfl⟩ := Prod.mk.inj (Option.some.inj (hsplit.symm.trans hgiven))
    exact hsource

end CommandLine

end ImageAssembly
