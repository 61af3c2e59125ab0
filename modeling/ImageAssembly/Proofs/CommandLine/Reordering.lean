import ImageAssembly.Proofs.Build.Reordering
import ImageAssembly.Proofs.CommandLine.Arguments
import ImageAssembly.Proofs.Export.Rewriting
import ImageAssembly.Proofs.Export.SingleLayer

/-! Order that never shows. Neither the order in which a description lists volumes nor that in which pairs stand on
the command line is left in what is built: a set of volumes and the last value of each key determine all of it. -/

namespace ImageAssembly

open Workspace

variable {ε δ α β : Type} {path : String}

/-! ### Archives that are written -/

/-- Whether work that succeeds leaves a file to be read at a path. -/
def Action.Leaves (path : String) (a : Action ε α) : Prop :=
  ∀ w x w', a.perform w = (.ok x, w') → ∃ data, w'.files.read path = .ok data

namespace Action.Leaves

theorem last {a : Action ε α} {f : α → Action ε β} (hf : ∀ x, (f x).Leaves path) : (a >>= f).Leaves path := by
  intro w y w' h
  obtain ⟨x, w1, -, h⟩ := perform_bind_ok h
  exact hf x w1 y w' h

theorem before {a : Action ε α} {f : α → Action ε β} (ha : a.Leaves path) (hf : ∀ x, (f x).Leads KeepsFiles) :
    (a >>= f).Leaves path := by
  intro w y w' h
  obtain ⟨x, w1, h1, h⟩ := perform_bind_ok h
  obtain ⟨data, hdata⟩ := ha w x w1 h1
  have hfiles : w'.files = w1.files := (hf x).of_perform h
  exact ⟨data, hfiles ▸ hdata⟩

theorem mapFault {a : Action ε α} (ha : a.Leaves path) (f : ε → δ) : (a.mapFault f).Leaves path :=
  fun w x w' h => ha w x w' (perform_mapFault_ok.1 h)

theorem writeFile (path : String) (tag : Tag) (i : Image) : (Export.writeFile path tag i).Leaves path := by
  intro w u w' h
  cases hplace : w.files.writablePlace path with
  | error fault =>
    rw [Export.perform_writeFile, hplace] at h
    cases h
  | ok place =>
    obtain ⟨name, document, more, hfiles⟩ := (Export.left_writeFile h).created place hplace
    obtain ⟨hresolve, hd⟩ := Files.writablePlace_ok hplace
    exact ⟨_, by rw [hfiles, Files.read_put hresolve hd]⟩

theorem buildFromLayer (reference : String) (l : Layer) (path : String) (description : Configuration)
    (created : Time.Instant) (arch : Architecture) :
    (Export.buildFromLayer reference l path description created arch).Leaves path := by
  intro w u w' h
  obtain ⟨tag, image, w1, -, -, h⟩ := Export.buildFromLayer_ok.1 h
  exact writeFile path tag image w1 u w' h

theorem produce (r : CommandLine.BuildRequest) (description : Configuration) (epoch : Option String) :
    (CommandLine.produce r description epoch).Leaves r.output := by
  refine last fun arch => last fun created => last fun layers => ?_
  split
  · exact buildFromLayer _ _ _ _ _ _
  · exact last fun tag => last fun base => last fun image => (writeFile _ _ _).mapFault _

theorem build (r : CommandLine.BuildRequest) (epoch : Option String) :
    (CommandLine.build r epoch).Leaves r.output :=
  last fun description => ((produce r description epoch).mapFault _).before fun _ _ => rfl

end Action.Leaves

namespace CommandLine

/-! ### Arguments -/

/-- Whether arguments of a build differ in the order and the repetition of pairs only, each key keeping its last
value. -/
structure Rearranged (arguments arguments' : List String) : Prop where
  others : others (occurrences arguments) = others (occurrences arguments')
  env : ∀ key, lastValue? key (valuesOf .env (occurrences arguments)) =
    lastValue? key (valuesOf .env (occurrences arguments'))
  annotations : ∀ key, lastValue? key (valuesOf .annotate (occurrences arguments)) =
    lastValue? key (valuesOf .annotate (occurrences arguments'))

/-- Whether arguments of a build, and all pairs in them, can be read. -/
structure Accepted (arguments : List String) (r : BuildRequest) : Prop where
  request : read ("build" :: arguments) = .ok (.build r)
  env : ∃ d, readPairs r.env = .ok d
  annotations : ∃ d, readPairs r.annotations = .ok d

variable {arguments arguments' : List String} {epoch : Option String} {r r' : BuildRequest} {text : String}
variable {w w' : Workspace}

theorem Accepted.unique (h : Accepted arguments r) (h' : Accepted arguments r') : r = r' :=
  Command.build.inj (Except.ok.inj (h.request.symm.trans h'.request))

theorem run_build (h : read ("build" :: arguments) = .ok (.build r)) (epoch : Option String) :
    run ("build" :: arguments) epoch = build r epoch := by
  rw [run, h]
  rfl

theorem run_accepted (h : Accepted arguments r) (epoch : Option String) :
    run ("build" :: arguments) epoch = build r epoch :=
  run_build h.request epoch

/-- Arguments with which a build succeeds. -/
theorem accepted_of_run (h : (run ("build" :: arguments) epoch).perform w = (.ok text, w')) :
    ∃ r, Accepted arguments r ∧ (build r epoch).perform w = (.ok text, w') := by
  obtain ⟨command, w1, hread, h⟩ := Action.perform_bind_ok h
  obtain ⟨houtcome, rfl⟩ := Prod.mk.inj hread
  have hread : read ("build" :: arguments) = .ok command := mapError_eq_ok.1 houtcome
  obtain ⟨g, -, hrequest⟩ := bind_eq_ok.1 (show readBuild arguments = _ from hread)
  obtain ⟨r, -, hcommand⟩ := bind_eq_ok.1 hrequest
  obtain rfl := Except.ok.inj hcommand
  obtain ⟨description, w2, hdescribe, -⟩ := Action.perform_bind_ok h
  obtain ⟨described, w3, -, hpairs⟩ := Action.perform_bind_ok hdescribe
  obtain ⟨environment, w4, henv, hpairs⟩ := Action.perform_bind_ok hpairs
  obtain ⟨annotations, w5, hannotations, -⟩ := Action.perform_bind_ok hpairs
  exact ⟨r, ⟨hread, ⟨_, (Prod.mk.inj henv).1⟩, ⟨_, (Prod.mk.inj hannotations).1⟩⟩, h⟩

/-- Only the maps that pairs give matter to a build. -/
theorem build_withPairs {env env' annotations annotations' : List String} (henv : readPairs env = readPairs env')
    (hannotations : readPairs annotations = readPairs annotations') (r : BuildRequest) (epoch : Option String) :
    build (r.withPairs env annotations) epoch = build (r.withPairs env' annotations') epoch := by
  have hdescribe : describe (r.withPairs env annotations) = describe (r.withPairs env' annotations') := by
    simp only [describe, BuildRequest.withPairs, henv, hannotations]
  rw [build, build, hdescribe]
  rfl

/-- Builds with rearranged arguments write to one path, and are one piece of work. -/
theorem Rearranged.run_eq (h : Rearranged arguments arguments') (hr : Accepted arguments r)
    (hr' : Accepted arguments' r') (epoch : Option String) :
    r.output = r'.output ∧ run ("build" :: arguments) epoch = run ("build" :: arguments') epoch := by
  rw [run_accepted hr, run_accepted hr']
  obtain ⟨rest, hrest, rfl⟩ := readBuild_ok hr.request
  obtain ⟨rest', hrest', rfl⟩ := readBuild_ok hr'.request
  rw [← h.others, hrest] at hrest'
  obtain rfl := Except.ok.inj hrest'
  obtain ⟨d, hd⟩ := hr.env
  obtain ⟨d', hd'⟩ := hr'.env
  obtain ⟨e, he⟩ := hr.annotations
  obtain ⟨e', he'⟩ := hr'.annotations
  have hdd' : d = d' := readPairs_congr hd hd' h.env
  have hee' : e = e' := readPairs_congr he he' h.annotations
  exact ⟨rfl, build_withPairs (hd.trans (hdd' ▸ hd'.symm)) (he.trans (hee' ▸ he'.symm)) rest epoch⟩

end CommandLine

/-! ### What is left of order -/

/-- Whether two descriptions are built alike: on every base with every layers one build succeeds just if the other
does, and then both images have the same bytes; so have archives of a single layer under any name. -/
structure Configuration.BuiltAlike (c c' : Configuration) : Prop where
  succeeds : ∀ base layers created arch w,
    (∃ i w', (Build.build base layers c created arch).perform w = (.ok i, w')) ↔
      ∃ i w', (Build.build base layers c' created arch).perform w = (.ok i, w')
  bytes : ∀ base layers created arch w i i' w1 w2,
    (Build.build base layers c created arch).perform w = (.ok i, w1) →
      (Build.build base layers c' created arch).perform w = (.ok i', w2) →
        i.rawManifest = i'.rawManifest ∧ i.rawConfig = i'.rawConfig
  archives : ∀ reference l path created arch w w',
    (Export.buildFromLayer reference l path c created arch).perform w = (.ok (), w') ↔
      (Export.buildFromLayer reference l path c' created arch).perform w = (.ok (), w')

/-- Whether two builds on the command line that succeed leave the same archive at one path; if their arguments are
accepted, one succeeds just if the other does. -/
structure CommandLine.WrittenAlike (arguments arguments' : List String) : Prop where
  archives : ∀ epoch w text text' w1 w2, (run ("build" :: arguments) epoch).perform w = (.ok text, w1) →
    (run ("build" :: arguments') epoch).perform w = (.ok text', w2) →
      ∃ r r' archive, Accepted arguments r ∧ Accepted arguments' r' ∧ r.output = r'.output ∧
        w1.files.read r.output = .ok archive ∧ w2.files.read r'.output = .ok archive
  same : ∀ r r' epoch w, Accepted arguments r → Accepted arguments' r' →
    (run ("build" :: arguments) epoch).perform w = (run ("build" :: arguments') epoch).perform w

theorem Configuration.builtAlike_listing {vs vs' : List String} (hvs : ∀ v, v ∈ vs ↔ v ∈ vs')
    (description : Configuration) : BuiltAlike (description.listing vs) (description.listing vs') where
  succeeds base layers created arch w :=
    exists_congr fun i => exists_congr fun w' =>
      (Build.inStep_build_listing hvs base layers description created arch).ok_iff
  bytes base layers created arch w i i' w1 w2 h h' := by
    rw [(Build.inStep_build_listing hvs base layers description created arch).ok_iff, h'] at h
    cases h
    exact ⟨rfl, rfl⟩
  archives reference l path created arch w w' :=
    (Export.inStep_buildFromLayer_listing hvs reference l path description created arch).ok_iff

theorem CommandLine.Rearranged.writtenAlike {arguments arguments' : List String} (h : Rearranged arguments arguments') :
    WrittenAlike arguments arguments' where
  archives epoch w text text' w1 w2 hrun hrun' := by
    obtain ⟨r, hr, hbuild⟩ := accepted_of_run hrun
    obtain ⟨r', hr', -⟩ := accepted_of_run hrun'
    obtain ⟨houtput, hsame⟩ := h.run_eq hr hr' epoch
    obtain ⟨archive, harchive⟩ := Action.Leaves.build r epoch w text w1 hbuild
    rw [hsame, hrun'] at hrun
    cases hrun
    exact ⟨r, r', archive, hr, hr', houtput, harchive, houtput ▸ harchive⟩
  same r r' epoch w hr hr' := by rw [(h.run_eq hr hr' epoch).2]

/-- Order never shows. Descriptions that list the same volumes are built alike, and so are builds on the command line
whose arguments give each variable and each annotation the same value last. -/
theorem order_never_shows :
    (∀ (description : Configuration) (vs vs' : List String), (∀ v, v ∈ vs ↔ v ∈ vs') →
      (description.listing vs).BuiltAlike (description.listing vs')) ∧
    ∀ arguments arguments', CommandLine.Rearranged arguments arguments' →
      CommandLine.WrittenAlike arguments arguments' :=
  ⟨fun description _ _ hvs => Configuration.builtAlike_listing hvs description, fun _ _ h => h.writtenAlike⟩

/-! ### A build asked for in two ways -/

namespace CommandLine

/-- A build of one layer on nothing makes and writes the image of that layer. -/
theorem perform_produce_single {r : BuildRequest} {l : Layer} {epoch : Option String} {created : Time.Instant}
    {arch : Architecture} {w w1 : Workspace} (hbase : r.base = none) (harch : Architecture.parse r.arch = .ok arch)
    (hcreated : Time.SourceDate.read epoch = .ok created) (hlayers : (openLayers r.layers).perform w = (.ok [l], w1))
    (description : Configuration) : (produce r description epoch).perform w =
      (Export.buildFromLayer r.tag l r.output description created arch).perform w1 := by
  simp only [produce, Action.perform_bind, Action.perform_ofExcept, Action.perform_mapFault, harch, hcreated, hlayers,
    Except.mapError, hbase]

theorem exists_build_of_produce {r : BuildRequest} {description : Configuration} {epoch : Option String}
    {w w1 w2 : Workspace} (hdescribe : (describe r).perform w = (.ok description, w1))
    (hproduce : (produce r description epoch).perform w1 = (.ok (), w2)) :
    ∃ text, (build r epoch).perform w = (.ok text, w2) := by
  rw [build, Action.perform_bind, hdescribe]
  dsimp only
  rw [Action.perform_bind, Action.perform_mapFault_ok.2 hproduce]
  exact ⟨_, rfl⟩

/-- Arguments of a build that say twice what `A` is. -/
def repeated : List String := ["-l", "g", "-t", "app", "-o", "out.tar", "-e", "A=1", "-e", "B=2", "-e", "A=3"]

/-- The same build with the variables in another order and in other spellings, and with `B` said twice. -/
def gathered : List String := ["--env=B=2", "-l", "g", "-eA=3", "-t", "app", "-o", "out.tar", "-e", "B=2"]

theorem rearranged_gathered : Rearranged repeated gathered where
  others := by decide
  env key := by
    have h : valuesOf .env (occurrences repeated) = ["A=1", "B=2", "A=3"] := by decide
    have h' : valuesOf .env (occurrences gathered) = ["B=2", "A=3", "B=2"] := by decide
    have hA : splitPair "A=1" = .ok ("A", "1") := rfl
    have hB : splitPair "B=2" = .ok ("B", "2") := rfl
    have hA' : splitPair "A=3" = .ok ("A", "3") := rfl
    rw [h, h']
    simp only [lastValue?, List.filterMap_cons, hA, hB, hA', Except.toOption, List.filterMap_nil, Dictionary.last?_cons]
    split_ifs with h1 h2 <;> simp_all
  annotations key := by
    have h : valuesOf .annotate (occurrences repeated) = [] := by decide
    have h' : valuesOf .annotate (occurrences gathered) = [] := by decide
    rw [h, h']

/-- A build of the layer in one file on nothing. -/
def plainRequest (config : Option String) (env annotations : List String) : BuildRequest :=
  ⟨config, ["g"], "app", "out.tar", "amd64", none, env, annotations⟩

theorem accepted_repeated : Accepted repeated (plainRequest none ["A=1", "B=2", "A=3"] []) :=
  ⟨by decide, ⟨_, rfl⟩, ⟨_, rfl⟩⟩

theorem accepted_gathered : Accepted gathered (plainRequest none ["B=2", "A=3", "B=2"] []) :=
  ⟨by decide, ⟨_, rfl⟩, ⟨_, rfl⟩⟩

/-- What the arguments describe. -/
def twoVariables : Configuration :=
  Configuration.overlay {} { environment := .ofList [("A", "1"), ("B", "2"), ("A", "3")] }

variable {fs : Files}

theorem openLayers_plain (hkept : fs.HoldsApart ["out.tar"] "g" .empty) :
    (openLayers ["g"]).perform ⟨fs, []⟩ = (.ok [.file Export.plainLayer], ⟨fs, [default]⟩) := by
  rw [openLayers, Action.perform_bind, Layer.perform_openPath hkept.read]
  rfl

/-- The image of the layer with a description that names no command. -/
theorem exists_image_plain {description : Configuration} (hkept : fs.HoldsApart ["out.tar"] "g" .empty)
    (hvalid : description.validate = .ok ()) (hentrypoint : description.entrypoint = {})
    (hcmd : description.cmd = "") :
    ∃ j w, (Build.build .empty [.file Export.plainLayer] description .epoch ⟨"amd64", ""⟩).perform ⟨fs, [default]⟩ =
      (.ok j, w) := by
  have hopened : Workspace.Opened ⟨fs, [default]⟩ [.file Export.plainLayer] :=
    ⟨by simp [Workspace.Holds, Export.plainLayer], by simp [OwnMemos]⟩
  have htells : ∀ l ∈ [Layer.file Export.plainLayer],
      l.TellsDigest ⟨fs, [default]⟩ ∧ l.TellsDiffId ⟨fs, [default]⟩ := by
    rw [List.forall_mem_singleton]
    exact Export.tells_plainLayer hkept.openPath
  have hyears : Time.Instant.HasPlainYear .epoch := by decide
  have hpaired : Build.Paired .empty := rfl
  have happendable : Build.Appendable .empty := Build.appendable_iff.2 ⟨_, Image.appendable_empty⟩
  exact Build.exists_build_commandless hvalid hentrypoint hcmd hpaired happendable hopened htells
    ((Build.plainYears_empty_iff (by simp)).2 hyears) ⟨"amd64", ""⟩

/-- An empty layer is built and written apart from its file. -/
theorem exists_build_plain {config : Option String} {env annotations : List String} {description : Configuration}
    (hplace : fs.writablePlace "out.tar" = .ok ["out.tar"]) (hkept : fs.HoldsApart ["out.tar"] "g" .empty)
    (hdescribe : (describe (plainRequest config env annotations)).perform ⟨fs, []⟩ = (.ok description, ⟨fs, []⟩))
    (hvalid : description.validate = .ok ()) (hentrypoint : description.entrypoint = {})
    (hcmd : description.cmd = "") :
    ∃ text w, (build (plainRequest config env annotations) none).perform ⟨fs, []⟩ = (.ok text, w) := by
  obtain ⟨j, ⟨fs', memos⟩, hbuild⟩ := exists_image_plain hkept hvalid hentrypoint hcmd
  obtain rfl : fs' = fs := (Build.keepsFiles_build .empty _ description .epoch ⟨"amd64", ""⟩).of_perform hbuild
  have hlayers : j.layers = [.file Export.plainLayer] := Build.layers_of_build hbuild
  have hheld : ∀ l ∈ [Layer.file Export.plainLayer], Workspace.Holds ⟨fs', [default]⟩ l := by
    simp [Workspace.Holds, Export.plainLayer]
  have hknown : ∀ l ∈ j.layers, ∃ s, l.Knows ⟨fs', memos⟩ s := fun l hl =>
    (Build.known_of_build hheld hbuild l (hlayers ▸ hl)).1
  have hapart : ∀ l ∈ j.layers, ∃ b, l.HeldApart fs' ["out.tar"] b := by
    rw [hlayers]
    simpa [Layer.HeldApart] using ⟨.empty, hkept⟩
  have htag : Tag.parse "app" = .ok ⟨"index.docker.io", "library/app", "latest"⟩ := by decide
  obtain ⟨w', hwrite⟩ := Export.exists_writeFile_of_known _ hplace hknown hapart
  have harch : Architecture.parse "amd64" = .ok ⟨"amd64", ""⟩ := rfl
  have hcreated : Time.SourceDate.read none = .ok .epoch := rfl
  have hexport := Export.buildFromLayer_ok.2 ⟨_, j, ⟨fs', memos⟩, htag, hbuild, hwrite⟩
  have hproduce : (produce (plainRequest config env annotations) description none).perform ⟨fs', []⟩ =
      (.ok (), w') := by
    rw [perform_produce_single (r := plainRequest config env annotations) rfl harch hcreated (openLayers_plain hkept)]
    exact hexport
  obtain ⟨text, htext⟩ := exists_build_of_produce hdescribe hproduce
  exact ⟨text, w', htext⟩

/-- A workspace in which the empty file of the layer has not been opened. -/
def unopened : Workspace := ⟨Export.plainWorkspace.files, []⟩

/-- The build of the repeated variables succeeds. -/
theorem exists_run_repeated : ∃ text w, (run ("build" :: repeated) none).perform unopened = (.ok text, w) := by
  have hkept : unopened.files.HoldsApart ["out.tar"] "g" .empty := ⟨["g"], rfl, by decide, rfl⟩
  have hvalid : twoVariables.validate = .ok () := by decide
  rw [run_accepted accepted_repeated]
  exact exists_build_plain rfl hkept rfl hvalid (Build.entrypoint_overlay _) (Build.cmd_overlay _)

end CommandLine

/-- Volumes listed in two ways, and a build that sets one variable twice with the same build that sets it once. -/
theorem order_never_shows_gathered :
    (∀ v, v ∈ ["/a", "/b"] ↔ v ∈ ["/b", "/a", "/b"]) ∧
    CommandLine.Rearranged CommandLine.repeated CommandLine.gathered ∧
    (∃ i i' w1 w2, (Build.build .empty Build.twoLayers (Configuration.listing {} ["/a", "/b"]) .epoch
        ⟨"amd64", ""⟩).perform .empty = (.ok i, w1) ∧
      (Build.build .empty Build.twoLayers (Configuration.listing {} ["/b", "/a", "/b"]) .epoch
        ⟨"amd64", ""⟩).perform .empty = (.ok i', w2) ∧
      i.rawManifest = i'.rawManifest ∧ i.rawConfig = i'.rawConfig) ∧
    ∃ text text' w1 w2 archive,
      (CommandLine.run ("build" :: CommandLine.repeated) none).perform CommandLine.unopened = (.ok text, w1) ∧
      (CommandLine.run ("build" :: CommandLine.gathered) none).perform CommandLine.unopened = (.ok text', w2) ∧
      w1.files.read "out.tar" = .ok archive ∧ w2.files.read "out.tar" = .ok archive := by
  have hvs : ∀ v, v ∈ ["/a", "/b"] ↔ v ∈ ["/b", "/a", "/b"] := by
    intro v
    simp only [List.mem_cons, List.not_mem_nil, or_false]
    tauto
  have hrearranged := CommandLine.rearranged_gathered
  obtain ⟨hbuilt, hwritten⟩ := order_never_shows
  refine ⟨hvs, hrearranged, ?_, ?_⟩
  · have hyears : Time.Instant.HasPlainYear .epoch := by decide
    have hpaired : Build.Paired .empty := rfl
    have hvalid : (Configuration.listing {} ["/a", "/b"]).validate = .ok () := by decide
    obtain ⟨i, w1, h⟩ := Build.exists_build_commandless hvalid rfl rfl hpaired
      (Build.appendable_iff.2 ⟨_, Image.appendable_empty⟩) (Build.opened_twoLayers .empty) Build.tells_twoLayers
      ((Build.plainYears_empty_iff Build.twoLayers_ne_nil).2 hyears) ⟨"amd64", ""⟩
    obtain ⟨i', w2, h'⟩ := ((hbuilt {} _ _ hvs).succeeds _ _ _ _ _).1 ⟨i, w1, h⟩
    exact ⟨i, i', w1, w2, h, h', (hbuilt {} _ _ hvs).bytes _ _ _ _ _ _ _ _ _ h h'⟩
  · obtain ⟨text, w, h⟩ := CommandLine.exists_run_repeated
    have hsame := (hwritten _ _ hrearranged).same _ _ none CommandLine.unopened CommandLine.accepted_repeated
      CommandLine.accepted_gathered
    have h' := hsame.symm.trans h
    obtain ⟨r, r', archive, hr, hr', houtput, hread, hread'⟩ := (hwritten _ _ hrearranged).archives _ _ _ _ _ _ h h'
    obtain rfl := hr.unique CommandLine.accepted_repeated
    rw [← houtput] at hread'
    exact ⟨text, text, w, w, archive, h, h', hread, hread'⟩

end ImageAssembly
