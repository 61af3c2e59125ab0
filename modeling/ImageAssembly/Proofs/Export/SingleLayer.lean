import ImageAssembly.Proofs.Export.Failing

/-! Two ways to one archive. The image of a single layer on nothing is built before its name is looked at, any other
image after it. Where the name is refused both ways end before a file is touched, and where it is not they are one. -/

namespace ImageAssembly

open Workspace

/-! ### Work that is refused sooner or later -/

/-- Whether two outcomes are one and the same, or both are errors that leave the files of a workspace as they are. -/
inductive Workspace.Concurs {ε α : Type} (w : Workspace) : Except ε α × Workspace → Except ε α × Workspace → Prop
  | same (x : Except ε α × Workspace) : Concurs w x x
  | refused {e e' : ε} {w1 w2 : Workspace} (h1 : w.KeepsFiles w1) (h2 : w.KeepsFiles w2) :
    Concurs w (.error e, w1) (.error e', w2)

theorem Workspace.Concurs.later {ε α : Type} {w w' : Workspace} {x y : Except ε α × Workspace}
    (h : w'.Concurs x y) (hw : w.KeepsFiles w') : w.Concurs x y := by
  cases h with
  | same => exact .same _
  | refused h1 h2 => exact .refused (trans_of KeepsFiles hw h1) (trans_of KeepsFiles hw h2)

namespace Action

variable {ε δ α β : Type} {a b : Action ε α} {f g : α → Action ε β}

/-- Whether two pieces of work concur wherever they begin. -/
def Concur (a b : Action ε α) : Prop := ∀ w : Workspace, w.Concurs (a.perform w) (b.perform w)

namespace Concur

theorem refl (a : Action ε α) : Concur a a := fun _ => .same _

theorem mapFault (h : Concur a b) (f : ε → δ) : Concur (a.mapFault f) (b.mapFault f) := by
  intro w
  have hw := h w
  rw [perform_mapFault, perform_mapFault]
  generalize a.perform w = x at hw
  generalize b.perform w = y at hw
  cases hw with
  | same => exact .same _
  | refused h1 h2 => exact .refused h1 h2

/-- Pieces of work that concur are followed by the same. -/
theorem bind (h : Concur a b) (f : α → Action ε β) : Concur (a >>= f) (b >>= f) := by
  intro w
  have hw := h w
  rw [perform_bind, perform_bind]
  generalize a.perform w = x at hw
  generalize b.perform w = y at hw
  cases hw with
  | same => exact .same _
  | refused h1 h2 => exact .refused h1 h2

/-- Work that leaves the files as they are comes before pieces of work that concur. -/
theorem after (ha : a.Leads KeepsFiles) (h : ∀ x, Concur (f x) (g x)) : Concur (a >>= f) (a >>= g) := by
  intro w
  have hw := ha w
  rw [perform_bind, perform_bind]
  rcases hp : a.perform w with ⟨fault | x, w1⟩
  · exact .same _
  · rw [hp] at hw
    exact (h x w1).later hw

end Concur

end Action

/-! ### One layer -/

namespace Export

/-- What comes of building and writing the image of one layer; once it is built it has that layer. -/
theorem perform_buildFromLayer (reference : String) (l : Layer) (path : String) (description : Configuration)
    (created : Time.Instant) (arch : Architecture) (w : Workspace) :
    (buildFromLayer reference l path description created arch).perform w =
      match (Build.build .empty [l] description created arch).perform w with
      | (.error fault, w1) => (.error (.build fault), w1)
      | (.ok j, w1) => match Tag.parse reference with
        | .error fault => (.error (.tag fault), w1)
        | .ok tag => ((writeFile path tag j).mapFault .write).perform w1 := by
  rw [buildFromLayer, Action.perform_bind, Action.perform_mapFault]
  rcases hbuild : (Build.build .empty [l] description created arch).perform w with ⟨fault | j, w1⟩
  · rfl
  · have hlayers : j.layers.isEmpty = false := by rw [Build.layers_of_build hbuild]; rfl
    simp only [Except.mapError, hlayers, Bool.false_eq_true, if_false]
    rw [Action.perform_bind, Action.perform_ofExcept]
    cases Tag.parse reference <;> rfl

/-- The image of one layer is written just if its name can be read, it can be built on nothing and it can be written,
and then with the same effect. -/
theorem buildFromLayer_ok {reference path : String} {l : Layer} {description : Configuration} {created : Time.Instant}
    {arch : Architecture} {w w' : Workspace} :
    (buildFromLayer reference l path description created arch).perform w = (.ok (), w') ↔
      ∃ tag j w1, Tag.parse reference = .ok tag ∧
        (Build.build .empty [l] description created arch).perform w = (.ok j, w1) ∧
        (writeFile path tag j).perform w1 = (.ok (), w') := by
  rw [perform_buildFromLayer]
  rcases (Build.build .empty [l] description created arch).perform w with ⟨fault | j, w1⟩
  · simp
  · cases Tag.parse reference with
    | error fault => simp
    | ok tag => simp [Action.perform_mapFault_ok]

/-- An error of building and writing the image of one layer is one of building, of the name or of writing. -/
theorem buildFromLayer_error {reference path : String} {l : Layer} {description : Configuration}
    {created : Time.Instant} {arch : Architecture} {w : Workspace} {e : Error}
    (h : ((buildFromLayer reference l path description created arch).perform w).1 = .error e) :
    (∃ fault, e = .build fault) ∨ (∃ fault, e = .tag fault) ∨ ∃ fault, e = .write fault := by
  rw [perform_buildFromLayer] at h
  rcases hbuild : (Build.build .empty [l] description created arch).perform w with ⟨fault | j, w1⟩
  · rw [hbuild] at h
    cases h
    exact .inl ⟨fault, rfl⟩
  · rw [hbuild] at h
    cases htag : Tag.parse reference with
    | error fault =>
      rw [htag] at h
      cases h
      exact .inr (.inl ⟨fault, rfl⟩)
    | ok tag =>
      simp only [htag, Action.perform_mapFault] at h
      rcases hwrite : ((writeFile path tag j).perform w1).1 with fault | u
      · rw [hwrite] at h
        cases h
        exact .inr (.inr ⟨fault, rfl⟩)
      · simp [hwrite, Except.mapError] at h

theorem kind_of_buildFromLayer_error {reference path : String} {l : Layer} {description : Configuration}
    {created : Time.Instant} {arch : Architecture} {w : Workspace} {e : Error}
    (h : ((buildFromLayer reference l path description created arch).perform w).1 = .error e) : e.kind ≠ .noImage := by
  have hlayer : ∀ fault : Layer.Fault, fault.kind ≠ .noImage := by
    intro fault
    cases fault <;> simp [Layer.Fault.kind]
  rcases buildFromLayer_error h with ⟨fault, rfl⟩ | ⟨fault, rfl⟩ | ⟨fault, rfl⟩
  · cases fault with
    | layer fault => exact hlayer fault
    | _ => simp [Error.kind, Build.Fault.kind]
  · simp [Error.kind]
  · cases fault with
    | layer fault => exact hlayer fault
    | _ => simp [Error.kind, Export.Fault.kind]

end Export

/-! ### Builds on the command line -/

namespace CommandLine

/-- Makes and writes the image of a build as one of any number of layers. -/
def produceGenerally (r : BuildRequest) (description : Configuration) (epoch : Option String) : Action Error Unit := do
  let arch ← Action.ofExcept ((Architecture.parse r.arch).mapError .architecture)
  let created ← Action.ofExcept ((Time.SourceDate.read epoch).mapError .sourceDate)
  let layers ← (openLayers r.layers).mapFault .layer
  assemble r layers description created arch

/-- A build that makes and writes its image in some way. -/
def buildBy (make : BuildRequest → Configuration → Option String → Action Error Unit) (r : BuildRequest)
    (epoch : Option String) : Action Failure String := do
  let description ← describe r
  (make r description epoch).mapFault .error
  let w ← get
  let size := formatBytes (fileSize w.files r.output)
  pure ("Built " ++ r.tag ++ " → " ++ r.output ++ " (" ++ size ++ ")\n")

theorem buildBy_produce : buildBy produce = build := rfl

/-- Looking at the name of an image of one layer late or early makes a difference only where it is refused. -/
theorem concur_assemble {r : BuildRequest} (hbase : r.base = none) (l : Layer) (description : Configuration)
    (created : Time.Instant) (arch : Architecture) :
    (Export.buildFromLayer r.tag l r.output description created arch).Concur
      (assemble r [l] description created arch) := by
  intro w
  have hkeeps := Build.keepsFiles_build .empty [l] description created arch w
  rw [Export.perform_buildFromLayer, assemble, Action.perform_bind, Action.perform_ofExcept]
  cases Tag.parse r.tag with
  | error fault =>
    rcases hbuild : (Build.build .empty [l] description created arch).perform w with ⟨fault' | j, w1⟩ <;>
      rw [hbuild] at hkeeps
    · exact .refused hkeeps rfl
    · exact .refused hkeeps rfl
  | ok tag =>
    simp only [Except.mapError]
    rw [hbase, loadBase, Action.perform_bind, Action.perform_pure]
    dsimp only
    rw [Action.perform_bind, Action.perform_mapFault]
    rcases (Build.build .empty [l] description created arch).perform w with ⟨fault | j, w1⟩ <;> exact .same _

/-- Every build concurs with the one that treats a single layer like any other number of them. -/
theorem concur_buildBy (r : BuildRequest) (epoch : Option String) :
    (build r epoch).Concur (buildBy produceGenerally r epoch) := by
  rw [← buildBy_produce]
  refine .after (keepsFiles_describe r) fun description => .bind (.mapFault ?_ _) _
  refine .after (.ofExcept _) fun arch => .after (.ofExcept _) fun created =>
    .after ((keepsFiles_openLayers r.layers).mapFault _) fun layers => ?_
  split
  · next hbase => exact concur_assemble hbase _ description created arch
  · exact .refl _

end CommandLine

/-- An image of one layer on nothing is written just if its name can be read, it can be built like any other image and
it can be written, and then the same is written. That there is no image is never an error. A build on the command line
that treats one layer like any other number of them succeeds just if the build does, and leaves the same files. -/
theorem single_layer_concurs (reference : String) (l : Layer) (path : String) (description : Configuration)
    (created : Time.Instant) (arch : Architecture) (r : CommandLine.BuildRequest) (epoch : Option String) :
    (∀ w w', (Export.buildFromLayer reference l path description created arch).perform w = (.ok (), w') ↔
      ∃ tag j w1, Tag.parse reference = .ok tag ∧
        (Build.build .empty [l] description created arch).perform w = (.ok j, w1) ∧
        (Export.writeFile path tag j).perform w1 = (.ok (), w')) ∧
    (∀ w e, ((Export.buildFromLayer reference l path description created arch).perform w).1 = .error e →
      e.kind ≠ .noImage) ∧
    (CommandLine.build r epoch).Concur (CommandLine.buildBy CommandLine.produceGenerally r epoch) :=
  ⟨fun _ _ => Export.buildFromLayer_ok, fun _ _ => Export.kind_of_buildFromLayer_error,
    CommandLine.concur_buildBy r epoch⟩

end ImageAssembly
