import ImageAssembly.Proofs.Build.Interchange
import ImageAssembly.Proofs.Export.Failing

/-! Exports of interchangeable layers. Two archives are written abreast, one from each side of the pairs; byte for byte
they are the same. -/

namespace ImageAssembly.Export

open Workspace

/-! ### Steps of writing -/

/-- Whether two archives with the same bytes are being written at one place, where layers are in interchangeable
pairs. -/
structure Abreast (pairs : List (Layer × Layer)) (o o' : Output) : Prop where
  place : o'.place = o.place
  sink : o'.sink = o.sink
  coupled : Coupled (some o.place) pairs o.workspace o'.workspace
  notDirectory : o.workspace.files.entryAt? o.place ≠ some .directory

namespace Abreast

variable {α : Type} {pairs upper : List (Layer × Layer)} {p : Layer × Layer} {o o' : Output}

theorem sinks (f : Sink → Sink) : InStep (Abreast pairs) Fault.kind (· = ·)
    (modify fun o => { o with sink := f o.sink } : Writing Unit) (modify fun o => { o with sink := f o.sink }) :=
  .modify fun _ _ h => ⟨h.place, by rw [h.sink], h.coupled, h.notDirectory⟩

theorem writePieces (pieces : List ByteArray) :
    InStep (Abreast pairs) Fault.kind (· = ·) (Export.writePieces pieces) (Export.writePieces pieces) :=
  sinks fun s => pieces.foldl Sink.write s

theorem copyBody (body : ByteArray) :
    InStep (Abreast pairs) Fault.kind (· = ·) (Export.copyBody body) (Export.copyBody body) :=
  sinks fun s => (s.copy body).write (Archive.filling body.size)

theorem entry (name : String) (body : ByteArray) :
    InStep (Abreast pairs) Fault.kind (· = ·) (writeEntry name body) (writeEntry name body) :=
  (writePieces _).bind fun _ _ _ => copyBody body

/-- While layers are asked the archives show equally much. -/
theorem ask {f : Layer → Action Layer.Fault α} (hask : Layer.IsQuestion f) (hp : p ∈ pairs) :
    InStep (Abreast pairs) Fault.kind (· = ·) (askLayer (f p.1)) (askLayer (f p.2)) := by
  intro o o' h
  have hcurrent : Coupled (some o.place) pairs o.current o'.current := by
    rw [Output.current, Output.current, h.place, h.sink]
    exact h.coupled.put h.notDirectory _
  obtain ⟨houtcome, hafter⟩ := Coupled.ask hask hp _ _ hcurrent
  have hfiles := (hask.learns (Coupled.mem_left hp) hcurrent.left.own o.current).files
  have ho := perform_askLayer (f p.1) o
  have ho' := perform_askLayer (f p.2) o'
  rw [Writing.perform] at ho ho'
  rw [ho, ho']
  refine ⟨houtcome.mapError fun _ _ => id, h.place, h.sink, hafter, ?_⟩
  dsimp only
  rw [hfiles, Output.current, Files.entryAt?_put_self _ h.notDirectory]
  simp

/-- A layer whose file is the archive is the same layer on both sides. -/
theorem isOwnFile_eq (h : Abreast pairs o o') (hp : p ∈ pairs) : isOwnFile o' p.2 = isOwnFile o p.1 := by
  have hapart : ∀ {o : Output} {l : Layer} {b : ByteArray}, l.HeldApart o.workspace.files o.place b →
      isOwnFile o l = false := by
    intro o l b hl
    cases l with
    | memory l => rfl
    | file l => exact isOwnFile_of_holdsApart hl
  rcases h.coupled.alike p hp with ⟨b, t, hl, hm⟩ | ⟨hp', -⟩
  · have hm' := hm.apart o.place rfl
    rw [← h.place] at hm'
    rw [hapart (hl.apart o.place rfl), hapart hm']
  · rw [hp']
    cases p.1 with
    | memory l => rfl
    | file l => rw [isOwnFile, isOwnFile, h.coupled.files, h.place]

theorem layer (name : String) (hp : p ∈ pairs) :
    InStep (Abreast pairs) Fault.kind (· = ·) (writeLayer name p.1) (writeLayer name p.2) := by
  refine (ask Layer.isQuestion_size hp).bind fun size _ hsize => ?_
  refine (ask Layer.isQuestion_contents hp).bind fun contents _ hcontents => ?_
  rw [← hsize, ← hcontents]
  refine (writePieces _).bind fun _ _ _ => .get_bind fun o o' h => ?_
  rw [h.isOwnFile_eq hp, h.sink]
  cases contents.fold (· ++ ·) .empty with
  | ok body =>
    split_ifs
    · exact .throw_bind rfl
    · exact copyBody body
  | error fault =>
    split_ifs
    · exact .throw_bind rfl
    · exact .throw rfl

theorem layers (written : List Digest) (hupper : upper ⊆ pairs) : InStep (Abreast pairs) Fault.kind (· = ·)
    (writeLayers written (upper.map Prod.fst)) (writeLayers written (upper.map Prod.snd)) := by
  induction upper generalizing written with
  | nil => exact .pure rfl
  | cons p upper ih =>
    rw [List.cons_subset] at hupper
    refine .given fun o o' h => ?_
    have htype := (h.coupled.alike p hupper.1).mediaType
    rw [List.map_cons, List.map_cons, writeLayers, writeLayers]
    refine (ask Layer.isQuestion_digest hupper.1).bind fun digest _ hdigest => ?_
    rw [← hdigest, htype]
    dsimp only
    split_ifs
    · exact (ih written hupper.2).bind fun names _ hnames => .pure (by rw [hnames])
    · exact (layer _ hupper.1).bind fun _ _ _ => (ih _ hupper.2).bind fun names _ hnames => .pure (by rw [hnames])

theorem image {i i' : Image} (tag : Tag) (hi : i.Twins pairs i') :
    InStep (Abreast pairs) Fault.kind (· = ·) (writeImage tag i) (writeImage tag i') := by
  obtain ⟨base, rfl, rfl⟩ := hi
  refine (entry _ _).bind fun _ _ _ => (layers [] (List.Subset.refl pairs)).bind fun names _ hnames => ?_
  rw [← hnames]
  exact entry _ _

end Abreast

/-! ### Whole archives -/

/-- Whether two images, each in a workspace of its own, come to the same: manifest and document are the same bytes, and
under every name they are written to a path as the same archive, or with errors of one kind. -/
structure Equivalent (path : String) (w v : Workspace) (i i' : Image) : Prop where
  rawManifest : i'.rawManifest = i.rawManifest
  rawConfig : i'.rawConfig = i.rawConfig
  outcome : ∀ tag, Matched Fault.kind (· = ·) ((writeFile path tag i).perform w).1 ((writeFile path tag i').perform v).1
  files : ∀ tag, ((writeFile path tag i').perform v).2.files = ((writeFile path tag i).perform w).2.files

/-- Whether two builds come to the same: to errors of one kind, or to images that do. -/
def Agree (path : String) (left right : Except Build.Fault Image × Workspace) : Prop :=
  Matched Build.Fault.kind (Equivalent path left.2 right.2) left.1 right.1

variable {pairs lower upper : List (Layer × Layer)} {path : String} {w v : Workspace} {i i' : Image}

theorem equivalent_of_twins (hi : i.Twins pairs i') (h : Coupled (w.files.writablePlace path).toOption pairs w v) :
    Equivalent path w v i i' := by
  have hwritten : ∀ tag,
      Matched Fault.kind (· = ·) ((writeFile path tag i).perform w).1 ((writeFile path tag i').perform v).1 ∧
      ((writeFile path tag i').perform v).2.files = ((writeFile path tag i).perform w).2.files := by
    intro tag
    rw [perform_writeFile, perform_writeFile, h.files]
    cases hplace : w.files.writablePlace path with
    | error fault => exact ⟨.error rfl, h.files⟩
    | ok place =>
      obtain ⟨-, hd⟩ := Files.writablePlace_ok hplace
      rw [hplace] at h
      have hcoupled := h.put hd .empty
      rw [h.files] at hcoupled
      have hstart : Abreast pairs ⟨{ w with files := w.files.put place (.file .empty) }, place, .empty⟩
          ⟨{ v with files := w.files.put place (.file .empty) }, place, .empty⟩ := by
        refine ⟨rfl, rfl, hcoupled, ?_⟩
        rw [Files.entryAt?_put_self _ hd]
        simp
      obtain ⟨houtcome, hend⟩ := Abreast.image tag hi _ _ hstart
      refine ⟨houtcome, ?_⟩
      dsimp only [Writing.perform]
      rw [hend.coupled.files, hend.sink]
  refine ⟨?_, hi.rawConfig, fun tag => (hwritten tag).1, fun tag => (hwritten tag).2⟩
  rw [Image.rawManifest, Image.rawManifest, hi.manifest]

/-- What is built on interchangeable layers comes to the same. -/
theorem agree_build (h : Coupled (w.files.writablePlace path).toOption (lower ++ upper) w v) (base : Image)
    (description : Configuration) (created : Time.Instant) (arch : Architecture) :
    Agree path
      ((Build.build (base.restack (lower.map Prod.fst)) (upper.map Prod.fst) description created arch).perform w)
      ((Build.build (base.restack (lower.map Prod.snd)) (upper.map Prod.snd) description created arch).perform v) := by
  obtain ⟨houtcome, hafter⟩ := Build.inStep_build base description created arch w v h
  have hfiles := Build.keepsFiles_build (base.restack (lower.map Prod.fst)) (upper.map Prod.fst) description created
    arch w
  rw [KeepsFiles] at hfiles
  refine houtcome.imp fun i i' hi => equivalent_of_twins hi ?_
  rw [hfiles]
  exact hafter

end ImageAssembly.Export

namespace ImageAssembly

open Workspace Export

/-- A file that holds given bytes can be opened as a layer, and while it holds them the layer tells what a layer of the
bytes in memory does. Layers that were made of the same bytes, in whatever way, are interchangeable wherever their files
hold them, at whatever paths and whatever has been asked of them. If any layers of a base and of a build are exchanged
for such, both builds fail with errors of one kind, or the images come to the same. -/
theorem layers_interchangeable :
    (∀ (w : Workspace) (path : String) (b : ByteArray), w.files.read path = .ok b →
      ∃ l w', (FileLayer.openPath path).perform w = (.ok l, w') ∧ w.Remembers w' ∧ w'.files = w.files ∧
        w'.Holds (.file l) ∧ (Layer.file l).Unchanged w' b ∧
        (Layer.file l).Asks (fun v v' => (Layer.file l).Unchanged v b → (Layer.file l).Unchanged v' b) ∧
        ∀ v, (Layer.file l).Unchanged v b → l.Mirrors v b) ∧
    (∀ (b : ByteArray) (l m : Layer) (written : Option Place) (w v : Workspace), Layer.Made b l → Layer.Made b m →
      l.Unchanged w b → m.Unchanged v b →
      (∀ place ∈ written, l.HeldApart w.files place b ∧ m.HeldApart v.files place b) →
      Layer.Alike written w v (l, m)) ∧
    ∀ (base : Image) (lower upper : List (Layer × Layer)) (description : Configuration) (created : Time.Instant)
      (arch : Architecture) (path : String) (w v : Workspace),
      Coupled (w.files.writablePlace path).toOption (lower ++ upper) w v →
      Agree path
        ((Build.build (base.restack (lower.map Prod.fst)) (upper.map Prod.fst) description created arch).perform w)
        ((Build.build (base.restack (lower.map Prod.snd)) (upper.map Prod.snd) description created arch).perform
          v) := by
  refine ⟨fun w path b hread => ?_, fun b l m written w v hl hm hw hv hapart => ?_,
    fun base lower upper description created arch path w v h => agree_build h base description created arch⟩
  · obtain ⟨l, w', hopen⟩ : ∃ l w', (FileLayer.openPath path).perform w = (.ok l, w') :=
      ⟨_, _, Layer.perform_openPath hread⟩
    obtain ⟨hremembers, hfiles, hheld, hunchanged⟩ := Layer.unchanged_openPath hread hopen
    have htype := (Layer.openPath_ok hread hopen).2
    exact ⟨l, w', hopen, hremembers, hfiles, hheld, hunchanged, Layer.Unchanged.asks _ b,
      fun v hv => l.mirrors_of_unchanged htype hv⟩
  · exact .inl ⟨b, _, ⟨hl.keeps hw, fun place hplace => (hapart place hplace).1⟩,
      ⟨hm.keeps hv, fun place hplace => (hapart place hplace).2⟩⟩

/-- A compressed layer in memory is exchanged for the file that holds its bytes. -/
theorem layers_interchangeable_ofTar : ∃ l w j w1 j' w2,
    (FileLayer.openPath "g").perform ⟨twoTypesWorkspace.files, []⟩ = (.ok l, w) ∧
    (Build.build .empty [.memory (.ofTar .empty)] {} .epoch ⟨"amd64", ""⟩).perform w = (.ok j, w1) ∧
    (Build.build .empty [.file l] {} .epoch ⟨"amd64", ""⟩).perform w = (.ok j', w2) ∧
    Equivalent "out.tar" w1 w2 j j' := by
  obtain ⟨hopens, hmade, hbuilds⟩ := layers_interchangeable
  have hread : (⟨twoTypesWorkspace.files, []⟩ : Workspace).files.read "g" = .ok (Gzip.compress .empty) :=
    holdsApart_twoTypes.read
  obtain ⟨l, w, hopen, -, hfiles, hheld, hunchanged, -, -⟩ := hopens ⟨twoTypesWorkspace.files, []⟩ "g" _ hread
  have hpath := (Layer.openPath_ok hread hopen).1
  have hempty : Image.empty.restack [] = .empty := rfl
  have hplace : w.files.writablePlace "out.tar" = .ok ["out.tar"] := by
    rw [hfiles]
    exact writablePlace_twoTypes
  have halike : Layer.Alike (some ["out.tar"]) w w (.memory (.ofTar .empty), .file l) := by
    refine hmade _ _ _ _ w w (Layer.made_ofTar .empty) (.openPath hread hopen) trivial hunchanged ?_
    rintro _ ⟨⟩
    refine ⟨trivial, ?_⟩
    rw [Layer.HeldApart, hfiles, hpath]
    exact holdsApart_twoTypes
  have hcoupled : Coupled (w.files.writablePlace "out.tar").toOption
      ([] ++ [(.memory (.ofTar .empty), .file l)]) w w := by
    rw [hplace]
    refine ⟨rfl, Build.opened_memory w [_], ⟨?_, ?_⟩, ?_⟩
    · simpa using hheld
    · simp +contextual [OwnMemos]
    · rw [List.nil_append, List.forall_mem_singleton]
      exact halike
  have hyears : Time.Instant.HasPlainYear .epoch := by decide
  obtain ⟨j, w1, hbuild⟩ := Build.exists_build_empty (Build.opened_memory w [.ofTar .empty]) (Build.tells_memory [_])
    ((Build.plainYears_empty_iff (by simp)).2 hyears) ⟨"amd64", ""⟩
  have hagree := hbuilds .empty [] [(.memory (.ofTar .empty), .file l)] {} .epoch ⟨"amd64", ""⟩ "out.tar" w w hcoupled
  rw [List.map_singleton] at hbuild
  rw [List.map_nil, List.map_nil, List.map_singleton, List.map_singleton, hempty, hbuild] at hagree
  rcases hbuild' : (Build.build .empty [.file l] {} .epoch ⟨"amd64", ""⟩).perform w with ⟨fault | j', w2⟩ <;>
    rw [hbuild'] at hagree <;> cases hagree
  next hequivalent => exact ⟨l, w, j, w1, j', w2, hopen, hbuild, hbuild', hequivalent⟩

end ImageAssembly
