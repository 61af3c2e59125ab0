import ImageAssembly.Proofs.Export.Loading
import ImageAssembly.Proofs.Files.Keeping

/-! Exports that fail. Up to the moment at which the archive is created no file is touched. From then on the archive
is the one file that changes, and where writing fails what has been written of it stays, properly ended. -/

namespace ImageAssembly.Files

/-- What is put at a place last counts. -/
theorem put_put (fs : Files) (place : Place) (e e' : Entry) : (fs.put place e).put place e' = fs.put place e' := by
  simp [put, List.filter_filter]

end ImageAssembly.Files

namespace ImageAssembly.Export

open Workspace Archive

/-! ### What every step of writing keeps -/

/-- Whether nothing but an archive that begins with given bytes differs from some files. -/
structure Underway (fs : Files) (place : Place) (start : ByteArray) (o : Output) : Prop where
  samePlace : o.place = place
  files : ∃ data, o.workspace.files = fs.put place (.file data)
  bytes : ∃ more, o.sink.bytes = start ++ more

/-- Whether a step of writing, failing or not, leaves an archive underway. -/
def Continues {α : Type} (fs : Files) (place : Place) (start : ByteArray) (a : Writing α) : Prop :=
  ∀ o, Underway fs place start o → Underway fs place start (a.perform o).2

namespace Continues

variable {α β : Type} {fs : Files} {place : Place} {start : ByteArray}

theorem pure (x : α) : Continues fs place start (Pure.pure x) := fun _ ho => ho

theorem throw (fault : Fault) : Continues fs place start (MonadExcept.throw fault : Writing α) := fun _ ho => ho

theorem bind {a : Writing α} {f : α → Writing β} (ha : Continues fs place start a)
    (hf : ∀ x, Continues fs place start (f x)) : Continues fs place start (a >>= f) := by
  intro o ho
  have h := ha o ho
  rw [Writing.perform_bind]
  rcases hp : a.perform o with ⟨fault | x, o'⟩
  · rwa [hp] at h
  · rw [hp] at h
    exact hf x o' h

/-- A step that looks at the archive first. -/
theorem get_bind {f : Output → Writing β} (hf : ∀ o, Continues fs place start (f o)) :
    Continues fs place start (get >>= f) := fun o ho => hf o o ho

/-- Only the buffer changes. -/
theorem sink (f : Sink → Sink) (hf : ∀ s : Sink, ∃ more, (f s).bytes = s.bytes ++ more) :
    Continues fs place start (modify fun o => { o with sink := f o.sink } : Writing Unit) := by
  intro o ho
  obtain ⟨more, hmore⟩ := ho.bytes
  obtain ⟨more', hmore'⟩ := hf o.sink
  exact ⟨ho.samePlace, ho.files, more ++ more', by rw [← ByteArray.append_assoc, ← hmore]; exact hmore'⟩

theorem writePieces (pieces : List ByteArray) : Continues fs place start (Export.writePieces pieces) :=
  sink _ fun s => ⟨_, Sink.bytes_foldl_write pieces s⟩

theorem copyBody (body : ByteArray) : Continues fs place start (Export.copyBody body) :=
  sink (fun s => (s.copy body).write (filling body.size)) fun s =>
    ⟨body ++ filling body.size, by rw [Sink.bytes_write, Sink.bytes_copy, ByteArray.append_assoc]⟩

theorem entry (name : String) (body : ByteArray) : Continues fs place start (writeEntry name body) :=
  (writePieces _).bind fun _ => copyBody body

/-- Asking a layer changes no file but the archive, which is shown as far as it has left the buffer. -/
theorem ask {a : Action Layer.Fault α} (ha : a.Leads KeepsFiles) : Continues fs place start (askLayer a) := by
  intro o ho
  obtain ⟨data, hdata⟩ := ho.files
  have hfiles : (a.perform o.current).2.files = o.workspace.files.put o.place (.file o.sink.visible) := ha o.current
  rw [hdata, ho.samePlace, Files.put_put] at hfiles
  rw [perform_askLayer]
  exact ⟨ho.samePlace, ⟨_, hfiles⟩, ho.bytes⟩

theorem layer (name : String) (l : Layer) : Continues fs place start (writeLayer name l) := by
  refine (ask l.asks_keepsFiles.size).bind fun size => (ask (l.leads_contents _)).bind fun contents =>
    (writePieces _).bind fun _ => get_bind fun o => ?_
  cases contents.fold (· ++ ·) .empty with
  | ok body =>
    split_ifs
    · exact (throw _).bind fun _ => copyBody body
    · exact copyBody body
  | error fault =>
    split_ifs
    · exact (throw _).bind fun _ => throw _
    · exact throw _

theorem layers (written : List Digest) (ls : List Layer) : Continues fs place start (writeLayers written ls) := by
  induction ls generalizing written with
  | nil => exact pure _
  | cons l ls ih =>
    rw [writeLayers]
    refine (ask l.asks_keepsFiles.digest).bind fun digest => ?_
    dsimp only
    split_ifs
    · exact (ih written).bind fun _ => pure _
    · exact (layer _ l).bind fun _ => (ih _).bind fun _ => pure _

end Continues

/-- An entry of known content is always written. -/
theorem perform_writeEntry (name : String) (body : ByteArray) (o : Output) :
    (writeEntry name body).perform o = (.ok (), { o with
      sink := (((opening name body.size).foldl Sink.write o.sink).copy body).write (filling body.size) }) := rfl

/-- An archive begins with the document, whatever comes of it. -/
theorem underway_writeImage (w : Workspace) (place : Place) (tag : Tag) (i : Image) :
    Underway w.files place (record i.manifest.config.digest.toText i.rawConfig)
      ((writeImage tag i).perform ⟨{ w with files := w.files.put place (.file .empty) }, place, .empty⟩).2 := by
  rw [writeImage, Writing.perform_bind, perform_writeEntry]
  refine (Continues.layers [] i.layers).bind (fun names => .entry _ _) _ ⟨rfl, ⟨_, rfl⟩, .empty, ?_⟩
  rw [Sink.bytes_write, Sink.bytes_copy, Sink.bytes_foldl_write, Sink.empty, ByteArray.empty_append,
    ByteArray.append_empty, record]

theorem perform_writeFile (path : String) (tag : Tag) (i : Image) (w : Workspace) :
    (writeFile path tag i).perform w = match w.files.writablePlace path with
      | .error fault => (.error (.create path fault), w)
      | .ok place =>
        let written := (writeImage tag i).perform
          ⟨{ w with files := w.files.put place (.file .empty) }, place, .empty⟩
        (written.1, { written.2.workspace with
          files := written.2.workspace.files.put place (.file (written.2.sink.bytes ++ ending)) }) := by
  rw [writeFile, Action.perform_bind, Action.perform_ofFiles]
  cases w.files.writablePlace path <;> rfl

/-! ### What is left -/

/-- What an export leaves that has come to write an archive with a document: the files as they were where the archive
could not be created, and otherwise the archive, which begins with the document and is properly ended. -/
structure Left (path : String) (w w' : Workspace) : Prop where
  refused : ∀ fault, w.files.writablePlace path = .error fault → w'.files = w.files
  created : ∀ place, w.files.writablePlace path = .ok place →
    ∃ name document more, w'.files = w.files.put place (.file (record name document ++ more ++ ending))

/-- Writing changes no file but the archive. -/
theorem left_writeFile {path : String} {tag : Tag} {i : Image} {w w' : Workspace} {outcome : Except Fault Unit}
    (h : (writeFile path tag i).perform w = (outcome, w')) : Left path w w' := by
  rw [perform_writeFile] at h
  constructor
  · intro fault hfault
    rw [hfault, Prod.mk.injEq] at h
    rw [← h.2]
  · intro place hplace
    simp only [hplace, Prod.mk.injEq] at h
    obtain ⟨-, ⟨data, hdata⟩, more, hmore⟩ := underway_writeImage w place tag i
    refine ⟨i.manifest.config.digest.toText, i.rawConfig, more, ?_⟩
    rw [← h.2, hdata, hmore, Files.put_put]

theorem Left.later {path : String} {w w' w'' : Workspace} (h : Left path w' w'') (hw : w.KeepsFiles w') :
    Left path w w'' := by
  have hfiles : w'.files = w.files := hw
  obtain ⟨hrefused, hcreated⟩ := h
  rw [hfiles] at hrefused hcreated
  exact ⟨hrefused, hcreated⟩

/-- Whether work that fails leaves the files as they were, unless it fails with an error of writing and leaves what
an export does. -/
def Spares {ε α : Type} (path : String) (writing : ε → Prop) (a : Action ε α) : Prop :=
  ∀ w e w', a.perform w = (.error e, w') → w'.files = w.files ∨ writing e ∧ Left path w w'

/-- An error of writing. -/
def IsWriting (e : Error) : Prop := ∃ fault, e = .write fault

namespace Spares

variable {ε δ α β : Type} {path : String} {writing : ε → Prop}

theorem of_keepsFiles {a : Action ε α} (ha : a.Leads KeepsFiles) : Spares path writing a :=
  fun _ _ _ h => .inl (ha.of_perform h)

/-- The first part leaves the files as they are. -/
theorem bind {a : Action ε α} {f : α → Action ε β} (ha : a.Leads KeepsFiles) (hf : ∀ x, Spares path writing (f x)) :
    Spares path writing (a >>= f) := by
  intro w e w' h
  have hw := ha w
  rw [Action.perform_bind] at h
  rcases hp : a.perform w with ⟨fault | x, w1⟩
  · rw [hp, Prod.mk.injEq] at h
    rw [hp] at hw
    exact .inl (h.2 ▸ hw)
  · rw [hp] at h hw
    rcases hf x w1 e w' h with hfiles | ⟨he, hleft⟩
    · exact .inl (hfiles.trans hw)
    · exact .inr ⟨he, hleft.later hw⟩

/-- The second part does not fail. -/
theorem bind_ok {a : Action ε α} {f : α → Action ε β} (ha : Spares path writing a)
    (hf : ∀ x w, ∃ y, ((f x).perform w).1 = .ok y) : Spares path writing (a >>= f) := by
  intro w e w' h
  rw [Action.perform_bind] at h
  rcases hp : a.perform w with ⟨fault | x, w1⟩
  · rw [hp, Prod.mk.injEq, Except.error.injEq] at h
    obtain ⟨rfl, rfl⟩ := h
    exact ha w fault w1 hp
  · obtain ⟨y, hy⟩ := hf x w1
    rw [hp] at h
    dsimp only at h
    rw [h] at hy
    cases hy

theorem mapFault {writing' : δ → Prop} {a : Action ε α} {f : ε → δ} (ha : Spares path writing a)
    (hf : ∀ e, writing e → writing' (f e)) : Spares path writing' (a.mapFault f) := by
  intro w e w' h
  rw [Action.perform_mapFault] at h
  rcases hp : a.perform w with ⟨fault | x, w1⟩
  · rw [hp, Prod.mk.injEq] at h
    obtain ⟨herror, rfl⟩ := h
    cases herror
    exact (ha w fault w1 hp).imp_right fun ⟨he, hleft⟩ => ⟨hf fault he, hleft⟩
  · rw [hp, Prod.mk.injEq] at h
    cases h.1

theorem writeFile (path : String) (tag : Tag) (i : Image) :
    Spares path (fun _ => True) (Export.writeFile path tag i) :=
  fun _ _ _ h => .inr ⟨trivial, left_writeFile h⟩

theorem buildFromLayer (reference : String) (l : Layer) (path : String) (description : Configuration)
    (created : Time.Instant) (arch : Architecture) :
    Spares path IsWriting (Export.buildFromLayer reference l path description created arch) := by
  refine bind (.mapFault (Build.keepsFiles_build _ _ _ _ _) _) fun image => ?_
  have hwrite : ∀ tag, Spares path IsWriting ((Export.writeFile path tag image).mapFault .write) :=
    fun tag => (writeFile path tag image).mapFault fun fault _ => ⟨fault, rfl⟩
  have hrest : Spares path IsWriting (do
      let tag ← Action.ofExcept ((Tag.parse reference).mapError .tag)
      (Export.writeFile path tag image).mapFault .write) := bind (.ofExcept _) hwrite
  split_ifs
  · exact of_keepsFiles fun _ => rfl
  · exact hrest

theorem assemble (r : CommandLine.BuildRequest) (layers : List Layer) (description : Configuration)
    (created : Time.Instant) (arch : Architecture) :
    Spares r.output IsWriting (CommandLine.assemble r layers description created arch) :=
  bind (.ofExcept _) fun tag => bind (CommandLine.keepsFiles_loadBase r.base) fun _ =>
    bind (.mapFault (Build.keepsFiles_build _ _ _ _ _) _) fun image =>
      (writeFile r.output tag image).mapFault fun fault _ => ⟨fault, rfl⟩

theorem produce (r : CommandLine.BuildRequest) (description : Configuration) (epoch : Option String) :
    Spares r.output IsWriting (CommandLine.produce r description epoch) := by
  refine bind (.ofExcept _) fun arch => bind (.ofExcept _) fun created =>
    bind (.mapFault (CommandLine.keepsFiles_openLayers r.layers) _) fun layers => ?_
  split
  · exact buildFromLayer _ _ _ _ _ _
  · exact assemble _ _ _ _ _

theorem build (r : CommandLine.BuildRequest) (epoch : Option String) :
    Spares r.output (fun failure => ∃ e, failure = .error e ∧ IsWriting e) (CommandLine.build r epoch) :=
  bind (CommandLine.keepsFiles_describe r) fun description =>
    ((produce r description epoch).mapFault fun e he => ⟨e, rfl, he⟩).bind_ok fun _ _ => ⟨_, rfl⟩

end Spares

/-- An export or a build on the command line that fails leaves every file as it was, unless it fails in writing the
archive. Then no other file has changed, and the archive stands where it was to be written, unless it could not be
created. -/
theorem failed_export_changes_only_archive (path : String) (tag : Tag) (i : Image) (reference : String) (l : Layer)
    (description : Configuration) (created : Time.Instant) (arch : Architecture) (r : CommandLine.BuildRequest)
    (epoch : Option String) :
    Spares path (fun _ => True) (writeFile path tag i) ∧
    Spares path IsWriting (buildFromLayer reference l path description created arch) ∧
    Spares r.output (fun failure => ∃ e, failure = .error e ∧ IsWriting e) (CommandLine.build r epoch) :=
  ⟨Spares.writeFile path tag i, Spares.buildFromLayer reference l path description created arch, Spares.build r epoch⟩

/-! ### A layer file that is gone -/

/-- An image cannot be written whose first layer has been hashed, but cannot be opened. -/
theorem exists_fault_of_missing {path : String} {tag : Tag} {i : Image} {w : Workspace} {place : Place}
    {l : FileLayer} {ls : List Layer} {s : Digest × Nat} {fault : FileFault}
    (hplace : w.files.writablePlace path = .ok place) (hlayers : i.layers = .file l :: ls)
    (hs : (Layer.file l).Knows w s)
    (hgone : ∀ data, (w.files.put place (.file data)).openPath l.path = .error fault) :
    ((writeFile path tag i).perform w).1 = .error (.layer (.openContents l.path fault)) := by
  -- the archive does not matter to what is remembered
  have hknown : ∀ data, (Layer.file l).Knows ⟨w.files.put place (.file data), w.memos⟩ s := fun _ => hs
  rw [perform_writeFile, hplace]
  dsimp only
  rw [writeImage, Writing.perform_bind, perform_writeEntry]
  dsimp only
  rw [Writing.perform_bind, hlayers, writeLayers, Writing.perform_bind, perform_askLayer, Output.current]
  dsimp only
  rw [Files.put_put, (hknown _).digest]
  simp only [Except.mapError, List.not_mem_nil, if_false]
  rw [Writing.perform_bind, writeLayer, Writing.perform_bind, perform_askLayer, Output.current]
  dsimp only
  rw [Files.put_put, (hknown _).size]
  simp only [Except.mapError]
  rw [Writing.perform_bind, perform_askLayer, Output.current]
  dsimp only
  rw [Files.put_put, Layer.contents, Action.perform_mapFault, Action.perform_ofFiles]
  simp only [hgone, Except.mapError]

/-- An image is built of a layer file, and then the file is removed. Where there was nothing before, an archive stands
after the image could not be written. -/
theorem failed_export_leaves_archive : ∃ j w1 files w2 fault,
    (Build.build .empty [.file ⟨0, "g", .layerGzip⟩] {} .epoch ⟨"amd64", ""⟩).perform twoTypesWorkspace =
      (.ok j, w1) ∧
    w1.files.remove "g" = .ok files ∧ files.pathExists "out.tar" = false ∧
    (writeFile "out.tar" twoTypesTag j).perform { w1 with files } = (.error fault, w2) ∧
    w2.files.pathExists "out.tar" = true := by
  have hsub : ∀ l ∈ [Layer.file ⟨0, "g", .layerGzip⟩], l ∈ repeatedLayer := by simp [repeatedLayer]
  have hopened : twoTypesWorkspace.Opened [.file ⟨0, "g", .layerGzip⟩] :=
    ⟨fun l hl => opened_repeatedLayer.held l (hsub l hl),
      fun a b ha hb => opened_repeatedLayer.own a b (hsub _ ha) (hsub _ hb)⟩
  have hyears : Time.Instant.HasPlainYear .epoch := by decide
  obtain ⟨j, w1, hbuild⟩ := Build.exists_build_empty hopened (fun l hl => tells_repeatedLayer l (hsub l hl))
    ((Build.plainYears_empty_iff (by simp)).2 hyears) ⟨"amd64", ""⟩
  have hfiles : w1.files = twoTypesWorkspace.files := (Build.keepsFiles_build _ _ _ _ _).of_perform hbuild
  have hremove : w1.files.remove "g" = .ok .empty := hfiles ▸ rfl
  obtain ⟨⟨s, hs⟩, -⟩ := Build.known_of_build hopened.held hbuild _ (List.mem_singleton_self _)
  have hfails := @exists_fault_of_missing "out.tar" twoTypesTag j ⟨.empty, w1.memos⟩ ["out.tar"] _ [] s .notFound rfl
    (Build.layers_of_build hbuild) hs fun _ => rfl
  rcases hwrite : (writeFile "out.tar" twoTypesTag j).perform ⟨.empty, w1.memos⟩ with ⟨outcome, w2⟩
  rw [hwrite] at hfails
  obtain ⟨name, document, more, hleft⟩ := (left_writeFile hwrite).created ["out.tar"] rfl
  refine ⟨j, w1, .empty, w2, _, hbuild, hremove, rfl, by rw [hwrite, ← hfails], ?_⟩
  rw [hleft]
  rfl

end ImageAssembly.Export
