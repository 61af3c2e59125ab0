import ImageAssembly.Proofs.Export.Failing

/-! What an export has written that succeeds. The files are what they were but for the archive, and the archive is
made of the document, a piece for each digest and the manifest. A piece stands under the digest and the size that are
remembered of its layer, and holds what was read of the layer when its turn came, which of the archive's own file is
as much of it as had left the buffer. -/

namespace ImageAssembly

open Workspace

theorem Files.read_of_openPath {fs : Files} {path : String} {feed : Feed FileFault} {b : ByteArray}
    (h : fs.openPath path = .ok feed) (hb : feed.fold (· ++ ·) .empty = .ok b) : fs.read path = .ok b := by
  rw [openPath] at h
  rw [read]
  cases hf : fs.find path with
  | error fault => simp [hf, bind, Except.bind] at h
  | ok e =>
    cases e with
    | file data =>
      simp only [hf, bind, Except.bind, Pure.pure, Except.pure, Except.ok.injEq] at h ⊢
      rw [← h, Feed.fold_append_ofBytes, Except.ok.injEq] at hb
      exact hb
    | directory =>
      simp only [hf, bind, Except.bind, Pure.pure, Except.pure, Except.ok.injEq] at h
      rw [← h] at hb
      cases hb

namespace Export

open Archive

/-! ### Steps that succeed -/

theorem Writing.perform_bind_ok {α β : Type} {a : Writing α} {f : α → Writing β} {o o' : Output} {y : β}
    (h : (a >>= f).perform o = (.ok y, o')) : ∃ x o1, a.perform o = (.ok x, o1) ∧ (f x).perform o1 = (.ok y, o') := by
  rw [perform_bind] at h
  rcases ha : a.perform o with ⟨_ | x, o1⟩
  · simp [ha] at h
  · exact ⟨x, o1, rfl, by simpa [ha] using h⟩

theorem askLayer_ok {α : Type} {a : Action Layer.Fault α} {x : α} {o o' : Output}
    (h : (askLayer a).perform o = (.ok x, o')) :
    ∃ w, a.perform o.current = (.ok x, w) ∧ o' = { o with workspace := w } := by
  rw [perform_askLayer, Prod.mk.injEq, mapError_eq_ok] at h
  exact ⟨_, Prod.ext h.1 rfl, h.2.symm⟩

theorem current_current (o : Output) : Output.current { o with workspace := o.current } = o.current := by
  rw [Output.current, Output.current, Files.put_put]

/-- What has left the buffer begins what has been written. -/
theorem Sink.exists_bytes_eq (s : Sink) : ∃ more, s.bytes = s.visible ++ more := by
  have h := Bytes.extract_append_extract_size s.bytes 0 s.flushed
  rw [Nat.zero_add, ByteArray.extract_zero_size] at h
  exact ⟨_, h.symm⟩

/-- Whether bytes are read of a layer while the archive at a place shows some bytes. -/
def ReadsAs (fs : Files) (place : Place) (shown b : ByteArray) : Layer → Prop
  | .memory l => l.blob = b
  | .file l => (fs.put place (.file shown)).read l.path = .ok b

/-- The contents of a layer are what is read of it. -/
theorem contents_ok {o : Output} {l : Layer} {feed : Feed FileFault} {b : ByteArray} {w : Workspace}
    (h : l.contents.perform o.current = (.ok feed, w)) (hb : feed.fold (· ++ ·) .empty = .ok b) :
    ReadsAs o.workspace.files o.place o.sink.visible b l ∧ w = o.current := by
  cases l with
  | memory l =>
    rw [Layer.contents, Action.perform_pure, Prod.mk.injEq, Except.ok.injEq] at h
    obtain ⟨rfl, rfl⟩ := h
    rw [Feed.fold_append_ofBytes, Except.ok.injEq] at hb
    exact ⟨hb, rfl⟩
  | file l =>
    rw [Layer.contents, Action.perform_mapFault, Action.perform_ofFiles, Prod.mk.injEq, mapError_eq_ok] at h
    exact ⟨Files.read_of_openPath h.1 hb, h.2.symm⟩

/-- A layer that has told its digest is written as it is remembered and read. -/
theorem writeLayer_ok {l : Layer} {name : String} {s : Digest × Nat} {o o' : Output} (hs : l.Knows o.workspace s)
    (h : (writeLayer name l).perform o = (.ok (), o')) :
    o'.workspace = o.current ∧ o'.place = o.place ∧ ∃ b, ReadsAs o.workspace.files o.place o.sink.visible b l ∧
      o'.sink.bytes = o.sink.bytes ++ ((opening name s.2).foldl (· ++ ·) .empty ++ b ++ filling b.size) := by
  have hs' : l.Knows o.current s := hs
  obtain ⟨size, o1, hsize, h⟩ := Writing.perform_bind_ok h
  obtain ⟨w, hw, rfl⟩ := askLayer_ok hsize
  rw [hs'.size, Prod.mk.injEq, Except.ok.injEq] at hw
  obtain ⟨rfl, rfl⟩ := hw
  obtain ⟨feed, o2, hcontents, h⟩ := Writing.perform_bind_ok h
  obtain ⟨w, hw, rfl⟩ := askLayer_ok hcontents
  rw [current_current] at hw
  dsimp only at h
  rw [Writing.perform_bind] at h
  have hpieces : (writePieces (opening name s.2)).perform ⟨w, o.place, o.sink⟩ =
      (.ok (), ⟨w, o.place, (opening name s.2).foldl Sink.write o.sink⟩) := rfl
  rw [hpieces] at h
  dsimp only at h
  rw [Writing.perform_bind, Writing.perform_get] at h
  dsimp only at h
  split_ifs at h with hown
  · cases h
  · cases hfold : feed.fold (· ++ ·) .empty with
    | error fault =>
      rw [hfold] at h
      cases h
    | ok b =>
      rw [hfold] at h
      obtain ⟨hreads, rfl⟩ := contents_ok hw hfold
      obtain rfl := (Prod.mk.inj h).2
      refine ⟨rfl, rfl, b, hreads, ?_⟩
      simp only [Sink.bytes_write, Sink.bytes_copy, Sink.bytes_foldl_write, ByteArray.append_assoc]

/-! ### Pieces -/

/-- What is written of a layer: a digest and a size for the name and the header, and the bytes behind these. -/
structure Piece where
  layer : Layer
  stored : Digest × Nat
  body : ByteArray

namespace Piece

/-- The bytes of pieces one after another. -/
def join : List Piece → ByteArray
  | [] => .empty
  | p :: ps => (opening (layerName p.stored.1 p.layer.mediaType) p.stored.2).foldl (· ++ ·) .empty ++ p.body ++
      filling p.body.size ++ join ps

/-- The entry of a piece that is true. -/
def entry (p : Piece) : String × ByteArray := (layerName (.sha256 p.body) p.layer.mediaType, p.body)

end Piece

/-- Whether names are those under which layers are listed in turn: each by the digest that is remembered of it and by
its type. -/
def Listed (w : Workspace) : List String → List Layer → Prop :=
  List.Forall₂ fun name l => ∃ s, l.Knows w s ∧ name = layerName s.1 l.mediaType

theorem Listed.later {w w' : Workspace} {names : List String} {ls : List Layer} (h : Listed w names ls)
    (hw : w.Remembers w') : Listed w' names ls :=
  h.imp fun _ _ ⟨s, hs, hname⟩ => ⟨s, hs.later hw, hname⟩

/-- What becomes of an archive while layers are written, those apart whose digests are among `written`. -/
structure Wrote (fs : Files) (place : Place) (written : List Digest) (ls : List Layer) (names : List String)
    (ps : List Piece) (o o' : Output) : Prop where
  samePlace : o'.place = place
  files : ∃ data, o'.workspace.files = fs.put place (.file data)
  remembers : o.workspace.Remembers o'.workspace
  bytes : o'.sink.bytes = o.sink.bytes ++ Piece.join ps
  listed : Listed o'.workspace names ls
  layers : (ps.map (·.layer)).Sublist ls
  apart : (ps.map (·.stored.1)).Nodup
  new : ∀ p ∈ ps, p.stored.1 ∉ written
  digests : ∀ l ∈ ls, ∃ s, l.Knows o'.workspace s ∧ (s.1 ∈ written ∨ s.1 ∈ ps.map (·.stored.1))
  told : ∀ p ∈ ps, p.layer.Knows o'.workspace p.stored
  read : ∀ p ∈ ps, ∃ shown rest, o'.sink.bytes = shown ++ rest ∧ ReadsAs fs place shown p.body p.layer

namespace Wrote

variable {fs : Files} {place : Place} {written : List Digest} {l : Layer} {ls : List Layer} {names : List String}
variable {ps : List Piece} {o o1 o2 o' : Output}

/-- A layer with a digest that has been written leaves no piece. -/
theorem skip {w1 : Workspace} {s : Digest × Nat} (hw : o.workspace.Remembers w1) (hs : l.Knows w1 s)
    (hmem : s.1 ∈ written) (h : Wrote fs place written ls names ps { o with workspace := w1 } o') :
    Wrote fs place written (l :: ls) (layerName s.1 l.mediaType :: names) ps o o' where
  samePlace := h.samePlace
  files := h.files
  remembers := hw.trans h.remembers
  bytes := h.bytes
  listed := .cons ⟨s, hs.later h.remembers, rfl⟩ h.listed
  layers := h.layers.cons l
  apart := h.apart
  new := h.new
  digests := List.forall_mem_cons.2 ⟨⟨s, hs.later h.remembers, .inl hmem⟩, h.digests⟩
  told := h.told
  read := h.read

/-- A layer with a new digest leaves a piece. -/
theorem piece {w1 : Workspace} {s : Digest × Nat} {b : ByteArray} (hw : o.workspace.Remembers w1) (hs : l.Knows w1 s)
    (hnew : s.1 ∉ written) (hw1 : w1.Remembers o1.workspace) (hb : ReadsAs fs place o.sink.visible b l)
    (hbytes : o1.sink.bytes = o.sink.bytes ++
      ((opening (layerName s.1 l.mediaType) s.2).foldl (· ++ ·) .empty ++ b ++ filling b.size))
    (h : Wrote fs place (s.1 :: written) ls names ps o1 o') :
    Wrote fs place written (l :: ls) (layerName s.1 l.mediaType :: names) (⟨l, s, b⟩ :: ps) o o' where
  samePlace := h.samePlace
  files := h.files
  remembers := hw.trans (hw1.trans h.remembers)
  bytes := by rw [h.bytes, hbytes, Piece.join, ByteArray.append_assoc]
  listed := .cons ⟨s, (hs.later hw1).later h.remembers, rfl⟩ h.listed
  layers := h.layers.cons_cons l
  apart := by
    refine List.nodup_cons.2 ⟨fun hmem => ?_, h.apart⟩
    obtain ⟨p, hp, hsame⟩ := List.mem_map.1 hmem
    exact h.new p hp (hsame ▸ List.mem_cons_self)
  new := List.forall_mem_cons.2 ⟨hnew, fun p hp hmem => h.new p hp (List.mem_cons_of_mem _ hmem)⟩
  digests := by
    refine List.forall_mem_cons.2 ⟨⟨s, (hs.later hw1).later h.remembers, .inr (by simp)⟩, fun k hk => ?_⟩
    obtain ⟨s', hs', hmem⟩ := h.digests k hk
    refine ⟨s', hs', ?_⟩
    rw [List.map_cons, List.mem_cons]
    rcases hmem with hmem | hmem
    · exact (List.mem_cons.1 hmem).symm.imp_right .inl
    · exact .inr (.inr hmem)
  told := List.forall_mem_cons.2 ⟨(hs.later hw1).later h.remembers, h.told⟩
  read := by
    obtain ⟨more, hmore⟩ := o.sink.exists_bytes_eq
    have hshown : ∃ rest, o'.sink.bytes = o.sink.visible ++ rest :=
      ⟨_, by rw [h.bytes, hbytes, hmore, ByteArray.append_assoc, ByteArray.append_assoc]⟩
    exact List.forall_mem_cons.2 ⟨hshown.elim fun rest hrest => ⟨_, rest, hrest, hb⟩, h.read⟩

end Wrote

theorem writeEntry_ok {name : String} {body : ByteArray} {o o' : Output}
    (h : (writeEntry name body).perform o = (.ok (), o')) :
    o'.workspace = o.workspace ∧ o'.place = o.place ∧ o'.sink.bytes = o.sink.bytes ++ record name body := by
  rw [perform_writeEntry] at h
  obtain rfl := (Prod.mk.inj h).2
  simp only [Sink.bytes_write, Sink.bytes_copy, Sink.bytes_foldl_write, record, ByteArray.append_assoc, and_self]

/-- The course of an export that succeeds: the document is written first, then the layers, and last a manifest that
lists the layers by their names. -/
structure Course (tag : Tag) (i : Image) (w w' : Workspace) (place : Place) (names : List String) (o o' : Output) :
    Prop where
  place_eq : o.place = place
  begun : o.workspace = { w with files := w.files.put place (.file .empty) }
  document : o.sink.bytes = record i.manifest.config.digest.toText i.rawConfig
  layers : (writeLayers [] i.layers).perform o = (.ok names, o')
  ended : w' = { o'.workspace with files := o'.workspace.files.put place (.file (o'.sink.bytes ++
    record manifestName (manifestValue i.manifest.config.digest.toText tag names).toBytes ++ ending)) }

theorem course_of_writeFile {path : String} {tag : Tag} {i : Image} {w w' : Workspace}
    (h : (writeFile path tag i).perform w = (.ok (), w')) :
    ∃ place names o o', w.files.writablePlace path = .ok place ∧ Course tag i w w' place names o o' := by
  rw [perform_writeFile] at h
  cases hplace : w.files.writablePlace path with
  | error fault => simp [hplace] at h
  | ok place =>
    rw [hplace] at h
    dsimp only at h
    rcases hrun : (writeImage tag i).perform ⟨{ w with files := w.files.put place (.file .empty) }, place, .empty⟩
      with ⟨outcome, o''⟩
    rw [hrun, Prod.mk.injEq] at h
    obtain ⟨rfl, rfl⟩ := h
    obtain ⟨_, o, hdocument, hrest⟩ := Writing.perform_bind_ok hrun
    obtain ⟨hworkspace, hplaced, hbytes⟩ := writeEntry_ok hdocument
    obtain ⟨names, o', hlayers, hmanifest⟩ := Writing.perform_bind_ok hrest
    obtain ⟨hworkspace', -, hbytes'⟩ := writeEntry_ok hmanifest
    exact ⟨place, names, o, o', rfl, {
      place_eq := hplaced
      begun := hworkspace
      document := by rw [hbytes, Sink.empty, ByteArray.empty_append]
      layers := hlayers
      ended := by rw [hworkspace', hbytes'] }⟩

/-- A file that an export has written begins with the document and ends with a manifest of the image under its name,
whatever stands between them. -/
theorem ends_of_writeFile {path : String} {tag : Tag} {i : Image} {w w' : Workspace}
    (h : (writeFile path tag i).perform w = (.ok (), w')) :
    ∃ more names, w'.files.read path = .ok (record i.manifest.config.digest.toText i.rawConfig ++ more ++
      record manifestName (manifestValue i.manifest.config.digest.toText tag names).toBytes ++ ending) := by
  obtain ⟨place, names, o, o', hplace, hcourse⟩ := course_of_writeFile h
  have hstart : Underway w.files place (record i.manifest.config.digest.toText i.rawConfig) o :=
    ⟨hcourse.place_eq, ⟨.empty, by rw [hcourse.begun]⟩, .empty, by simp [hcourse.document]⟩
  have hlater := Continues.layers [] i.layers o hstart
  rw [hcourse.layers] at hlater
  obtain ⟨-, ⟨data, hdata⟩, more, hmore⟩ := hlater
  obtain ⟨hresolve, hd⟩ := Files.writablePlace_ok hplace
  refine ⟨more, names, ?_⟩
  rw [hcourse.ended, hmore, hdata, Files.put_put]
  exact Files.read_put hresolve hd

end Export

end ImageAssembly
