import ImageAssembly.Proofs.Export.Pieces

/-! Layer files that are rewritten. The name and the size of a layer's entry are those that were learnt when its file
was first hashed, and the body is what the file holds when it is written. An archive holds what its names promise
where the two agree, and need not even be readable where they do not. -/

namespace ImageAssembly.Export

open Workspace Archive

/-- A layer whose file is of the type of plain archives. -/
def plainLayer : FileLayer := ⟨0, "g", .layer⟩

/-- Whether layers are known and can be read, apart from the place of an archive. -/
structure Ready (layers : List Layer) (o : Output) : Prop where
  notDirectory : o.workspace.files.entryAt? o.place ≠ some .directory
  known : ∀ l ∈ layers, ∃ s, l.Knows o.workspace s
  held : ∀ l ∈ layers, ∃ b, l.HeldApart o.workspace.files o.place b

namespace Ready

variable {layers : List Layer} {l : Layer} {o o' : Output}

/-- Layers stay ready while the archive is written. -/
theorem current (h : Ready layers o) (hworkspace : o'.workspace = o.current) (hplace : o'.place = o.place) :
    Ready layers o' := by
  constructor
  · rw [hworkspace, hplace, Output.current, Files.entryAt?_put_self _ h.notDirectory]
    simp
  · rw [hworkspace]
    exact h.known
  · rw [hworkspace, hplace]
    intro l hl
    obtain ⟨b, hb⟩ := h.held l hl
    cases l with
    | memory l => exact ⟨b, trivial⟩
    | file l => exact ⟨b, Files.HoldsApart.put hb h.notDirectory⟩

/-- Layers that are ready can be read. -/
theorem contents (h : Ready layers o) (hl : l ∈ layers) :
    ∃ b, l.contents.perform o.current = (.ok (Feed.ofBytes b), o.current) := by
  have hcurrent : Ready layers { o with workspace := o.current } := h.current rfl rfl
  obtain ⟨b, hb⟩ := hcurrent.held l hl
  cases l with
  | memory l => exact ⟨l.blob, rfl⟩
  | file l =>
    refine ⟨b, ?_⟩
    rw [Layer.contents, Action.perform_mapFault, Action.perform_ofFiles, Files.HoldsApart.openPath hb]
    rfl

theorem isOwnFile_eq_false (h : Ready layers o) (hl : l ∈ layers) : isOwnFile o l = false := by
  obtain ⟨b, hb⟩ := h.held l hl
  cases l with
  | memory l => rfl
  | file l =>
    obtain ⟨p, hp, hne, -⟩ := hb
    rw [isOwnFile, hp]
    exact beq_false_of_ne hne

end Ready

/-- Layers that are ready are written, whatever is remembered of them. -/
theorem exists_writeLayer {layers : List Layer} {l : Layer} {o : Output} (name : String) (h : Ready layers o)
    (hl : l ∈ layers) : ∃ o', (writeLayer name l).perform o = (.ok (), o') := by
  obtain ⟨s, hs⟩ := h.known l hl
  have hs' : l.Knows o.current s := hs
  obtain ⟨b, hb⟩ := h.contents hl
  have hafter : Ready layers ⟨o.current, o.place, (opening name s.2).foldl Sink.write o.sink⟩ := h.current rfl rfl
  have hpieces : (writePieces (opening name s.2)).perform ⟨o.current, o.place, o.sink⟩ =
      (.ok (), ⟨o.current, o.place, (opening name s.2).foldl Sink.write o.sink⟩) := rfl
  rw [writeLayer, Writing.perform_bind, perform_askLayer, hs'.size]
  simp only [Except.mapError]
  rw [Writing.perform_bind, perform_askLayer, current_current, hb]
  simp only [Except.mapError]
  rw [Writing.perform_bind, hpieces]
  dsimp only
  rw [Writing.perform_bind, Writing.perform_get]
  dsimp only
  rw [hafter.isOwnFile_eq_false hl, Feed.fold_append_ofBytes]
  exact ⟨_, rfl⟩

theorem exists_writeLayers {layers : List Layer} {written : List Digest} {ls : List Layer} {o : Output}
    (h : Ready layers o) (hls : ∀ l ∈ ls, l ∈ layers) :
    ∃ names o', (writeLayers written ls).perform o = (.ok names, o') := by
  induction ls generalizing written o with
  | nil => exact ⟨[], o, rfl⟩
  | cons l ls ih =>
    have hl := hls l (by simp)
    have hrest := fun k hk => hls k (List.mem_cons_of_mem l hk)
    obtain ⟨s, hs⟩ := h.known l hl
    have hs' : l.Knows o.current s := hs
    have hasked : Ready layers { o with workspace := o.current } := h.current rfl rfl
    rw [writeLayers, Writing.perform_bind, perform_askLayer, hs'.digest]
    simp only [Except.mapError]
    split_ifs
    · obtain ⟨names, o', hrun⟩ := @ih written _ hasked hrest
      exact ⟨_, o', by rw [Writing.perform_bind, hrun]; rfl⟩
    · obtain ⟨o1, hlayer⟩ := exists_writeLayer (layerName s.1 l.mediaType) hasked hl
      obtain ⟨hworkspace, hplace, -⟩ := writeLayer_ok (o := { o with workspace := o.current }) hs' hlayer
      obtain ⟨names, o', hrun⟩ := @ih (s.1 :: written) _ (hasked.current hworkspace hplace) hrest
      exact ⟨_, o', by rw [Writing.perform_bind, hlayer]; dsimp only; rw [Writing.perform_bind, hrun]; rfl⟩

/-- An image of layers that are known and can be read is written, whatever is remembered of them. -/
theorem exists_writeFile_of_known {path : String} {i : Image} {w : Workspace} {place : Place} (tag : Tag)
    (hplace : w.files.writablePlace path = .ok place) (hknown : ∀ l ∈ i.layers, ∃ s, l.Knows w s)
    (hheld : ∀ l ∈ i.layers, ∃ b, l.HeldApart w.files place b) :
    ∃ w', (writeFile path tag i).perform w = (.ok (), w') := by
  have hready : Ready i.layers ⟨w, place, .empty⟩ := ⟨(Files.writablePlace_ok hplace).2, hknown, hheld⟩
  obtain ⟨o1, hdocument, hworkspace, hsame⟩ : ∃ o1, (writeEntry i.manifest.config.digest.toText i.rawConfig).perform
      ⟨{ w with files := w.files.put place (.file .empty) }, place, .empty⟩ = (.ok (), o1) ∧
      o1.workspace = { w with files := w.files.put place (.file .empty) } ∧ o1.place = place :=
    ⟨_, perform_writeEntry _ _ _, rfl, rfl⟩
  obtain ⟨names, o2, hlayers⟩ := @exists_writeLayers _ [] _ _ (hready.current hworkspace hsame) fun _ hl => hl
  have himage : ((writeImage tag i).perform
      ⟨{ w with files := w.files.put place (.file .empty) }, place, .empty⟩).1 = .ok () := by
    rw [writeImage, Writing.perform_bind, hdocument]
    dsimp only
    rw [Writing.perform_bind, hlayers]
    dsimp only
    rw [perform_writeEntry]
  rw [perform_writeFile, hplace]
  dsimp only
  rw [himage]
  exact ⟨_, rfl⟩

/-- A workspace in which the file of the layer is empty. -/
def plainWorkspace : Workspace := ⟨Files.empty.put ["g"] (.file .empty), [default]⟩

theorem tells_plainLayer {w : Workspace} (hopen : w.files.openPath plainLayer.path = .ok (.ofBytes .empty)) :
    (Layer.file plainLayer).TellsDigest w ∧ (Layer.file plainLayer).TellsDiffId w := by
  have hplain : Layer.plainContent plainLayer.isCompressed .empty = .ok .empty := rfl
  have hdiffId := (Layer.freshDiffId_eq_ok hopen).2 ⟨_, hplain, rfl⟩
  exact ⟨(Layer.tellsDigest_file_iff _).2 (.inr ⟨_, Layer.freshStored_eq hopen⟩),
    (Layer.tellsDiffId_file_iff _).2 (.inr ⟨_, hdiffId⟩)⟩

end ImageAssembly.Export
