import ImageAssembly.Proofs.Export.Writing

/-! What an exported archive contains. The document comes first, then each layer that stores other bytes than
those before it, and a manifest last. -/

namespace ImageAssembly.Export

open Workspace Archive

variable {layers : List Layer} {content : Layer → ByteArray}

/-- The name under which a layer is listed. -/
def listedName (content : Layer → ByteArray) (l : Layer) : String := layerName (.sha256 (content l)) l.mediaType

/-- The layers whose digests are not among those of `written`, without those whose digests come before. -/
def firsts (content : Layer → ByteArray) (written : List Digest) : List Layer → List Layer
  | [] => []
  | l :: ls =>
    if .sha256 (content l) ∈ written then firsts content written ls
    else l :: firsts content (.sha256 (content l) :: written) ls

/-- The entry of a layer. -/
def layerEntry (content : Layer → ByteArray) (l : Layer) : String × ByteArray := (listedName content l, content l)

/-- The entries of an image's archive. -/
def imageEntries (tag : Tag) (i : Image) (content : Layer → ByteArray) : List (String × ByteArray) :=
  (i.manifest.config.digest.toText, i.rawConfig) :: (firsts content [] i.layers).map (layerEntry content) ++
    [(manifestName, (manifestValue i.manifest.config.digest.toText tag (i.layers.map (listedName content))).toBytes)]

/-- Layers are listed one by one, and written where their digests are new. -/
theorem writes_layers (own : OwnMemos layers) {written : List Digest} {ls : List Layer}
    (hls : ∀ l ∈ ls, l ∈ layers) : Writes layers content (writeLayers written ls) (ls.map (listedName content))
      (records ((firsts content written ls).map (layerEntry content))) := by
  induction ls generalizing written with
  | nil => exact .pure []
  | cons l ls ih =>
    have hl := hls l (by simp)
    have hrest := fun k hk => hls k (List.mem_cons_of_mem l hk)
    have hdigest : Writes layers content (askLayer l.digest) (.sha256 (content l)) .empty :=
      Writes.ask (Layer.asks_learns hl own).digest fun w place h => (h.stores l hl).digest
    rw [writeLayers, firsts]
    refine hdigest.bind_empty ?_
    split_ifs with hmem
    · exact (ih hrest).bind_pure _
    · exact (Writes.layer own _ hl).bind ((ih hrest).bind_pure _)

/-- The archive of an image holds its entries. -/
theorem writes_image {i : Image} (own : OwnMemos i.layers) (tag : Tag) :
    Writes i.layers content (writeImage tag i) () (records (imageEntries tag i content)) := by
  rw [imageEntries, List.cons_append, records_cons, records_append, records_cons, records_nil, ByteArray.append_empty,
    writeImage]
  dsimp only
  refine Writes.bind (Writes.entry i.manifest.config.digest.toText i.rawConfig) ?_
  refine Writes.bind (writes_layers own fun l hl => hl) ?_
  exact Writes.entry manifestName _

/-- An image with faithful layers is written to every place that can be written. -/
theorem exists_writeFile {path : String} {tag : Tag} {i : Image} {w : Workspace} {place : Place}
    (hplace : w.files.writablePlace path = .ok place) (hlayers : Faithful w place i.layers content) :
    ∃ w', (writeFile path tag i).perform w = (.ok (), w') ∧
      w'.files.read path = .ok (archive (imageEntries tag i content)) := by
  obtain ⟨hresolve, hd⟩ := Files.writablePlace_ok hplace
  have hstart := hlayers.put .empty
  obtain ⟨o, hrun, hstep⟩ := @writes_image content i hlayers.own tag
    ⟨{ w with files := w.files.put place (.file .empty) }, place, .empty⟩ hstart
  have hpath := hstep.paths path place (Files.resolve_put hd hresolve)
  have hd' : o.workspace.files.entryAt? place ≠ some .directory := by
    have hplace' : o.place = place := hstep.place
    rw [← hplace']
    exact hstep.faithful.notDirectory
  have hbytes : o.sink.bytes ++ ending = archive (imageEntries tag i content) := by
    rw [hstep.bytes, archive, Sink.empty, ByteArray.empty_append]
  refine ⟨{ o.workspace with files := o.workspace.files.put place (.file (o.sink.bytes ++ ending)) }, ?_, ?_⟩
  · have hrun' : (writeImage tag i).run.run ⟨{ w with files := w.files.put place (.file .empty) }, place, .empty⟩ =
        (.ok (), o) := hrun
    rw [writeFile, Action.perform_bind, Action.perform_ofFiles, hplace]
    simp only [Except.mapError, Action.perform_bind, Action.perform_get]
    rw [hrun']
    rfl
  · rw [← hbytes]
    exact Files.read_put hpath hd'

end ImageAssembly.Export
