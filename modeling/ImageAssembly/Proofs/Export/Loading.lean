import ImageAssembly.Proofs.Export.SelfContained
import ImageAssembly.Proofs.Image.Consistency
import ImageAssembly.Proofs.Layer.Keeping

/-! Archives that can be loaded. An image that is built on the empty one of layers whose files stay as they are is
written as its document, a body for each digest and a manifest, and what the manifest and the document say of a
layer is true of its stored bytes. -/

namespace ImageAssembly.Export

open Workspace Archive

variable {stored : Layer → ByteArray} {layers : List Layer} {w w' w'' : Workspace} {place : Place}

/-- Whether stored bytes with one digest are the same. -/
def ToldApart (stored : Layer → ByteArray) (layers : List Layer) : Prop :=
  ∀ l ∈ layers, ∀ m ∈ layers, Digest.sha256 (stored l) = .sha256 (stored m) → stored l = stored m

/-- The end of the name of an entry with given stored bytes. -/
def nameEnding (stored : ByteArray) : String := if Gzip.hasMagic stored then ".tar.gz" else ".tar"

/-- What an archive is read as: regular entries, of which the first is the document under its digest and the last a
manifest, with an entry between them for each digest of a layer, in the order in which the digests first occur. Each
listed name is that of one entry with the stored bytes of the layer, and the document lists the digest of what these
bytes are when uncompressed. -/
structure Loadable (es : List Archive.Entry) (names : List String) (tag : Tag) (i : Image) (c : ConfigFile)
    (stored : Layer → ByteArray) : Prop where
  regular : ∀ e ∈ es, e.header = fileHeader (e.name.extract 0 maxNameLength) e.body.size
  document : i.manifest.config.digest = .sha256 i.rawConfig
  lists : Lists es i.manifest.config.digest.toText tag names
  first : ∃ e, es.head? = some e ∧ e.body = i.rawConfig
  digests : es.tail.dropLast.map (fun e => Digest.sha256 e.body) =
    (i.layers.map fun l => Digest.sha256 (stored l)).eraseDups
  named : ToldApart stored i.layers → List.Forall₂ (fun name l => name = (Digest.sha256 (stored l)).hex ++
    nameEnding (stored l) ∧ bodiesNamed es name = [stored l]) names i.layers
  diffIds : List.Forall₂ (fun d l => ∃ plain, Layer.plainContent (Gzip.hasMagic (stored l)) (stored l) = .ok plain ∧
    d = .sha256 plain) c.rootfs.diffIds i.layers

/-! ### Layers of a built image -/

/-- After a build the layers store their bytes as long as their files hold these. -/
theorem faithful_of_build {j : Image} {description : Configuration} {created : Time.Instant} {arch : Architecture}
    (hopened : w.Opened layers) (hmade : ∀ l ∈ layers, Layer.Made (stored l) l)
    (hunchanged : ∀ l ∈ layers, l.Unchanged w (stored l))
    (hbuild : (Build.build .empty layers description created arch).perform w = (.ok j, w'))
    (hlater : w'.Remembers w'') (hd : w''.files.entryAt? place ≠ some .directory)
    (hheld : ∀ l ∈ layers, l.HeldApart w''.files place (stored l)) : Faithful w'' place layers stored where
  own := hopened.own
  notDirectory := hd
  stores l hl := by
    have hasks : ∀ k ∈ layers, k.Asks (Learns layers) := fun k hk => Layer.asks_learns hk hopened.own
    have hlearns := (Build.leads_build hasks .empty description created arch).of_perform hbuild
    obtain ⟨⟨s, hs⟩, -⟩ := Build.known_of_build hopened.held hbuild l hl
    exact (hmade l hl).stores hl (hunchanged l hl) hlearns hs hlater (hheld l hl)

/-- The document of a built image lists the digests of the uncompressed contents. -/
theorem diffIds_of_build {j : Image} {c : ConfigFile} {description : Configuration} {created : Time.Instant}
    {arch : Architecture} (hopened : w.Opened layers) (hmade : ∀ l ∈ layers, Layer.Made (stored l) l)
    (hunchanged : ∀ l ∈ layers, l.Unchanged w (stored l))
    (hbuild : (Build.build .empty layers description created arch).perform w = (.ok j, w'))
    (hc : ConfigFile.ofBytes j.rawConfig = .ok c) :
    List.Forall₂ (fun d l => ∃ plain, Layer.plainContent (Gzip.hasMagic (stored l)) (stored l) = .ok plain ∧
      d = .sha256 plain) c.rootfs.diffIds j.layers := by
  have hasks : ∀ k ∈ layers, k.Asks (Learns layers) := fun k hk => Layer.asks_learns hk hopened.own
  have hlearns := (Build.leads_build hasks .empty description created arch).of_perform hbuild
  have hempty : Image.KnowsDiffIds w .empty := ⟨{}, rfl, .nil⟩
  have hknown := (hempty.build hopened.held hbuild).read hc
  have hlayers : j.layers = layers := Build.layers_of_build hbuild
  rw [List.forall₂_iff_zip] at hknown ⊢
  refine ⟨hknown.1, fun {d l} hdl => ?_⟩
  have hl : l ∈ layers := hlayers ▸ (List.of_mem_zip hdl).2
  exact (hmade l hl).diffId hl (hunchanged l hl) hlearns (hknown.2 hdl)

/-! ### Entries -/

/-- The digests of the written layers are those of all layers without the repeated ones. -/
theorem map_digest_firsts (written : List Digest) (ls : List Layer) :
    (firsts stored written ls).map (fun l => Digest.sha256 (stored l)) =
      ((ls.map fun l => Digest.sha256 (stored l)).filter (· ∉ written)).eraseDups := by
  induction ls generalizing written with
  | nil => rfl
  | cons l ls ih =>
    rw [firsts, List.map_cons]
    split_ifs with hmem
    · rw [List.filter_cons_of_neg (by simpa using hmem), ih]
    · rw [List.filter_cons_of_pos (by simpa using hmem), List.eraseDups_cons, List.map_cons, ih, List.filter_filter]
      congr 3
      funext d
      by_cases hd : d = .sha256 (stored l) <;> simp [hd, hmem]

/-- The name of a layer that was made of given bytes. -/
theorem listedName_of_made {l : Layer} (h : Layer.Made (stored l) l) :
    listedName stored l = (Digest.sha256 (stored l)).hex ++ nameEnding (stored l) := by
  rw [listedName, layerName, nameEnding, h.mediaType]
  cases Gzip.hasMagic (stored l) <;> rfl

/-- Layers that are made of what they store are only ambiguous where a digest is. -/
theorem unambiguous_of_made (hmade : ∀ l ∈ layers, Layer.Made (stored l) l) (h : ToldApart stored layers) :
    Unambiguous stored layers := by
  intro l hl m hm hd
  have hstored := h l hl m hm hd
  exact ⟨hstored, by rw [(hmade l hl).mediaType, (hmade m hm).mediaType, hstored]⟩

/-- The entries of an image of layers that are made of what they store. -/
theorem loadable_imageEntries {tag : Tag} {i : Image} {c : ConfigFile}
    (hmade : ∀ l ∈ i.layers, Layer.Made (stored l) l) (hdigest : i.manifest.config.digest = .sha256 i.rawConfig)
    (hdiffIds : List.Forall₂ (fun d l => ∃ plain, Layer.plainContent (Gzip.hasMagic (stored l)) (stored l) = .ok plain ∧
      d = .sha256 plain) c.rootfs.diffIds i.layers) :
    Loadable ((imageEntries tag i stored).map entryOf) (i.layers.map (listedName stored)) tag i c stored where
  regular e he := by
    obtain ⟨x, -, rfl⟩ := List.mem_map.1 he
    rfl
  document := hdigest
  lists := lists_imageEntries tag i stored
  first := ⟨_, rfl, rfl⟩
  digests := by
    have hfirsts := @map_digest_firsts stored [] i.layers
    rw [List.filter_eq_self.2 (by simp)] at hfirsts
    rw [← hfirsts, imageEntries, List.cons_append, List.map_cons, List.tail_cons, List.map_append, List.map_singleton,
      List.dropLast_concat, List.map_map, List.map_map]
    rfl
  named h := by
    have hnamed := (selfContained_iff.2 (unambiguous_of_made hmade h) :
      SelfContained ((imageEntries tag i stored).map entryOf) _ _).named
    rw [List.forall₂_map_left_iff, List.forall₂_map_right_iff, List.forall₂_same] at hnamed
    rw [List.forall₂_map_left_iff, List.forall₂_same]
    exact fun l hl => ⟨listedName_of_made (hmade l hl), hnamed l hl⟩
  diffIds := hdiffIds

/-! ### What is written -/

/-- An image is built on the empty one, of layers in memory and of layers that have been opened, and written to a
place apart from the files of its layers, which keep what they hold. The image has the layers that it was built of, and
what is written is read back as a loadable archive. -/
theorem written_is_loadable (stored : Layer → ByteArray) (layers : List Layer) (description : Configuration)
    (created : Time.Instant) (arch : Architecture) (path : String) (place : Place) (tag : Tag) (j : Image)
    (w w1 w2 w3 : Workspace) (hlayers : layers ≠ []) (hopened : w.Opened layers)
    (hmade : ∀ l ∈ layers, Layer.Made (stored l) l) (hunchanged : ∀ l ∈ layers, l.Unchanged w (stored l))
    (hbuild : (Build.build .empty layers description created arch).perform w = (.ok j, w1))
    (hlater : w1.Remembers w2) (hplace : w2.files.writablePlace path = .ok place)
    (hheld : ∀ l ∈ layers, l.HeldApart w2.files place (stored l))
    (hwrite : (writeFile path tag j).perform w2 = (.ok (), w3)) :
    j.layers = layers ∧ ∃ data c, w3.files.read path = .ok data ∧ ConfigFile.ofBytes j.rawConfig = .ok c ∧
      (data.size < 2 ^ 64 → ∃ es names, entries data = .ok es ∧ Loadable es names tag j c stored) := by
  have hempty : j.layers = layers := Build.layers_of_build hbuild
  obtain ⟨c, hc⟩ := Build.exists_configFile_of_build hlayers hbuild
  have hfaithful := faithful_of_build hopened hmade hunchanged hbuild hlater (Files.writablePlace_ok hplace).2 hheld
  rw [← hempty] at hfaithful
  obtain ⟨w', hwrite', hread⟩ := @exists_writeFile stored path tag j w2 place hplace hfaithful
  obtain rfl : w3 = w' := (Prod.mk.inj (hwrite.symm.trans hwrite')).2
  have hdigest := ((Image.Invariant.empty w).build hopened.held hbuild).digest
  have hdiffIds := diffIds_of_build hopened hmade hunchanged hbuild hc
  have hloadable := @loadable_imageEntries stored tag j c (by rwa [hempty]) hdigest hdiffIds
  exact ⟨hempty, _, c, hread, hc, fun hsize => ⟨_, _, entries_imageEntries hsize, hloadable⟩⟩

/-- A layer in memory, and one that has been opened by the path of a file with the same bytes. -/
def repeatedLayer : List Layer := [.memory (.ofTar .empty), .file ⟨0, "g", .layerGzip⟩]

theorem forall_mem_repeatedLayer {P : Layer → Prop} :
    (∀ l ∈ repeatedLayer, P l) ↔ P (.memory (.ofTar .empty)) ∧ P (.file ⟨0, "g", .layerGzip⟩) := by
  simp [repeatedLayer]

theorem made_repeatedLayer : ∀ l ∈ repeatedLayer, Layer.Made (Gzip.compress .empty) l := by
  have hread : Files.read twoTypesWorkspace.files "g" = .ok (Gzip.compress .empty) := rfl
  have hopen := @Layer.perform_openPath (Gzip.compress .empty) "g" ⟨twoTypesWorkspace.files, []⟩ hread
  rw [Gzip.hasMagic_compress, if_pos rfl] at hopen
  have hfile : Layer.Made (Gzip.compress .empty) (.file ⟨0, "g", .layerGzip⟩) :=
    .openPath (w := ⟨twoTypesWorkspace.files, []⟩) hread hopen
  exact forall_mem_repeatedLayer.2 ⟨Layer.made_ofTar .empty, hfile⟩

theorem opened_repeatedLayer : twoTypesWorkspace.Opened repeatedLayer where
  held := by simp [repeatedLayer, Workspace.Holds, twoTypesWorkspace]
  own := by simp +contextual [repeatedLayer, OwnMemos]

theorem heldApart_repeatedLayer :
    ∀ l ∈ repeatedLayer, l.HeldApart twoTypesWorkspace.files ["out.tar"] (Gzip.compress .empty) :=
  forall_mem_repeatedLayer.2 ⟨trivial, holdsApart_twoTypes⟩

theorem unchanged_repeatedLayer : ∀ l ∈ repeatedLayer, l.Unchanged twoTypesWorkspace (Gzip.compress .empty) := by
  refine forall_mem_repeatedLayer.2 ⟨trivial, rfl, ?_, ?_⟩
  · intro s hs
    cases hs
  · intro d hd
    cases hd

theorem tells_repeatedLayer :
    ∀ l ∈ repeatedLayer, l.TellsDigest twoTypesWorkspace ∧ l.TellsDiffId twoTypesWorkspace := by
  have hopen := holdsApart_twoTypes.openPath
  have hplain : Layer.plainContent (FileLayer.isCompressed ⟨0, "g", .layerGzip⟩) (Gzip.compress .empty) =
      .ok .empty := Gzip.decompress_compress .empty
  have hdigest : (Layer.file ⟨0, "g", .layerGzip⟩).TellsDigest twoTypesWorkspace :=
    (Layer.tellsDigest_file_iff _).2 (.inr ⟨_, Layer.freshStored_eq hopen⟩)
  have hfresh := (Layer.freshDiffId_eq_ok (l := ⟨0, "g", .layerGzip⟩) hopen).2 ⟨_, hplain, rfl⟩
  have hdiffId : (Layer.file ⟨0, "g", .layerGzip⟩).TellsDiffId twoTypesWorkspace :=
    (Layer.tellsDiffId_file_iff _).2 (.inr ⟨_, hfresh⟩)
  exact forall_mem_repeatedLayer.2 ⟨Build.tells_memory [_] _ (List.mem_singleton_self _), hdigest, hdiffId⟩

/-- Both layers are put on the empty image, which is written at once. -/
theorem loadable_with_repeated_layer : ∃ j w1 w3 data c,
    (Build.build .empty repeatedLayer {} .epoch ⟨"amd64", ""⟩).perform twoTypesWorkspace = (.ok j, w1) ∧
    (writeFile "out.tar" twoTypesTag j).perform w1 = (.ok (), w3) ∧ j.layers = repeatedLayer ∧
    w3.files.read "out.tar" = .ok data ∧ ConfigFile.ofBytes j.rawConfig = .ok c ∧
    (data.size < 2 ^ 64 → ∃ es names, entries data = .ok es ∧
      Loadable es names twoTypesTag j c fun _ => Gzip.compress .empty) := by
  have hyears : Time.Instant.HasPlainYear .epoch := by decide
  obtain ⟨j, w1, hbuild⟩ := Build.exists_build_empty opened_repeatedLayer tells_repeatedLayer
    ((Build.plainYears_empty_iff (by simp [repeatedLayer])).2 hyears) ⟨"amd64", ""⟩
  have hasks : ∀ l ∈ repeatedLayer, l.Asks (Learns repeatedLayer) :=
    fun l hl => Layer.asks_learns hl opened_repeatedLayer.own
  have hfiles := ((Build.leads_build hasks .empty {} .epoch ⟨"amd64", ""⟩).of_perform hbuild).files
  have hplace : w1.files.writablePlace "out.tar" = .ok ["out.tar"] := hfiles ▸ writablePlace_twoTypes
  have hheld := heldApart_repeatedLayer
  rw [← hfiles] at hheld
  have hfaithful := faithful_of_build opened_repeatedLayer made_repeatedLayer unchanged_repeatedLayer hbuild
    (.refl w1) (Files.writablePlace_ok hplace).2 hheld
  have hlayers : j.layers = repeatedLayer := Build.layers_of_build hbuild
  rw [← hlayers] at hfaithful
  obtain ⟨w3, hwrite, -⟩ := @exists_writeFile _ "out.tar" twoTypesTag j w1 _ hplace hfaithful
  obtain ⟨hsame, data, c, hread, hc, hentries⟩ := written_is_loadable (fun _ => Gzip.compress .empty) repeatedLayer {}
    .epoch ⟨"amd64", ""⟩ "out.tar" ["out.tar"] twoTypesTag j twoTypesWorkspace w1 w1 w3 (by simp [repeatedLayer])
    opened_repeatedLayer made_repeatedLayer unchanged_repeatedLayer hbuild (.refl w1) hplace hheld hwrite
  exact ⟨j, w1, w3, data, c, hbuild, hwrite, hsame, hread, hc, hentries⟩

end ImageAssembly.Export
