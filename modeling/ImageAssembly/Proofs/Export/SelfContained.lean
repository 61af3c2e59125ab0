import ImageAssembly.Proofs.Build.Outcome
import ImageAssembly.Proofs.Export.Listing
import ImageAssembly.Proofs.Json.Size

/-! Archives that list all they hold. Entries are told apart by digests, but listed by names that depend on the
types of the layers as well, so that the two have to agree for every pair of layers. -/

namespace ImageAssembly.Export

open Workspace Archive

/-- Whether each name belongs to just one entry, which holds the body at the same position, and all but the first
and the last entry are listed. -/
structure SelfContained (es : List Archive.Entry) (names : List String) (bodies : List ByteArray) : Prop where
  named : List.Forall₂ (fun name body => bodiesNamed es name = [body]) names bodies
  listed : ∀ e ∈ es.tail.dropLast, ∃ name ∈ names, e.name = name.toUTF8

/-- Whether an archive begins with the document of a digest and ends with a manifest of it that lists names. -/
structure Lists (es : List Archive.Entry) (config : String) (tag : Tag) (names : List String) : Prop where
  first : ∃ e, es.head? = some e ∧ e.name = config.toUTF8
  last : ∃ e, es.getLast? = some e ∧ e.name = manifestName.toUTF8 ∧
    Json.decodeBytes (Json.Tree.keep 0) e.body = .ok (manifestRecord config tag names)

/-- Whether layers whose stored bytes have one digest store the same bytes and are all of the type of plain
archives or none of them. -/
def Unambiguous (content : Layer → ByteArray) (layers : List Layer) : Prop :=
  ∀ l ∈ layers, ∀ m ∈ layers, Digest.sha256 (content l) = .sha256 (content m) →
    content l = content m ∧ (l.mediaType = .layer ↔ m.mediaType = .layer)

variable {content : Layer → ByteArray} {tag : Tag} {i : Image} {l : Layer}

/-- The stored bytes of a layer are listed under its name just if the layer that was written with its digest has the
same bytes and the same name. -/
theorem mem_imageEntries_iff : (listedName content l, content l) ∈ imageEntries tag i content ↔
    ∃ m ∈ firsts content [] i.layers, listedName content m = listedName content l ∧ content m = content l := by
  have hconfig : listedName content l ≠ i.manifest.config.digest.toText := by
    intro h
    have hcolon := colon_mem_toText i.manifest.config.digest
    rw [← h] at hcolon
    exact colon_not_mem_listedName l hcolon
  have hmanifest := @listedName_ne_manifestName content l
  simp only [imageEntries, List.mem_append, List.mem_cons, List.mem_map, Prod.mk.injEq, hconfig, hmanifest,
    false_and, false_or, or_false, List.not_mem_nil, layerEntry]

theorem bodiesNamed_listedName_iff (l : Layer) :
    bodiesNamed ((imageEntries tag i content).map entryOf) (listedName content l) = [content l] ↔
      ∃ m ∈ firsts content [] i.layers, listedName content m = listedName content l ∧ content m = content l := by
  rw [bodiesNamed_eq_singleton_iff (nodup_imageEntries tag i), mem_imageEntries_iff]

/-- An archive lists all it holds just if its layers are not ambiguous. -/
theorem selfContained_iff : SelfContained ((imageEntries tag i content).map entryOf)
    (i.layers.map (listedName content)) (i.layers.map content) ↔ Unambiguous content i.layers := by
  have hnamed : List.Forall₂ (fun name body => bodiesNamed ((imageEntries tag i content).map entryOf) name = [body])
      (i.layers.map (listedName content)) (i.layers.map content) ↔ ∀ l ∈ i.layers,
        ∃ m ∈ firsts content [] i.layers, listedName content m = listedName content l ∧ content m = content l := by
    rw [List.forall₂_map_left_iff, List.forall₂_map_right_iff, List.forall₂_same]
    exact forall₂_congr fun l _ => bodiesNamed_listedName_iff l
  have hsub := (@firsts_sublist content [] i.layers).subset
  constructor
  · intro h l hl m hm hdigest
    obtain ⟨l', hl', hname, hbody⟩ := hnamed.1 h.named l hl
    obtain ⟨m', hm', hname', hbody'⟩ := hnamed.1 h.named m hm
    obtain ⟨hd, hkind⟩ := listedName_inj.1 hname
    obtain ⟨hd', hkind'⟩ := listedName_inj.1 hname'
    -- the same layer has been written for both
    obtain rfl := eq_of_mem_firsts hl' hm' (hd.trans (hdigest.trans hd'.symm))
    exact ⟨hbody.symm.trans hbody', hkind.symm.trans hkind'⟩
  · intro h
    refine ⟨hnamed.2 fun l hl => ?_, ?_⟩
    · obtain ⟨m, hm, hdigest⟩ := exists_first hl (@List.not_mem_nil _ (Digest.sha256 (content l)))
      obtain ⟨hbody, hkind⟩ := h m (hsub hm) l hl hdigest
      exact ⟨m, hm, listedName_inj.2 ⟨hdigest, hkind⟩, hbody⟩
    · intro e he
      rw [imageEntries, List.cons_append, List.map_cons, List.tail_cons, List.map_append, List.map_cons, List.map_nil,
        List.dropLast_concat, List.map_map, List.mem_map] at he
      obtain ⟨m, hm, rfl⟩ := he
      exact ⟨listedName content m, List.mem_map_of_mem (hsub hm), rfl⟩

/-! ### Two types -/

/-- A layer in memory, and one of the type of plain archives whose file holds the same bytes. -/
def twoTypes : List Layer := [.memory (.ofTar .empty), .file ⟨0, "g", .layer⟩]

/-- A name for the image of the two layers. -/
def twoTypesTag : Tag := ⟨"index.docker.io", "library/app", "latest"⟩

/-- A workspace with the file of the second layer. -/
def twoTypesWorkspace : Workspace := ⟨Files.empty.put ["g"] (.file (Gzip.compress .empty)), [default]⟩

theorem writablePlace_twoTypes : twoTypesWorkspace.files.writablePlace "out.tar" = .ok ["out.tar"] := rfl

theorem holdsApart_twoTypes : twoTypesWorkspace.files.HoldsApart ["out.tar"] "g" (Gzip.compress .empty) := by
  rw [twoTypesWorkspace]
  generalize Gzip.compress .empty = data
  exact ⟨["g"], rfl, by decide, rfl⟩

theorem faithful_twoTypes :
    Faithful twoTypesWorkspace ["out.tar"] twoTypes (fun _ => Gzip.compress .empty) where
  own := by simp [OwnMemos, twoTypes]
  notDirectory := (Files.writablePlace_ok writablePlace_twoTypes).2
  stores := by
    simp only [twoTypes, List.forall_mem_cons]
    refine ⟨?_, ⟨holdsApart_twoTypes, ?_⟩, by simp⟩
    · rw [Layer.Stores, MemoryLayer.ofTar]
    · intro s hs
      cases hs

theorem opened_twoTypes : twoTypesWorkspace.Opened twoTypes where
  held := by simp [twoTypes, Workspace.Holds, twoTypesWorkspace]
  own := faithful_twoTypes.own

theorem tells_twoTypes : ∀ l ∈ twoTypes, l.TellsDigest twoTypesWorkspace ∧ l.TellsDiffId twoTypesWorkspace := by
  have hplain : Layer.plainContent (FileLayer.isCompressed ⟨0, "g", .layer⟩) (Gzip.compress .empty) =
      .ok (Gzip.compress .empty) := rfl
  have hfresh := (Layer.freshDiffId_eq_ok (l := ⟨0, "g", .layer⟩) holdsApart_twoTypes.openPath).2 ⟨_, hplain, rfl⟩
  have hfile : (Layer.file ⟨0, "g", .layer⟩).TellsDiffId twoTypesWorkspace :=
    (Layer.tellsDiffId_file_iff _).2 (.inr ⟨_, hfresh⟩)
  intro l hl
  refine ⟨⟨_, (faithful_twoTypes.stores l hl).digest⟩, ?_⟩
  simp only [twoTypes, List.mem_cons, List.not_mem_nil, or_false] at hl
  rcases hl with rfl | rfl
  · exact (Build.tells_memory [_] _ (List.mem_singleton_self _)).2
  · exact hfile

/-- The two layers are put on the empty image. -/
theorem exists_build_twoTypes : ∃ j w', (Build.build .empty twoTypes {} .epoch ⟨"amd64", ""⟩).perform
    twoTypesWorkspace = (.ok j, w') ∧ j.layers = twoTypes ∧
      Faithful w' ["out.tar"] twoTypes (fun _ => Gzip.compress .empty) ∧ w'.files = twoTypesWorkspace.files := by
  have hyears : Time.Instant.HasPlainYear .epoch := by decide
  obtain ⟨j, w', hbuild⟩ := Build.exists_build_empty opened_twoTypes tells_twoTypes
    ((Build.plainYears_empty_iff (by simp [twoTypes])).2 hyears) ⟨"amd64", ""⟩
  have hasks : ∀ l ∈ twoTypes, l.Asks (Learns twoTypes) := fun l hl => Layer.asks_learns hl opened_twoTypes.own
  have hlearns := (Build.leads_build hasks .empty {} .epoch ⟨"amd64", ""⟩).of_perform hbuild
  have hempty : Image.empty.layers = [] := rfl
  have hlayers := Build.layers_of_build hbuild
  rw [hempty, List.nil_append] at hlayers
  exact ⟨j, w', hbuild, hlayers, faithful_twoTypes.learns hlearns, hlearns.files⟩

/-- A document that says nothing but the diff ids of two layers. -/
def documentOf (a b : ByteArray) : ConfigFile := { rootfs := { diffIds := [.sha256 a, .sha256 b] } }

theorem size_documentOf (a b : ByteArray) : (documentOf a b).toBytes.size < 2 ^ 64 := by
  have hids : (Json.listValue (fun d => .string d.toText) [Digest.sha256 a, .sha256 b]).weight = 860 := by
    simp only [Json.listValue, List.map_cons, List.map_nil, Json.Value.weight, Json.itemsWeight, length_toText,
      Nat.reduceMul, Nat.reduceAdd]
  have hrootfs : (RootFs.mk "layers" [.sha256 a, .sha256 b]).encode.weight = 980 := by
    rw [RootFs.encode, Json.member, Json.member, List.singleton_append]
    simp only [Json.Value.weight, Json.membersWeight, hids]
    decide
  have hmembers : (documentOf a b).encode = .object [("architecture", .string ""), ("os", .string ""),
      ("config", .object []), ("rootfs", (RootFs.mk "layers" [.sha256 a, .sha256 b]).encode)] := rfl
  have hweight : (documentOf a b).encode.weight < 2 ^ 32 := by
    rw [hmembers, Json.Value.weight]
    simp only [Json.membersWeight, hrootfs, Json.Value.weight]
    decide
  have h := Json.size_toBytes_le (documentOf a b).encode
  rw [ConfigFile.toBytes]
  omega

/-- The document of the two layers. -/
def twoTypesDocument : ConfigFile := documentOf .empty (Gzip.compress .empty)

theorem size_compress_empty : (Gzip.compress .empty).size = 23 := by
  rw [Gzip.compress, Gzip.storeFrom]
  simp only [ByteArray.size_append]
  rfl

theorem size_twoTypesManifest {config : String} (hconfig : config.length = 71) {content : Layer → ByteArray} :
    (manifestValue config twoTypesTag
      (twoTypes.map (listedName content))).toBytes.size < 2 ^ 64 := by
  have h := Json.size_toBytes_le (manifestValue config twoTypesTag
    (twoTypes.map (listedName content)))
  have hnames : (Json.listValue .string (twoTypes.map (listedName content))).weight ≤ 860 := by
    have h1 := @length_listedName_le content (.memory (.ofTar .empty))
    have h2 := @length_listedName_le content (.file ⟨0, "g", .layer⟩)
    simp only [twoTypes, Json.listValue, List.map_cons, List.map_nil, Json.Value.weight, Json.itemsWeight]
    omega
  have htag : (Json.Value.array [.string (twoTypesTag.toText)]).weight = 209 := rfl
  have hkeys : "Config".length + "RepoTags".length + "Layers".length = 20 := rfl
  have hweight : (manifestValue config twoTypesTag
      (twoTypes.map (listedName content))).weight < 2 ^ 32 := by
    rw [manifestValue]
    simp only [Json.Value.weight, Json.itemsWeight, Json.membersWeight, hconfig] at hnames htag ⊢
    omega
  omega

/-- The entries of the two layers' archive can be told from their bytes. -/
theorem writable_twoTypes {i : Image} (hconfig : i.manifest.config.digest = .sha256 i.rawConfig)
    (hraw : i.rawConfig = twoTypesDocument.toBytes) (hlayers : i.layers = twoTypes) :
    ∀ e ∈ imageEntries twoTypesTag i (fun _ => Gzip.compress .empty), Writable e := by
  have hname : i.manifest.config.digest.toText.length = 71 := by rw [hconfig, length_toText]
  intro e he
  have hzero := zero_not_mem_imageEntries he
  rw [imageEntries, List.mem_append, List.mem_cons, List.mem_map, List.mem_singleton] at he
  rcases he with (rfl | ⟨l, -, rfl⟩) | rfl
  · have hbody := size_documentOf .empty (Gzip.compress .empty)
    rw [← twoTypesDocument, ← hraw] at hbody
    exact writable_of_short hzero hname.le hbody
  · have hbody : (Gzip.compress .empty).size < 2 ^ 64 := by rw [size_compress_empty]; decide
    rw [layerEntry] at hzero ⊢
    exact writable_of_short hzero (length_listedName_le l) hbody
  · have hbody := @size_twoTypesManifest _ hname (fun _ => Gzip.compress .empty)
    rw [← hlayers] at hbody
    exact writable_of_short hzero (by decide) hbody

/-! ### What is written -/

theorem lists_imageEntries (tag : Tag) (i : Image) (content : Layer → ByteArray) :
    Lists ((imageEntries tag i content).map entryOf) i.manifest.config.digest.toText tag
      (i.layers.map (listedName content)) where
  first := ⟨_, rfl, rfl⟩
  last := by
    rw [imageEntries, List.map_append, List.map_singleton, List.getLast?_concat]
    have hdecode := decode_manifestValue i.manifest.config.digest.toText tag (i.layers.map (listedName content))
    exact ⟨_, rfl, name_entryOf _ _, by rw [body_entryOf]; exact hdecode⟩

/-- An image whose layers store what they did when they were hashed is written to every place that can be written.
The archive lists all it holds, each layer by the name of an entry with its stored bytes, just if no two layers with
one digest differ in their bytes or in whether they are of the type of plain archives. -/
theorem written_lists_all_iff (path : String) (tag : Tag) (i : Image) (content : Layer → ByteArray) (w : Workspace)
    (place : Place) (hplace : w.files.writablePlace path = .ok place) (hlayers : Faithful w place i.layers content) :
    ∃ w' data, (writeFile path tag i).perform w = (.ok (), w') ∧ w'.files.read path = .ok data ∧
      (data.size < 2 ^ 64 → ∃ es names, entries data = .ok es ∧
        Lists es i.manifest.config.digest.toText tag names ∧
        (SelfContained es names (i.layers.map content) ↔ Unambiguous content i.layers)) := by
  obtain ⟨w', hwrite, hread⟩ := @exists_writeFile content path tag i w place hplace hlayers
  refine ⟨w', _, hwrite, hread, fun hsize => ?_⟩
  exact ⟨_, _, entries_imageEntries hsize, lists_imageEntries tag i content, selfContained_iff⟩

/-- A layer in memory, put on an image by itself. -/
theorem written_lists_all_single_layer :
    Files.empty.writablePlace "out.tar" = .ok ["out.tar"] ∧
      Faithful .empty ["out.tar"] [.memory (.ofTar .empty)] (fun _ => Gzip.compress .empty) ∧
      ∃ w' data, (writeFile "out.tar" twoTypesTag
          { Image.empty with layers := [.memory (.ofTar .empty)] }).perform .empty = (.ok (), w') ∧
        w'.files.read "out.tar" = .ok data ∧
        (data.size < 2 ^ 64 → ∃ es names, entries data = .ok es ∧ SelfContained es names [Gzip.compress .empty]) := by
  have hplace : Files.empty.writablePlace "out.tar" = .ok ["out.tar"] := rfl
  have hlayers : Faithful .empty ["out.tar"] [.memory (.ofTar .empty)] (fun _ => Gzip.compress .empty) :=
    ⟨(Build.opened_memory .empty [.ofTar .empty]).own, (Files.writablePlace_ok hplace).2,
      by simp [Layer.Stores, MemoryLayer.ofTar]⟩
  refine ⟨hplace, hlayers, ?_⟩
  obtain ⟨w', data, hwrite, hread, hentries⟩ := written_lists_all_iff "out.tar"
    twoTypesTag { Image.empty with layers := [.memory (.ofTar .empty)] } _ .empty _
    hplace hlayers
  refine ⟨w', data, hwrite, hread, fun hsize => ?_⟩
  obtain ⟨es, names, hes, -, hiff⟩ := hentries hsize
  exact ⟨es, names, hes, hiff.2 (by simp [Unambiguous])⟩

/-- Two layers of one digest and different types are put on the empty image, and the image, with a short document,
is written. One of the names that the manifest lists belongs to no entry. -/
theorem not_selfContained_two_types : ∃ w built i w' data es names,
    (Build.build .empty twoTypes {} .epoch ⟨"amd64", ""⟩).perform twoTypesWorkspace = (.ok built, w) ∧
    built.withConfigFile twoTypesDocument = .ok i ∧
    Faithful w ["out.tar"] i.layers (fun _ => Gzip.compress .empty) ∧
    (writeFile "out.tar" twoTypesTag i).perform w = (.ok (), w') ∧
    w'.files.read "out.tar" = .ok data ∧ entries data = .ok es ∧
    Lists es i.manifest.config.digest.toText twoTypesTag names ∧
    ¬ SelfContained es names (i.layers.map fun _ => Gzip.compress .empty) := by
  obtain ⟨built, w, hbuild, hlayers, hfaithful, hfiles⟩ := exists_build_twoTypes
  have hcommit : built.withConfigFile twoTypesDocument = .ok (built.storeConfig twoTypesDocument) :=
    Image.withConfigFile_eq_ok.2 ⟨by rw [hlayers]; rfl, rfl⟩
  have hstored : (built.storeConfig twoTypesDocument).layers = twoTypes := by
    rw [Image.layers_storeConfig, hlayers]
  have hplace : w.files.writablePlace "out.tar" = .ok ["out.tar"] := hfiles ▸ writablePlace_twoTypes
  rw [← hstored] at hfaithful
  obtain ⟨w', hwrite, hread⟩ := exists_writeFile hplace hfaithful
  have hwritable := writable_twoTypes (by rw [Image.digest_storeConfig, Image.rawConfig_storeConfig])
    (Image.rawConfig_storeConfig built twoTypesDocument) hstored
  refine ⟨w, built, _, w', _, _, _, hbuild, hcommit, hfaithful, hwrite, hread, entries_archive hwritable,
    lists_imageEntries _ _ _, ?_⟩
  rw [selfContained_iff, hstored]
  intro h
  have hkind := (h (.memory (.ofTar .empty)) (by simp [twoTypes]) (.file ⟨0, "g", .layer⟩)
    (by simp [twoTypes]) rfl).2
  exact absurd (hkind.2 rfl) (by decide)

end ImageAssembly.Export
