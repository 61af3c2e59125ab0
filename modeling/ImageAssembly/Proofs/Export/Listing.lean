import ImageAssembly.Proofs.Export.Contents
import ImageAssembly.Proofs.Json.Structure
import ImageAssembly.Proofs.Digest
import Mathlib.Data.List.Nodup

/-! The names in an exported archive. A layer's name is made of its digest and of whether its type is that of
plain archives, so that a listed name is that of an entry just if the first layer with the digest is of the same
kind. -/

namespace ImageAssembly.Export

open Archive

variable {layers : List Layer} {content : Layer → ByteArray}

/-! ### Layers with new digests -/

theorem firsts_sublist (written : List Digest) (ls : List Layer) : (firsts content written ls).Sublist ls := by
  induction ls generalizing written with
  | nil => exact .slnil
  | cons l ls ih =>
    rw [firsts]
    split_ifs
    · exact (ih written).cons l
    · exact (ih _).cons_cons l

/-- The digests of the written layers differ from each other and from those of `written`. -/
theorem nodup_firsts (written : List Digest) (ls : List Layer) :
    ((firsts content written ls).map fun l => Digest.sha256 (content l)).Nodup ∧
      ∀ l ∈ firsts content written ls, .sha256 (content l) ∉ written := by
  induction ls generalizing written with
  | nil => simp [firsts]
  | cons l ls ih =>
    rw [firsts]
    split_ifs with hmem
    · exact ih written
    · obtain ⟨hnodup, hnew⟩ := ih (.sha256 (content l) :: written)
      rw [List.map_cons, List.nodup_cons]
      refine ⟨⟨?_, hnodup⟩, ?_⟩
      · rw [List.mem_map]
        rintro ⟨k, hk, heq⟩
        exact hnew k hk (by simp [heq])
      · intro k hk
        rcases List.mem_cons.1 hk with rfl | hk
        · exact hmem
        · exact fun h => hnew k hk (by simp [h])

/-- Each digest is that of a written layer. -/
theorem exists_first {written : List Digest} {ls : List Layer} {l : Layer} (hl : l ∈ ls)
    (hnew : .sha256 (content l) ∉ written) :
    ∃ m ∈ firsts content written ls, Digest.sha256 (content m) = .sha256 (content l) := by
  induction ls generalizing written with
  | nil => simp at hl
  | cons k ls ih =>
    rw [firsts]
    rcases List.mem_cons.1 hl with rfl | hl
    · rw [if_neg hnew]
      exact ⟨l, by simp, rfl⟩
    · split_ifs with hmem
      · exact ih hl hnew
      · by_cases heq : Digest.sha256 (content k) = .sha256 (content l)
        · exact ⟨k, by simp, heq⟩
        · have hnew' : .sha256 (content l) ∉ .sha256 (content k) :: written := by
            rw [List.mem_cons, not_or]
            exact ⟨fun h => heq h.symm, hnew⟩
          obtain ⟨m, hm, hdigest⟩ := ih hl hnew'
          exact ⟨m, List.mem_cons_of_mem k hm, hdigest⟩

/-- A written layer is the only one with its digest. -/
theorem eq_of_mem_firsts {written : List Digest} {ls : List Layer} {l m : Layer}
    (hl : l ∈ firsts content written ls) (hm : m ∈ firsts content written ls)
    (h : Digest.sha256 (content l) = .sha256 (content m)) : l = m :=
  List.inj_on_of_nodup_map (nodup_firsts written ls).1 hl hm h

/-! ### Names -/

theorem length_hex (data : ByteArray) : (Digest.sha256 data).hex.toList.length = 64 :=
  (Digest.sha256 data).length_ok rfl

theorem length_toText (data : ByteArray) : (Digest.sha256 data).toText.length = 71 := by
  have hname : (Digest.sha256 data).algorithm = "sha256" := rfl
  have hhex := length_hex data
  rw [String.length_toList] at hhex
  rw [Digest.toText, String.length_append, String.length_append, hhex, hname]
  rfl

theorem toList_layerName (d : Digest) (m : MediaType) : (layerName d m).toList =
    d.hex.toList ++ if m = .layer then ".tar".toList else ".tar.gz".toList := by
  rw [layerName]
  split_ifs <;> exact String.toList_append

/-- Names are equal just if the digests are and the types are both those of plain archives or neither. -/
theorem layerName_inj {a b : ByteArray} {m n : MediaType} :
    layerName (.sha256 a) m = layerName (.sha256 b) n ↔
      Digest.sha256 a = .sha256 b ∧ (m = .layer ↔ n = .layer) := by
  constructor
  · intro h
    have hlist := congrArg String.toList h
    rw [toList_layerName, toList_layerName] at hlist
    obtain ⟨hhex, hend⟩ := List.append_inj hlist (by rw [length_hex, length_hex])
    refine ⟨Digest.ext_parts rfl (String.toList_inj.1 hhex), ?_⟩
    split_ifs at hend with hm hn hn
    · simp [hm, hn]
    · simp at hend
    · simp at hend
    · simp [hm, hn]
  · rintro ⟨hd, hk⟩
    rw [layerName, layerName, hd]
    simp only [hk]

theorem listedName_inj {l m : Layer} : listedName content l = listedName content m ↔
    Digest.sha256 (content l) = .sha256 (content m) ∧ (l.mediaType = .layer ↔ m.mediaType = .layer) :=
  layerName_inj

theorem length_listedName_le (l : Layer) : (listedName content l).length ≤ 71 := by
  rw [← String.length_toList, listedName, toList_layerName, List.length_append, length_hex]
  split_ifs
  · exact Nat.le_of_lt (by decide)
  · exact Nat.le_of_eq (by decide)

theorem writable_of_short {name : String} {data : ByteArray} (hzero : 0 ∉ name.toUTF8.toList)
    (hname : name.length ≤ 71) (hdata : data.size < 2 ^ 64) : Writable (name, data) := by
  have hbytes := Bytes.size_toUTF8_le name
  refine ⟨hzero, ?_, hdata⟩
  dsimp only
  omega

theorem nodup_map_listedName (ls : List Layer) :
    ((firsts content [] ls).map (listedName content)).Nodup := by
  have h := (@nodup_firsts content [] ls).1
  refine List.Nodup.map_on (fun l hl m hm heq => ?_) (List.Nodup.of_map _ h)
  exact eq_of_mem_firsts hl hm (listedName_inj.1 heq).1

theorem colon_not_mem_listedName (l : Layer) : ':' ∉ (listedName content l).toList := by
  rw [listedName, toList_layerName, List.mem_append, not_or]
  refine ⟨fun h => ?_, ?_⟩
  · have hdigit := List.all_eq_true.1 (Digest.sha256 (content l)).hex_ok.2 _ h
    exact absurd hdigit (by decide)
  · split_ifs <;> decide

theorem colon_mem_toText (d : Digest) : ':' ∈ d.toText.toList := by
  rw [Digest.toText, String.toList_append, String.toList_append]
  simp

theorem listedName_ne_manifestName (l : Layer) : listedName content l ≠ manifestName := by
  intro h
  have hlist := congrArg List.length (congrArg String.toList h)
  rw [listedName, toList_layerName, List.length_append, length_hex] at hlist
  have hm : manifestName.toList.length = 13 := by decide
  omega

/-- No two entries of an image's archive have one name. -/
theorem nodup_imageEntries (tag : Tag) (i : Image) : ((imageEntries tag i content).map Prod.fst).Nodup := by
  have hcolon := colon_mem_toText i.manifest.config.digest
  rw [imageEntries, List.map_append, List.map_cons, List.map_map, List.cons_append, List.nodup_cons,
    List.nodup_append]
  refine ⟨?_, nodup_map_listedName i.layers, by simp, ?_⟩
  · rw [List.mem_append, not_or, List.mem_map]
    refine ⟨?_, ?_⟩
    · rintro ⟨l, -, hl⟩
      have hname : listedName content l = i.manifest.config.digest.toText := hl
      rw [← hname] at hcolon
      exact colon_not_mem_listedName l hcolon
    · rw [List.map_cons, List.map_nil, List.mem_singleton]
      intro h
      have hname : i.manifest.config.digest.toText = manifestName := h
      rw [hname] at hcolon
      exact absurd hcolon (by decide)
  · intro name hname name' hname'
    obtain ⟨l, -, rfl⟩ := List.mem_map.1 hname
    simp only [List.map_cons, List.map_nil, List.mem_singleton] at hname'
    rw [hname']
    exact listedName_ne_manifestName l

theorem zero_not_mem_layerName (d : Digest) (m : MediaType) : 0 ∉ (layerName d m).toUTF8.toList := by
  have htar : ∀ c ∈ ".tar".toList, 0 < c.toNat ∧ c.toNat < 128 := by simp
  have hgz : ∀ c ∈ ".tar.gz".toList, 0 < c.toNat ∧ c.toNat < 128 := by simp
  refine Bytes.zero_not_mem_toUTF8 fun c hc => ?_
  rw [toList_layerName, List.mem_append] at hc
  rcases hc with hc | hc
  · exact Digest.toNat_of_mem_hex hc
  · split_ifs at hc
    · exact htar c hc
    · exact hgz c hc

theorem zero_not_mem_toText (d : Digest) : 0 ∉ d.toText.toUTF8.toList :=
  Bytes.zero_not_mem_toUTF8 fun _ hc => Digest.toNat_of_mem_toText hc

section Framed

variable {document : Digest} {raw manifest : ByteArray} {es : List (String × ByteArray)}

theorem zero_not_mem_framed (hes : ∀ e ∈ es, ∃ d m, e.1 = layerName d m) {e : String × ByteArray}
    (he : e ∈ (document.toText, raw) :: es ++ [(manifestName, manifest)]) : 0 ∉ e.1.toUTF8.toList := by
  rw [List.cons_append, List.mem_cons, List.mem_append, List.mem_singleton] at he
  rcases he with rfl | he | rfl
  · exact zero_not_mem_toText _
  · obtain ⟨d, m, hname⟩ := hes e he
    rw [hname]
    exact zero_not_mem_layerName d m
  · have hall : ∀ c ∈ manifestName.toList, 0 < c.toNat ∧ c.toNat < 128 := by simp [manifestName]
    exact Bytes.zero_not_mem_toUTF8 hall

/-- An archive is read back entry by entry if it begins with a document, ends with a manifest and has only entries
with names of layers between them. -/
theorem entries_framed (hes : ∀ e ∈ es, ∃ d m, e.1 = layerName d m)
    (hsize : (archive ((document.toText, raw) :: es ++ [(manifestName, manifest)])).size < 2 ^ 64) :
    entries (archive ((document.toText, raw) :: es ++ [(manifestName, manifest)])) =
      .ok (((document.toText, raw) :: es ++ [(manifestName, manifest)]).map entryOf) :=
  entries_archive (writable_of_size (fun _ => zero_not_mem_framed hes) hsize)

end Framed

theorem exists_name_of_mem {e : String × ByteArray} {ls : List Layer} (he : e ∈ ls.map (layerEntry content)) :
    ∃ d m, e.1 = layerName d m := by
  obtain ⟨l, -, rfl⟩ := List.mem_map.1 he
  exact ⟨_, _, rfl⟩

theorem zero_not_mem_imageEntries {tag : Tag} {i : Image} {e : String × ByteArray}
    (he : e ∈ imageEntries tag i content) : 0 ∉ e.1.toUTF8.toList :=
  zero_not_mem_framed (fun _ => exists_name_of_mem) he

/-- The archive of an image is read back entry by entry. -/
theorem entries_imageEntries {tag : Tag} {i : Image} (hsize : (archive (imageEntries tag i content)).size < 2 ^ 64) :
    entries (archive (imageEntries tag i content)) = .ok ((imageEntries tag i content).map entryOf) :=
  entries_framed (fun _ => exists_name_of_mem) hsize

/-! ### The manifest -/

/-- What the manifest of an archive is read as, its members in the order of their keys. -/
def manifestRecord (config : String) (tag : Tag) (names : List String) : Json.Value :=
  .array [.object [
    ("Config", .string config),
    ("Layers", .array (names.map .string)),
    ("RepoTags", .array [.string tag.toText])]]

theorem keepItems_strings (depth : Nat) (names : List String) :
    Json.keepItems depth (Json.itemTrees (names.map .string)) = .ok (names.map .string) := by
  induction names with
  | nil => rfl
  | cons name names ih =>
    rw [List.map_cons, Json.itemTrees, Json.keepItems, ih]
    rfl

/-- The manifest of an archive is read back. -/
theorem decode_manifestValue (config : String) (tag : Tag) (names : List String) :
    Json.decodeBytes (Json.Tree.keep 0) (manifestValue config tag names).toBytes =
      .ok (manifestRecord config tag names) := by
  have hmembers : Json.keepMembers 2 .empty (Json.memberTrees [("Config", .string config),
      ("RepoTags", .array [.string tag.toText]), ("Layers", .array (names.map .string))]) =
      .ok (((Dictionary.empty.insert "Config" (.string config)).insert "RepoTags"
        (.array [.string tag.toText])).insert "Layers" (.array (names.map .string))) := by
    simp only [Json.memberTrees, Json.Value.tree, Json.keepMembers, Json.Tree.keep, keepItems_strings]
    rfl
  rw [Json.decodeBytes_toBytes, manifestValue, Json.listValue]
  simp only [Json.Value.tree, Json.itemTrees, Json.Tree.keep, Json.keepItems, hmembers]
  rfl

end ImageAssembly.Export
