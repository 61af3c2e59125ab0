import ImageAssembly.Error
import ImageAssembly.Proofs.Build.Steps

/-! What holds of every image that operations make of the empty one. The manifest describes the stored
document, and the lists of descriptors, of layers and of diff ids are kept in step. Layers are only ever
added with a descriptor and a diff id each, and a document is only replaced by one that lists as many. -/

namespace ImageAssembly.Image

open Workspace

/-! ### Reachable images -/

/-- The images that operations make of the empty one, in the workspaces in which they are. In between,
other layers may be opened and asked, and the files may change. -/
inductive Reachable : Workspace → Image → Prop
  | empty (w : Workspace) : Reachable w .empty
  | later {w w' : Workspace} {i : Image} (hi : Reachable w i) (hw : w.Remembers w') : Reachable w' i
  | withMediaType {w : Workspace} {i : Image} (hi : Reachable w i) (m : MediaType) :
    Reachable w (i.withMediaType m)
  | withConfigMediaType {w : Workspace} {i : Image} (hi : Reachable w i) (m : MediaType) :
    Reachable w (i.withConfigMediaType m)
  | withAnnotations {w : Workspace} {i : Image} (hi : Reachable w i) (annotations : Dictionary String) :
    Reachable w (i.withAnnotations annotations)
  | append {w w' : Workspace} {i j : Image} {addenda : List Addendum} (hi : Reachable w i)
    (held : ∀ a ∈ addenda, w.Holds a.layer) (h : (i.append addenda).perform w = (.ok j, w')) : Reachable w' j
  | withConfigFile {w : Workspace} {i j : Image} {c : ConfigFile} (hi : Reachable w i)
    (h : i.withConfigFile c = .ok j) : Reachable w j
  | build {w w' : Workspace} {i j : Image} {layers : List Layer} {description : Configuration}
    {created : Time.Instant} {arch : Architecture} (hi : Reachable w i) (held : ∀ l ∈ layers, w.Holds l)
    (h : (Build.build i layers description created arch).perform w = (.ok j, w')) : Reachable w' j

/-- Whether a descriptor says what a layer reports. -/
structure Describes (w : Workspace) (d : Descriptor) (l : Layer) : Prop where
  mediaType : d.mediaType = l.mediaType
  digest : l.digest.perform w = (.ok d.digest, w)
  size : l.size.perform w = (.ok d.size, w)

/-- Whether the parts of an image fit each other. -/
structure Consistent (w : Workspace) (i : Image) : Prop where
  digest : i.manifest.config.digest = .sha256 i.rawConfig
  size : i.manifest.config.size = i.rawConfig.size
  layers : i.manifest.layers.length = i.layers.length
  diffIds : ∀ c, ConfigFile.ofBytes i.rawConfig = .ok c → c.rootfs.diffIds.length = i.layers.length
  described : List.Forall₂ (Describes w) i.manifest.layers i.layers

/-- Whether the document, as written and as read, lists what the layers report as their diff ids. -/
structure ListsDiffIds (w : Workspace) (i : Image) : Prop where
  written : ∃ c : ConfigFile, i.rawConfig = c.toBytes ∧
    List.Forall₂ (fun d l => l.diffId.perform w = (.ok d, w)) c.rootfs.diffIds i.layers
  read : ∀ c, ConfigFile.ofBytes i.rawConfig = .ok c →
    List.Forall₂ (fun d l => l.diffId.perform w = (.ok d, w)) c.rootfs.diffIds i.layers

/-! ### The invariant -/

/-- What every operation keeps: the layers have been opened, and what the descriptors say of them is
remembered. The document was written with as many diff ids as there are layers. -/
structure Invariant (w : Workspace) (i : Image) : Prop where
  digest : i.manifest.config.digest = .sha256 i.rawConfig
  size : i.manifest.config.size = i.rawConfig.size
  held : ∀ l ∈ i.layers, w.Holds l
  written : ∃ c : ConfigFile, i.rawConfig = c.toBytes ∧ c.rootfs.diffIds.length = i.layers.length
  described : List.Forall₂ (fun d l => d.mediaType = l.mediaType ∧ l.Knows w (d.digest, d.size))
    i.manifest.layers i.layers

namespace Invariant

variable {w w' : Workspace} {i j : Image}

theorem empty (w : Workspace) : Invariant w .empty where
  digest := rfl
  size := rfl
  held := by simp [Image.empty]
  written := ⟨{}, rfl, rfl⟩
  described := .nil

theorem later (h : Invariant w i) (hw : w.Remembers w') : Invariant w' i where
  digest := h.digest
  size := h.size
  held l hl := (h.held l hl).later hw
  written := h.written
  described := h.described.imp fun _ _ hd => ⟨hd.1, hd.2.later hw⟩

theorem withMediaType (h : Invariant w i) (m : MediaType) : Invariant w (i.withMediaType m) :=
  ⟨h.digest, h.size, h.held, h.written, h.described⟩

theorem withConfigMediaType (h : Invariant w i) (m : MediaType) : Invariant w (i.withConfigMediaType m) :=
  ⟨h.digest, h.size, h.held, h.written, h.described⟩

theorem withAnnotations (h : Invariant w i) (annotations : Dictionary String) :
    Invariant w (i.withAnnotations annotations) :=
  ⟨h.digest, h.size, h.held, h.written, h.described⟩

theorem storeConfig {c : ConfigFile} (held : ∀ l ∈ i.layers, w.Holds l)
    (described : List.Forall₂ (fun d l => d.mediaType = l.mediaType ∧ l.Knows w (d.digest, d.size))
      i.manifest.layers i.layers)
    (hn : c.rootfs.diffIds.length = i.layers.length) : Invariant w (i.storeConfig c) where
  digest := by rw [digest_storeConfig, rawConfig_storeConfig]
  size := by rw [size_storeConfig, rawConfig_storeConfig]
  held := by rwa [layers_storeConfig]
  written := ⟨c, rawConfig_storeConfig i c, by rwa [layers_storeConfig]⟩
  described := by rwa [manifestLayers_storeConfig, layers_storeConfig]

theorem withConfigFile {c : ConfigFile} (h : Invariant w i) (hj : i.withConfigFile c = .ok j) :
    Invariant w j := by
  obtain ⟨hn, rfl⟩ := withConfigFile_eq_ok.1 hj
  exact storeConfig h.held h.described hn

/-- Whatever the document is read as lists as many diff ids as there are layers. -/
theorem length_diffIds (h : Invariant w i) {c : ConfigFile} (hc : ConfigFile.ofBytes i.rawConfig = .ok c) :
    c.rootfs.diffIds.length = i.layers.length := by
  obtain ⟨c', hraw, hn⟩ := h.written
  rw [hraw] at hc
  rw [ConfigFile.rootfs_of_ofBytes_toBytes hc, hn]

theorem append {addenda : List Addendum} (h : Invariant w i) (held : ∀ a ∈ addenda, w.Holds a.layer)
    (hj : (i.append addenda).perform w = (.ok j, w')) : Invariant w' j := by
  obtain ⟨c, summaries, hc, hs, rfl⟩ := append_ok hj
  obtain ⟨hr, -, hsum⟩ := summarizeAll_ok hs
  have hnew := hsum (List.forall_mem_map.2 held)
  obtain ⟨hread, -, -⟩ := appendable_eq_ok.1 hc
  rw [extend_eq]
  refine storeConfig (fun l hl => ?_) ?_ ?_
  · rw [List.mem_append, List.mem_map] at hl
    rcases hl with hl | ⟨a, ha, rfl⟩
    · exact (h.held l hl).later hr
    · exact (held a ha).later hr
  · refine List.rel_append (h.later hr).described ?_
    rw [List.forall₂_map_left_iff]
    exact hnew.imp fun _ _ hd => ⟨hd.mediaType, hd.stored⟩
  · have hn := hnew.length_eq
    rw [extendedConfig, List.length_append, List.length_append, h.length_diffIds hread, List.length_map, hn]

theorem build {layers : List Layer} {description : Configuration} {created : Time.Instant}
    {arch : Architecture} (h : Invariant w i) (held : ∀ l ∈ layers, w.Holds l)
    (hj : (Build.build i layers description created arch).perform w = (.ok j, w')) : Invariant w' j := by
  obtain ⟨c, w1, mid, old, config, -, hcheck, happend, -, -, hcommit⟩ := Build.build_ok hj
  obtain ⟨hr, -⟩ := Build.checkLayers_ok hcheck
  have htyped := ((h.later hr).withMediaType .imageManifest).withConfigMediaType .imageConfig
  have hheld : ∀ a ∈ Build.addendaOf layers created, w1.Holds a.layer := by
    rw [← List.forall_mem_map, Build.map_layer_addendaOf]
    exact fun l hl => (held l hl).later hr
  exact ((htyped.append hheld happend).withAnnotations _).withConfigFile hcommit

theorem consistent (h : Invariant w i) : Consistent w i where
  digest := h.digest
  size := h.size
  layers := h.described.length_eq
  diffIds _ hc := h.length_diffIds hc
  described := h.described.imp fun _ _ hd => ⟨hd.1, hd.2.digest, hd.2.size⟩

end Invariant

/-- The invariant holds of every reachable image. -/
theorem Reachable.invariant {w : Workspace} {i : Image} (h : Reachable w i) : Invariant w i := by
  induction h with
  | empty w => exact .empty w
  | later _ hw ih => exact ih.later hw
  | withMediaType _ m ih => exact ih.withMediaType m
  | withConfigMediaType _ m ih => exact ih.withConfigMediaType m
  | withAnnotations _ annotations ih => exact ih.withAnnotations annotations
  | append _ held h ih => exact ih.append held h
  | withConfigFile _ h ih => exact ih.withConfigFile h
  | build _ held h ih => exact ih.build held h

/-! ### Diff ids -/

/-- Whether the document was written with the diff ids that are known of the layers. -/
def KnowsDiffIds (w : Workspace) (i : Image) : Prop :=
  ∃ c : ConfigFile, i.rawConfig = c.toBytes ∧
    List.Forall₂ (fun d l => l.KnowsDiffId w d) c.rootfs.diffIds i.layers

namespace KnowsDiffIds

variable {w w' : Workspace} {i j : Image}

theorem later (h : KnowsDiffIds w i) (hw : w.Remembers w') : KnowsDiffIds w' i := by
  obtain ⟨c, hraw, hd⟩ := h
  exact ⟨c, hraw, hd.imp fun _ _ hk => hk.later hw⟩

/-- Whatever the document is read as lists the diff ids that are known. -/
theorem read (h : KnowsDiffIds w i) {c : ConfigFile} (hc : ConfigFile.ofBytes i.rawConfig = .ok c) :
    List.Forall₂ (fun d l => l.KnowsDiffId w d) c.rootfs.diffIds i.layers := by
  obtain ⟨c', hraw, hd⟩ := h
  rw [hraw] at hc
  rwa [ConfigFile.rootfs_of_ofBytes_toBytes hc]

theorem append {addenda : List Addendum} (h : KnowsDiffIds w i) (held : ∀ a ∈ addenda, w.Holds a.layer)
    (hj : (i.append addenda).perform w = (.ok j, w')) : KnowsDiffIds w' j := by
  obtain ⟨c, summaries, hc, hs, rfl⟩ := append_ok hj
  obtain ⟨hr, -, hsum⟩ := summarizeAll_ok hs
  obtain ⟨hread, -, -⟩ := appendable_eq_ok.1 hc
  refine ⟨extendedConfig c addenda summaries, rawConfig_extend i c addenda summaries, ?_⟩
  rw [layers_extend, extendedConfig]
  refine List.rel_append ((h.later hr).read hread) ?_
  rw [List.forall₂_map_left_iff]
  exact (hsum (List.forall_mem_map.2 held)).imp fun _ _ hd => hd.diffId

theorem withConfigFile {c old : ConfigFile} (h : KnowsDiffIds w i)
    (hold : ConfigFile.ofBytes i.rawConfig = .ok old) (hc : c.rootfs = old.rootfs)
    (hj : i.withConfigFile c = .ok j) : KnowsDiffIds w j := by
  obtain ⟨-, rfl⟩ := withConfigFile_eq_ok.1 hj
  refine ⟨c, rawConfig_storeConfig i c, ?_⟩
  rw [layers_storeConfig, hc]
  exact h.read hold

theorem build {layers : List Layer} {description : Configuration} {created : Time.Instant}
    {arch : Architecture} (h : KnowsDiffIds w i) (held : ∀ l ∈ layers, w.Holds l)
    (hj : (Build.build i layers description created arch).perform w = (.ok j, w')) : KnowsDiffIds w' j := by
  obtain ⟨c, w1, mid, old, config, -, hcheck, happend, hold, hconfig, hcommit⟩ := Build.build_ok hj
  obtain ⟨hr, -⟩ := Build.checkLayers_ok hcheck
  have htyped : KnowsDiffIds w1 (Build.typed i) := h.later hr
  have hmid : KnowsDiffIds w' mid := by
    refine htyped.append ?_ happend
    rw [← List.forall_mem_map, Build.map_layer_addendaOf]
    exact fun l hl => (held l hl).later hr
  have hannotated : KnowsDiffIds w' (mid.withAnnotations (Provenance.annotations c created)) := hmid
  exact hannotated.withConfigFile hold (Build.rootfs_configure hconfig) hcommit

end KnowsDiffIds

/-- What opened layers report as their diff ids is what is known of them. -/
theorem listsDiffIds_iff {w : Workspace} {i : Image} (held : ∀ l ∈ i.layers, w.Holds l) :
    ListsDiffIds w i ↔ KnowsDiffIds w i := by
  have hknown : ∀ ds : List Digest, List.Forall₂ (fun d l => l.diffId.perform w = (.ok d, w)) ds i.layers ↔
      List.Forall₂ (fun d l => l.KnowsDiffId w d) ds i.layers := by
    intro ds
    rw [List.forall₂_iff_zip, List.forall₂_iff_zip]
    refine and_congr_right fun _ => forall₂_congr fun d l => imp_congr_right fun hdl => ?_
    exact Layer.perform_diffId_eq_iff (held l (List.of_mem_zip hdl).2)
  constructor
  · rintro ⟨⟨c, hraw, hd⟩, -⟩
    exact ⟨c, hraw, (hknown _).1 hd⟩
  · intro h
    refine ⟨?_, fun c hc => (hknown _).2 (h.read hc)⟩
    obtain ⟨c, hraw, hd⟩ := h
    exact ⟨c, hraw, (hknown _).2 hd⟩

/-! ### Reachable images are consistent -/

theorem withConfigFile_fails_iff (i : Image) (c : ConfigFile) :
    (i.withConfigFile c).mapError (fun f => (Error.commit f).kind) = .error .configCommit ↔
      c.rootfs.diffIds.length ≠ i.layers.length := by
  rw [withConfigFile]
  split_ifs with h
  · exact ⟨fun _ => h, fun _ => rfl⟩
  · exact ⟨fun he => by simp [Except.mapError] at he, fun hn => absurd hn h⟩

/-- Every image that operations make of the empty one is consistent. Putting layers on it and building on
it keep the diff ids those of the layers, and its document can be replaced just by one that lists as many. -/
theorem consistent_of_reachable {w : Workspace} {i : Image} (h : Reachable w i) :
    Consistent w i ∧
      (∀ (addenda : List Addendum) (j : Image) (w' : Workspace), (∀ a ∈ addenda, w.Holds a.layer) →
        (i.append addenda).perform w = (.ok j, w') → ListsDiffIds w i → ListsDiffIds w' j) ∧
      (∀ (layers : List Layer) (description : Configuration) (created : Time.Instant) (arch : Architecture)
        (j : Image) (w' : Workspace), (∀ l ∈ layers, w.Holds l) →
        (Build.build i layers description created arch).perform w = (.ok j, w') →
        ListsDiffIds w i → ListsDiffIds w' j) ∧
      ∀ c : ConfigFile,
        (i.withConfigFile c).mapError (fun f => (Error.commit f).kind) = .error .configCommit ↔
          c.rootfs.diffIds.length ≠ i.layers.length := by
  have hi := h.invariant
  refine ⟨hi.consistent, fun addenda j w' held hj hlists => ?_,
    fun layers description created arch j w' held hj hlists => ?_, withConfigFile_fails_iff i⟩
  · rw [listsDiffIds_iff hi.held] at hlists
    rw [listsDiffIds_iff (hi.append held hj).held]
    exact hlists.append held hj
  · rw [listsDiffIds_iff hi.held] at hlists
    rw [listsDiffIds_iff (hi.build held hj).held]
    exact hlists.build held hj

/-- The empty image with two layers on it. -/
theorem consistent_of_two_layers : ∃ j w', (Image.empty.append
    [⟨.memory (.ofTar ⟨#[1]⟩), {}⟩, ⟨.memory (.ofTar ⟨#[2]⟩), { comment := "second" }⟩]).perform .empty = (.ok j, w') ∧
      Reachable w' j ∧ Consistent w' j := by
  have hknown : ∀ a ∈ [(⟨.memory (.ofTar ⟨#[1]⟩), {}⟩ : Addendum), ⟨.memory (.ofTar ⟨#[2]⟩), { comment := "second" }⟩],
      a.layer.Known .empty := by
    simp only [List.forall_mem_cons]
    exact ⟨Layer.known_memory _ _, Layer.known_memory _ _, by simp⟩
  obtain ⟨ss, hj⟩ := exists_append appendable_empty hknown
  have hreachable := (Reachable.empty .empty).append (by simp [Workspace.Holds]) hj
  exact ⟨_, _, hj, hreachable, (consistent_of_reachable hreachable).1⟩

end ImageAssembly.Image
