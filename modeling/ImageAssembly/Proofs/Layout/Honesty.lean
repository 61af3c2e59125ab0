import ImageAssembly.Proofs.Build.Steps
import ImageAssembly.Proofs.Layout.Loading

/-! Digests of loaded images. Loading a layout checks no digest and no size, so that an image is what its digests say
just as far as its layout is. What is put on it is described by what it is, and what was there stays as it was. -/

namespace ImageAssembly

open Workspace

/-- Whether a digest is that of bytes, as far as it is one that is computed here. -/
def Digest.Names (d : Digest) (b : ByteArray) : Prop := d.algorithm = sha256Name → d = .sha256 b

/-- Whether a descriptor gives the digest and the size of bytes, as far as the digest is one that is computed here. -/
def Descriptor.Tells (d : Descriptor) (b : ByteArray) : Prop :=
  d.digest.algorithm = Digest.sha256Name → d.digest = .sha256 b ∧ d.size = b.size

namespace Layout

variable {w w' : Workspace} {fs : Files} {root : String} {i : Image}

/-- Whether the blobs of a layout are what their names and their descriptors say. -/
structure Honest (fs : Files) (root : String) : Prop where
  manifest : ∀ digest bytes, manifestDigest fs root = .ok digest → fs.read (blobPath root digest) = .ok bytes →
    digest.Names bytes
  blobs : ∀ digest bytes m, manifestDigest fs root = .ok digest → fs.read (blobPath root digest) = .ok bytes →
    Manifest.ofBytes bytes = .ok m → ∀ d ∈ m.config :: m.layers, ∀ b, fs.read (blobPath root d.digest) = .ok b →
      d.Tells b

/-- Whether a descriptor tells what a layer reports, as far as the digest is one that is computed here. -/
def Reports (w : Workspace) (d : Descriptor) (l : Layer) : Prop := d.digest.algorithm = Digest.sha256Name →
  (l.digest.perform w).1 = .ok d.digest ∧ (l.size.perform w).1 = .ok d.size

/-- Whether an image that has been loaded agrees with its digests: the manifest has been read from the bytes that the
index names, and the descriptors tell the document and what the layers report. -/
structure Verified (w : Workspace) (root : String) (i : Image) : Prop where
  manifest : ∃ digest bytes, manifestDigest w.files root = .ok digest ∧
    w.files.read (blobPath root digest) = .ok bytes ∧ Manifest.ofBytes bytes = .ok i.manifest ∧ digest.Names bytes
  config : i.manifest.config.Tells i.rawConfig
  layers : List.Forall₂ (Reports w) i.manifest.layers i.layers

/-! ### Descriptors of layers -/

/-- Whether a descriptor tells the bytes that a layer delivers. -/
def TrueOf (w : Workspace) (d : Descriptor) (l : Layer) : Prop := ∃ b, l.Delivers w b ∧ d.Tells b

/-- Whether a descriptor has the digest and the size of the bytes that a layer delivers. -/
def Describes (w : Workspace) (d : Descriptor) (l : Layer) : Prop :=
  ∃ b, l.Delivers w b ∧ d.digest = .sha256 b ∧ d.size = b.size

theorem Describes.trueOf {d : Descriptor} {l : Layer} (h : Describes w d l) : TrueOf w d l := by
  obtain ⟨b, hb, htold⟩ := h
  exact ⟨b, hb, fun _ => htold⟩

theorem trueOf_iff {d : Descriptor} {l : Layer} {b : ByteArray} (h : l.Delivers w b) : TrueOf w d l ↔ d.Tells b := by
  constructor
  · rintro ⟨b', hb', htells⟩
    rwa [h.unique hb']
  · exact fun htells => ⟨b, h, htells⟩

theorem reports_iff {d : Descriptor} {l : Layer} {b : ByteArray} (h : l.Delivers w b) : Reports w d l ↔ d.Tells b := by
  rw [Reports, Descriptor.Tells, h.digest, h.size, Except.ok.injEq, Except.ok.injEq]
  exact imp_congr_right fun _ => and_congr eq_comm eq_comm

/-- Every layer of descriptors delivers the bytes of its blob. -/
theorem delivers_layersFrom {ds : List Descriptor} {n : Nat} (hfresh : ∀ id ≥ n, w.memo id = {})
    (hfiles : ∀ d ∈ ds, w.files.isFile (blobPath root d.digest) = true) :
    List.Forall₂ (fun d l => ∃ b, w.files.read (blobPath root d.digest) = .ok b ∧ l.Delivers w b) ds
      (layersFrom root n ds) := by
  induction ds generalizing n with
  | nil => exact .nil
  | cons d ds ih =>
    rw [List.forall_mem_cons] at hfiles
    obtain ⟨b, hb⟩ := Files.isFile_eq_true.1 hfiles.1
    refine .cons ⟨b, hb, hb, fun s hs => ?_⟩ (ih (fun id hid => hfresh id (Nat.le_of_succ_le hid)) hfiles.2)
    rw [hfresh n (Nat.le_refl n)] at hs
    cases hs

/-- What holds of descriptors and layers just if the descriptors tell what the layers deliver holds of all of them just
if the blobs are what the descriptors tell. -/
theorem forall₂_iff_blobs {r : Descriptor → Layer → Prop} {ds : List Descriptor} {ls : List Layer}
    (hr : ∀ d l b, l.Delivers w b → (r d l ↔ d.Tells b))
    (h : List.Forall₂ (fun d l => ∃ b, fs.read (blobPath root d.digest) = .ok b ∧ l.Delivers w b) ds ls) :
    List.Forall₂ r ds ls ↔ ∀ d ∈ ds, ∀ b, fs.read (blobPath root d.digest) = .ok b → d.Tells b := by
  induction h with
  | nil => simp
  | @cons d l ds ls hd _ ih =>
    obtain ⟨b, hb, hdelivers⟩ := hd
    rw [List.forall₂_cons, List.forall_mem_cons, ih, hr d l b hdelivers]
    refine and_congr_left fun _ => ⟨fun htells b' hb' => ?_, fun htells => htells b hb⟩
    rwa [← Except.ok.inj (hb.symm.trans hb')]

/-! ### Loaded images -/

theorem delivers_of_load (h : (load root).perform w = (.ok i, w')) :
    List.Forall₂ (fun d l => ∃ b, w.files.read (blobPath root d.digest) = .ok b ∧ l.Delivers w' b)
      i.manifest.layers i.layers := by
  obtain ⟨-, hfiles, hlayers, rfl⟩ := load_eq_ok.1 h
  rw [hlayers]
  exact delivers_layersFrom (w := w.opened _) (fun id hid => memo_opened w _ hid) hfiles

/-- An image that has been loaded agrees with its digests just if the layout is what its digests say. -/
theorem verified_iff_honest (h : (load root).perform w = (.ok i, w')) : Verified w' root i ↔ Honest w.files root := by
  have hlayers := forall₂_iff_blobs (fun d l b => reports_iff (d := d)) (delivers_of_load h)
  obtain ⟨hdocuments, -, -, rfl⟩ := load_eq_ok.1 h
  obtain ⟨-, digest, bytes, hlayout⟩ := readDocuments_eq_ok.1 hdocuments
  have hmanifest : ∀ digest' bytes', manifestDigest w.files root = .ok digest' →
      w.files.read (blobPath root digest') = .ok bytes' → digest' = digest ∧ bytes' = bytes := by
    intro digest' bytes' hlisted hstored
    obtain rfl := Except.ok.inj (hlayout.listed.symm.trans hlisted)
    exact ⟨rfl, Except.ok.inj (hstored.symm.trans hlayout.stored)⟩
  constructor
  · rintro ⟨⟨digest', bytes', hlisted, hstored, -, hnames⟩, hconfig, hreports⟩
    obtain ⟨rfl, rfl⟩ := hmanifest _ _ hlisted hstored
    constructor
    · intro d b hd hb
      obtain ⟨rfl, rfl⟩ := hmanifest _ _ hd hb
      exact hnames
    · intro d b m hd hb hm
      obtain ⟨rfl, rfl⟩ := hmanifest _ _ hd hb
      obtain rfl := Except.ok.inj (hlayout.manifest.symm.trans hm)
      refine List.forall_mem_cons.2 ⟨fun c hc => ?_, hlayers.1 hreports⟩
      rwa [← Except.ok.inj (hlayout.config.symm.trans hc)]
  · intro hhonest
    have hblobs := List.forall_mem_cons.1 (hhonest.blobs _ _ _ hlayout.listed hlayout.stored hlayout.manifest)
    exact ⟨⟨digest, bytes, hlayout.listed, hlayout.stored, hlayout.manifest,
      hhonest.manifest _ _ hlayout.listed hlayout.stored⟩, hblobs.1 _ hlayout.config, hlayers.2 hblobs.2⟩

/-! ### Images that grow -/

/-- The images that operations make of a base, in the workspaces in which they are. In between, other layers may be
opened and asked and files may change, as long as the layers of the image deliver what they delivered. -/
inductive Grown (base : Image) (start : Workspace) : Workspace → Image → Prop
  | start : Grown base start start base
  | later {w w' : Workspace} {i : Image} (hi : Grown base start w i)
    (hkept : ∀ l ∈ i.layers, ∀ b, l.Delivers w b → l.Delivers w' b) : Grown base start w' i
  | withMediaType {w : Workspace} {i : Image} (hi : Grown base start w i) (m : MediaType) :
    Grown base start w (i.withMediaType m)
  | withConfigMediaType {w : Workspace} {i : Image} (hi : Grown base start w i) (m : MediaType) :
    Grown base start w (i.withConfigMediaType m)
  | withAnnotations {w : Workspace} {i : Image} (hi : Grown base start w i) (annotations : Dictionary String) :
    Grown base start w (i.withAnnotations annotations)
  | append {w w' : Workspace} {i j : Image} {addenda : List Addendum} (hi : Grown base start w i)
    (hopened : w.Opened (i.layers ++ addenda.map (·.layer)))
    (hdelivers : ∀ l ∈ addenda.map (·.layer), ∃ b, l.Delivers w b)
    (h : (i.append addenda).perform w = (.ok j, w')) : Grown base start w' j
  | withConfigFile {w : Workspace} {i j : Image} {c : ConfigFile} (hi : Grown base start w i)
    (h : i.withConfigFile c = .ok j) : Grown base start w j
  | build {w w' : Workspace} {i j : Image} {layers : List Layer} {description : Configuration}
    {created : Time.Instant} {arch : Architecture} (hi : Grown base start w i)
    (hopened : w.Opened (i.layers ++ layers)) (hdelivers : ∀ l ∈ layers, ∃ b, l.Delivers w b)
    (h : (Build.build i layers description created arch).perform w = (.ok j, w')) : Grown base start w' j

/-- What every operation keeps of a base: its layers deliver what they delivered, they come first with their
descriptors, and the descriptors behind these are those of what the layers behind them deliver. -/
structure Extends (base : Image) (start : Workspace) (w : Workspace) (i : Image) : Prop where
  kept : ∀ l ∈ base.layers, ∀ b, l.Delivers start b → l.Delivers w b
  added : ∃ ds ls, i.manifest.layers = base.manifest.layers ++ ds ∧ i.layers = base.layers ++ ls ∧
    List.Forall₂ (Describes w) ds ls

namespace Extends

variable {base j : Image} {start : Workspace}

theorem refl (base : Image) (start : Workspace) : Extends base start start base :=
  ⟨fun _ _ _ h => h, [], [], by simp, by simp, .nil⟩

theorem later (h : Extends base start w i) (hkept : ∀ l ∈ i.layers, ∀ b, l.Delivers w b → l.Delivers w' b) :
    Extends base start w' i := by
  obtain ⟨hbase, ds, ls, hds, hls, hadded⟩ := h
  rw [hls] at hkept
  refine ⟨fun l hl b hb => hkept l (by simp [hl]) b (hbase l hl b hb), ds, ls, hds, hls, ?_⟩
  rw [List.forall₂_iff_zip] at hadded ⊢
  refine ⟨hadded.1, fun hdl => ?_⟩
  obtain ⟨b, hb, htold⟩ := hadded.2 hdl
  exact ⟨b, hkept _ (by simp [(List.of_mem_zip hdl).2]) b hb, htold⟩

theorem of_layers (h : Extends base start w i) (hds : j.manifest.layers = i.manifest.layers)
    (hls : j.layers = i.layers) : Extends base start w j :=
  ⟨h.kept, by rw [hds, hls]; exact h.added⟩

/-- Layers that deliver bytes are put on with the descriptors of these. -/
theorem append {addenda : List Addendum} (h : Extends base start w i)
    (hopened : w.Opened (i.layers ++ addenda.map (·.layer)))
    (hdelivers : ∀ l ∈ addenda.map (·.layer), ∃ b, l.Delivers w b)
    (hj : (i.append addenda).perform w = (.ok j, w')) : Extends base start w' j := by
  have hlearns : Learns (i.layers ++ addenda.map (·.layer)) w w' :=
    (Image.leads_append i fun l hl => Layer.asks_learns (List.mem_append_right _ hl) hopened.own).of_perform hj
  obtain ⟨c, summaries, -, hs, rfl⟩ := Image.append_ok hj
  obtain ⟨-, -, hsum⟩ := Image.summarizeAll_ok hs
  have hnew := hsum fun l hl => hopened.held l (List.mem_append_right _ hl)
  obtain ⟨hkept, ds, ls, hds, hls, hadded⟩ := h.later fun l hl b hb => hb.learns (List.mem_append_left _ hl) hlearns
  refine ⟨hkept, ds ++ summaries.map (·.descriptor), ls ++ addenda.map (·.layer), ?_, ?_, List.rel_append hadded ?_⟩
  · rw [Image.manifestLayers_extend, hds, List.append_assoc]
  · rw [Image.layers_extend, hls, List.append_assoc]
  · rw [List.forall₂_map_left_iff, List.forall₂_iff_zip]
    refine ⟨hnew.length_eq, fun {s l} hsl => ?_⟩
    have hl := (List.of_mem_zip hsl).2
    obtain ⟨b, hb⟩ := hdelivers l hl
    have hb' := hb.learns (List.mem_append_right _ hl) hlearns
    have htold := hb'.knows ((List.forall₂_iff_zip.1 hnew).2 hsl).stored
    rw [Prod.mk.injEq] at htold
    exact ⟨b, hb', htold⟩

theorem withConfigFile {c : ConfigFile} (h : Extends base start w i) (hj : i.withConfigFile c = .ok j) :
    Extends base start w j := by
  obtain ⟨-, rfl⟩ := Image.withConfigFile_eq_ok.1 hj
  exact h.of_layers (Image.manifestLayers_storeConfig i c) (Image.layers_storeConfig i c)

theorem build {layers : List Layer} {description : Configuration} {created : Time.Instant} {arch : Architecture}
    (h : Extends base start w i) (hopened : w.Opened (i.layers ++ layers))
    (hdelivers : ∀ l ∈ layers, ∃ b, l.Delivers w b)
    (hj : (Build.build i layers description created arch).perform w = (.ok j, w')) : Extends base start w' j := by
  obtain ⟨c, w1, mid, old, config, -, hcheck, happend, -, -, hcommit⟩ := Build.build_ok hj
  have hlearns : Learns (i.layers ++ layers) w w1 :=
    (Build.leads_checkLayers fun l hl => Layer.asks_learns (List.mem_append_right _ hl) hopened.own).of_perform hcheck
  have htyped : Extends base start w1 (Build.typed i) :=
    (h.later fun l hl b hb => hb.learns (List.mem_append_left _ hl) hlearns).of_layers rfl rfl
  have hmid : Extends base start w' mid := by
    refine htyped.append ⟨?_, ?_⟩ ?_ happend <;> rw [Build.map_layer_addendaOf]
    · exact fun l hl => (hopened.held l hl).later hlearns.remembers
    · exact hopened.own
    · exact fun l hl => (hdelivers l hl).imp fun b hb => hb.learns (List.mem_append_right _ hl) hlearns
  exact (hmid.of_layers rfl rfl : Extends base start w' (mid.withAnnotations _)).withConfigFile hcommit

end Extends

theorem Grown.extends {base : Image} {start : Workspace} (h : Grown base start w i) : Extends base start w i := by
  induction h with
  | start => exact .refl base start
  | later _ hkept ih => exact ih.later hkept
  | withMediaType _ m ih => exact ih.of_layers rfl rfl
  | withConfigMediaType _ m ih => exact ih.of_layers rfl rfl
  | withAnnotations _ annotations ih => exact ih.of_layers rfl rfl
  | append _ hopened hdelivers h ih => exact ih.append hopened hdelivers h
  | withConfigFile _ h ih => exact ih.withConfigFile h
  | build _ hopened hdelivers h ih => exact ih.build hopened hdelivers h

/-- The descriptors of an image that operations make of one that has been loaded are true just if the layer blobs of the
layout are what their descriptors say. -/
theorem trueOf_grown_iff {v : Workspace} {j : Image} (h : (load root).perform w = (.ok i, w')) (hj : Grown i w' v j) :
    List.Forall₂ (TrueOf v) j.manifest.layers j.layers ↔
      ∀ d ∈ i.manifest.layers, ∀ b, w.files.read (blobPath root d.digest) = .ok b → d.Tells b := by
  have hbase := delivers_of_load h
  obtain ⟨hkept, ds, ls, hds, hls, hadded⟩ := hj.extends
  have hnow : List.Forall₂ (fun d l => ∃ b, w.files.read (blobPath root d.digest) = .ok b ∧ l.Delivers v b)
      i.manifest.layers i.layers := by
    rw [List.forall₂_iff_zip] at hbase ⊢
    refine ⟨hbase.1, fun hdl => ?_⟩
    obtain ⟨b, hb, hdelivers⟩ := hbase.2 hdl
    exact ⟨b, hb, hkept _ (List.of_mem_zip hdl).2 b hdelivers⟩
  rw [← forall₂_iff_blobs (fun _ _ _ => trueOf_iff) hnow, hds, hls]
  constructor
  · intro hall
    have hfirst := List.forall₂_take_append _ _ _ hall
    rwa [← hbase.length_eq, List.take_left] at hfirst
  · exact fun hfirst => List.rel_append hfirst (hadded.imp fun _ _ => Describes.trueOf)

end Layout

/-- An image that has been loaded agrees with its digests just if the layout is what its digests say, for nothing of
this is checked. Whatever is made of it, the layers that are put on have the descriptors of what they deliver, and all
descriptors are true of what the layers deliver just if those of the layout's layers were. -/
theorem loaded_iff_honest {root : String} {w w' : Workspace} {i : Image}
    (h : (Layout.load root).perform w = (.ok i, w')) :
    (Layout.Verified w' root i ↔ Layout.Honest w.files root) ∧
    ∀ v j, Layout.Grown i w' v j → Layout.Extends i w' v j ∧
      (List.Forall₂ (Layout.TrueOf v) j.manifest.layers j.layers ↔
        ∀ d ∈ i.manifest.layers, ∀ b, w.files.read (Layout.blobPath root d.digest) = .ok b → d.Tells b) :=
  ⟨Layout.verified_iff_honest h, fun _ _ hj => ⟨hj.extends, Layout.trueOf_grown_iff h hj⟩⟩

/-! ### A layout with wrong names -/

namespace Digest

theorem isAlgorithm_sha256Name : isAlgorithm sha256Name.toList = true := by decide

theorem hex_uniform {c : Char} (h : isLowerHexDigit c = true) : String.ofList (List.replicate 64 c) ≠ "" ∧
    (String.ofList (List.replicate 64 c)).toList.all isLowerHexDigit = true := by
  refine ⟨fun he => ?_, by simpa using h⟩
  simpa using congrArg String.toList he

theorem length_uniform (c : Char) : (String.ofList (List.replicate 64 c)).toList.length = 64 := by simp

/-- The digest whose hash is one digit over and over. -/
def uniform (c : Char) (h : isLowerHexDigit c = true) : Digest where
  algorithm := sha256Name
  hex := String.ofList (List.replicate 64 c)
  algorithm_ok := isAlgorithm_sha256Name
  hex_ok := hex_uniform h
  length_ok _ := length_uniform c

end Digest

namespace Layout

def zeros : Digest := .uniform '0' (by decide)

def ones : Digest := .uniform '1' (by decide)

def twos : Digest := .uniform '2' (by decide)

def wrongManifest : Manifest :=
  ⟨2, some .imageManifest, ⟨.imageConfig, ones, 0, .empty⟩, [⟨.layer, twos, 0, .empty⟩], .empty⟩

/-- A layout whose document and layer are both empty, under digests that are not the same. -/
def wrongFiles : Files := ⟨[
  (["l"], .directory),
  (["l", "oci-layout"], .file .empty),
  (["l", "index.json"], .file (Index.valueOf [⟨.imageManifest, zeros, 0, .empty⟩]).toBytes),
  (["l", "blobs"], .directory),
  (["l", "blobs", "sha256"], .directory),
  (["l", "blobs", "sha256", zeros.hex], .file wrongManifest.toBytes),
  (["l", "blobs", "sha256", ones.hex], .file .empty),
  (["l", "blobs", "sha256", twos.hex], .file .empty)]⟩

def wrongImage : Image := ⟨wrongManifest, .empty, [.file ⟨0, blobPath "l" twos, .layer⟩]⟩

/-- The documents of the layout with wrong names. -/
theorem documents_wrongFiles : Documents wrongFiles "l" zeros wrongManifest.toBytes wrongManifest .empty where
  listed := manifestDigest_of_read (d := ⟨.imageManifest, zeros, 0, .empty⟩) (by decide) rfl
  stored := rfl
  manifest := by
    have hsize : 0 < Text.Integer.bound 64 := by decide
    exact Manifest.ofBytes_toBytes ⟨by decide, hsize, List.forall_mem_singleton.2 hsize⟩
  config := rfl

theorem read_twos : wrongFiles.read (blobPath "l" twos) = .ok .empty := rfl

theorem load_wrongFiles : (load "l").perform ⟨wrongFiles, []⟩ = (.ok wrongImage, ⟨wrongFiles, [default]⟩) :=
  load_eq_ok.2 ⟨readDocuments_eq_ok.2 ⟨rfl, zeros, _, documents_wrongFiles⟩,
    List.forall_mem_singleton.2 (Files.isFile_eq_true.2 ⟨_, read_twos⟩), rfl, rfl⟩

/-- A layout with wrong names is loaded, and the image disagrees with its digests. -/
theorem load_accepts_wrong_names : ∃ i w', (load "l").perform ⟨wrongFiles, []⟩ = (.ok i, w') ∧ ¬Verified w' "l" i := by
  refine ⟨_, _, load_wrongFiles, fun h => ?_⟩
  have hlayout := documents_wrongFiles
  have hhonest := (verified_iff_honest load_wrongFiles).1 h
  have hblobs := hhonest.blobs _ _ _ hlayout.listed hlayout.stored hlayout.manifest
  -- one and the same content cannot have both digests
  obtain ⟨hones, -⟩ := hblobs wrongManifest.config (by simp) _ hlayout.config rfl
  obtain ⟨htwos, -⟩ := hblobs ⟨.layer, twos, 0, .empty⟩ (by simp [wrongManifest]) _ read_twos rfl
  have hne : ones ≠ twos := by decide
  exact hne (hones.trans htwos.symm)

end Layout

theorem loaded_iff_honest_wrongFiles :
    (Layout.load "l").perform ⟨Layout.wrongFiles, []⟩ = (.ok Layout.wrongImage, ⟨Layout.wrongFiles, [default]⟩) ∧
    (Layout.Verified ⟨Layout.wrongFiles, [default]⟩ "l" Layout.wrongImage ↔ Layout.Honest Layout.wrongFiles "l") ∧
    ∀ v j, Layout.Grown Layout.wrongImage ⟨Layout.wrongFiles, [default]⟩ v j →
      Layout.Extends Layout.wrongImage ⟨Layout.wrongFiles, [default]⟩ v j ∧
      (List.Forall₂ (Layout.TrueOf v) j.manifest.layers j.layers ↔
        ∀ d ∈ Layout.wrongImage.manifest.layers, ∀ b,
          Layout.wrongFiles.read (Layout.blobPath "l" d.digest) = .ok b → d.Tells b) :=
  ⟨Layout.load_wrongFiles, loaded_iff_honest Layout.load_wrongFiles⟩

end ImageAssembly
