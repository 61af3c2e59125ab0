import ImageAssembly.Proofs.Index
import ImageAssembly.Proofs.Layer.Storage
import ImageAssembly.Proofs.Layout.Paths
import Mathlib.Data.List.Find

/-! What loading a layout gives, and what it depends on. The documents are the bytes of the blobs that are named,
each layer is a file that nothing is remembered of, and nothing matters but what the paths of the layout lead to. -/

namespace ImageAssembly

open Workspace

namespace Workspace

/-- A workspace in which more layers have been opened. -/
def opened (w : Workspace) (n : Nat) : Workspace := { w with memos := w.memos ++ List.replicate n default }

@[simp] theorem files_opened (w : Workspace) (n : Nat) : (w.opened n).files = w.files := rfl

@[simp] theorem length_memos_opened (w : Workspace) (n : Nat) : (w.opened n).memos.length = w.memos.length + n := by
  simp [opened]

theorem opened_zero (w : Workspace) : w.opened 0 = w := by simp [opened]

theorem opened_opened (w : Workspace) (n : Nat) : (w.opened 1).opened n = w.opened (n + 1) := by
  simp [opened, List.replicate_succ]

/-- Of a layer that has just been opened nothing is remembered. -/
theorem memo_opened (w : Workspace) (n : Nat) {id : Nat} (h : w.memos.length ≤ id) : (w.opened n).memo id = {} := by
  rw [memo, opened, List.getD_eq_getElem?_getD, List.getElem?_append_right h, List.getElem?_replicate]
  split_ifs <;> rfl

end Workspace

namespace Layout

variable {w w' : Workspace} {fs : Files} {root : String} {ds : List Descriptor}

/-! ### Documents -/

theorem readText_of_read {path : String} {v : Json.Value} (h : fs.read path = .ok v.toBytes) :
    fs.readText path = .ok v.toText := by
  rw [Files.readText, h, Json.Value.toBytes]
  simp only [bind, Except.bind, Bytes.fromUTF8?_toUTF8]
  rfl

/-- The digest that an index of one manifest names is that of the manifest. -/
theorem manifestDigest_of_read {d : Descriptor} (hd : d.size < Text.Integer.bound 63)
    (h : fs.read (join root "index.json") = .ok (Index.valueOf [d]).toBytes) :
    manifestDigest fs root = .ok d.digest := by
  have hdecode := Index.decode_valueOf (List.forall_mem_singleton.2 hd)
  rw [Json.Value.toBytes] at hdecode
  rw [manifestDigest, readText_of_read h]
  simp only [bind, Except.bind, hdecode, Except.mapError, List.map_singleton, Digest.parse_toText]

/-- Whether a manifest and a configuration document are what a layout has: the manifest is read from the bytes under
the digest that the index lists first, and the document is the bytes under the digest that the manifest names. -/
structure Documents (fs : Files) (root : String) (digest : Digest) (bytes : ByteArray) (m : Manifest)
    (rawConfig : ByteArray) : Prop where
  listed : manifestDigest fs root = .ok digest
  stored : fs.read (blobPath root digest) = .ok bytes
  manifest : Manifest.ofBytes bytes = .ok m
  config : fs.read (blobPath root m.config.digest) = .ok rawConfig

theorem readDocuments_eq_ok {m : Manifest} {rawConfig : ByteArray} : readDocuments fs root = .ok (m, rawConfig) ↔
    checkNames fs root = .ok () ∧ ∃ digest bytes, Documents fs root digest bytes m rawConfig := by
  simp only [readDocuments, readBlob, bind_eq_ok, mapError_eq_ok, pure, Except.pure, Except.ok.injEq,
    Prod.mk.injEq]
  constructor
  · rintro ⟨u, hnames, digest, hlisted, bytes, hstored, m', hmanifest, rawConfig', hconfig, rfl, rfl⟩
    exact ⟨hnames, digest, bytes, hlisted, hstored, hmanifest, hconfig⟩
  · rintro ⟨hnames, digest, bytes, h⟩
    exact ⟨(), hnames, digest, h.listed, bytes, h.stored, m, h.manifest, rawConfig, h.config, rfl, rfl⟩

/-! ### Layers -/

/-- The layers of descriptors, with memos from a number on. -/
def layersFrom (root : String) : Nat → List Descriptor → List Layer
  | _, [] => []
  | n, d :: ds => .file ⟨n, blobPath root d.digest, d.mediaType⟩ :: layersFrom root (n + 1) ds

theorem perform_layersOf_cons (root : String) (d : Descriptor) (ds : List Descriptor) (w : Workspace) :
    (layersOf root (d :: ds)).perform w =
      if w.files.isFile (blobPath root d.digest) then
        match (layersOf root ds).perform (w.opened 1) with
        | (.ok ls, w') => (.ok (.file ⟨w.memos.length, blobPath root d.digest, d.mediaType⟩ :: ls), w')
        | (.error fault, w') => (.error fault, w')
      else (.error (.missingLayer d.digest (blobPath root d.digest)), w) := by
  rw [layersOf, Action.perform_bind, Action.perform_get]
  dsimp only
  by_cases hfile : w.files.isFile (blobPath root d.digest) = true
  · have hopen : (FileLayer.ofType (blobPath root d.digest) d.mediaType : Action Fault FileLayer).perform w =
        (.ok ⟨w.memos.length, blobPath root d.digest, d.mediaType⟩, w.opened 1) := rfl
    rw [if_neg (by simp [hfile]), if_pos hfile, Action.perform_bind, hopen]
    dsimp only
    rw [Action.perform_bind]
    rcases (layersOf root ds).perform (w.opened 1) with ⟨fault | ls, w'⟩ <;> rfl
  · rw [if_pos (by simp [hfile]), if_neg hfile]
    rfl

/-- The layers of descriptors are opened if there is a file for each. -/
theorem perform_layersOf (h : ∀ d ∈ ds, w.files.isFile (blobPath root d.digest) = true) :
    (layersOf root ds).perform w = (.ok (layersFrom root w.memos.length ds), w.opened ds.length) := by
  induction ds generalizing w with
  | nil => rw [layersOf, Action.perform_pure, List.length_nil, opened_zero, layersFrom]
  | cons d ds ih =>
    rw [List.forall_mem_cons] at h
    rw [perform_layersOf_cons, if_pos h.1, ih (w := w.opened 1) h.2, opened_opened, length_memos_opened,
      List.length_cons, layersFrom]

theorem isFile_of_layersOf {ls : List Layer} (h : (layersOf root ds).perform w = (.ok ls, w')) :
    ∀ d ∈ ds, w.files.isFile (blobPath root d.digest) = true := by
  induction ds generalizing w ls with
  | nil => simp
  | cons d ds ih =>
    rw [perform_layersOf_cons] at h
    split_ifs at h with hfile
    · rcases hrun : (layersOf root ds).perform (w.opened 1) with ⟨fault | rest, w1⟩
      · rw [hrun] at h
        cases h
      · rw [hrun] at h
        obtain ⟨-, rfl⟩ := Prod.mk.inj h
        exact List.forall_mem_cons.2 ⟨hfile, ih (w := w.opened 1) hrun⟩
    · cases h

theorem perform_load (root : String) (w : Workspace) :
    (load root).perform w = match readDocuments w.files root with
      | .error fault => (.error fault, w)
      | .ok (m, rawConfig) => match (layersOf root m.layers).perform w with
        | (.ok layers, w') => (.ok ⟨m, rawConfig, layers⟩, w')
        | (.error fault, w') => (.error fault, w') := by
  rw [load, Action.perform_bind, Action.perform_ofFiles]
  cases readDocuments w.files root with
  | error fault => rfl
  | ok x =>
    dsimp only
    rw [Action.perform_bind]
    rcases (layersOf root x.1.layers).perform w with ⟨fault | layers, w'⟩ <;> rfl

/-- A layout is loaded just if it has the documents and a file for each layer. -/
theorem load_eq_ok {i : Image} : (load root).perform w = (.ok i, w') ↔
    readDocuments w.files root = .ok (i.manifest, i.rawConfig) ∧
      (∀ d ∈ i.manifest.layers, w.files.isFile (blobPath root d.digest) = true) ∧
      i.layers = layersFrom root w.memos.length i.manifest.layers ∧ w' = w.opened i.manifest.layers.length := by
  obtain ⟨m, rawConfig, layers⟩ := i
  dsimp only
  rw [perform_load]
  constructor
  · cases hdocuments : readDocuments w.files root with
    | error fault => simp
    | ok x =>
      obtain ⟨m', rawConfig'⟩ := x
      dsimp only
      rcases hrun : (layersOf root m'.layers).perform w with ⟨fault | layers', w1⟩
      · simp
      · rw [Prod.mk.injEq, Except.ok.injEq, Image.mk.injEq]
        rintro ⟨⟨rfl, rfl, rfl⟩, rfl⟩
        have hfiles := isFile_of_layersOf hrun
        rw [perform_layersOf hfiles, Prod.mk.injEq, Except.ok.injEq] at hrun
        exact ⟨rfl, hfiles, hrun.1.symm, hrun.2.symm⟩
  · rintro ⟨hdocuments, hfiles, rfl, rfl⟩
    simp only [hdocuments, perform_layersOf hfiles]

/-! ### What loading depends on -/

theorem required_mem_sources (fs : Files) (root : String) {name : String} (h : name ∈ requiredNames) :
    join root name ∈ sources fs root := List.mem_append_left _ (List.mem_map_of_mem h)

theorem manifest_mem_sources {digest : Digest} (h : manifestDigest fs root = .ok digest) :
    blobPath root digest ∈ sources fs root := by
  rw [sources, h]
  exact List.mem_append_right _ (by simp)

/-- The blobs that a manifest names are among what is looked at. -/
theorem blob_mem_sources {digest : Digest} {bytes : ByteArray} {m : Manifest} {d : Descriptor}
    (hlisted : manifestDigest fs root = .ok digest) (hstored : fs.read (blobPath root digest) = .ok bytes)
    (hmanifest : Manifest.ofBytes bytes = .ok m) (hd : d ∈ m.config :: m.layers) :
    blobPath root d.digest ∈ sources fs root := by
  rw [sources, hlisted]
  refine List.mem_append_right _ (List.mem_cons_of_mem _ ?_)
  simp only [hstored, Except.toOption, hmanifest]
  exact List.mem_map_of_mem hd

theorem read_congr {fs' : Files} {path : String} (h : fs'.find path = fs.find path) : fs'.read path = fs.read path := by
  rw [Files.read, Files.read, h]

variable {fs' : Files}

theorem checkNames_congr (h : ∀ name ∈ requiredNames, fs'.find (join root name) = fs.find (join root name)) :
    checkNames fs' root = checkNames fs root := by
  have hfind : (requiredNames.find? fun name => !fs'.pathExists (join root name)) =
      requiredNames.find? fun name => !fs.pathExists (join root name) :=
    List.find?_congr fun name hname => by rw [Files.pathExists, Files.pathExists, h name hname]
  rw [checkNames, checkNames, hfind]

/-- The documents are the same where the paths of a layout lead to the same. -/
theorem readDocuments_congr (h : ∀ path ∈ sources fs root, fs'.find path = fs.find path) :
    readDocuments fs' root = readDocuments fs root := by
  have hrequired : ∀ name ∈ requiredNames, fs'.find (join root name) = fs.find (join root name) :=
    fun name hname => h _ (required_mem_sources fs root hname)
  have hindex := read_congr (hrequired "index.json" (by decide))
  have hdigest : manifestDigest fs' root = manifestDigest fs root := by
    simp only [manifestDigest, Files.readText, hindex]
  rw [readDocuments, readDocuments, checkNames_congr hrequired, hdigest]
  cases hlisted : manifestDigest fs root with
  | error fault => rfl
  | ok digest =>
    have hmanifest := read_congr (h _ (manifest_mem_sources hlisted))
    cases hstored : fs.read (blobPath root digest) with
    | error fault => simp only [readBlob, hmanifest, hstored, Except.mapError, bind, Except.bind]
    | ok bytes => cases hread : Manifest.ofBytes bytes with
      | error fault => simp only [readBlob, hmanifest, hstored, hread, Except.mapError, bind, Except.bind]
      | ok m =>
        have hconfig := read_congr (h _ (blob_mem_sources hlisted hstored hread (d := m.config) (by simp)))
        simp only [readBlob, hmanifest, hstored, hread, hconfig, Except.mapError, bind, Except.bind]

theorem perform_layersOf_congr
    (h : ∀ d ∈ ds, fs'.find (blobPath root d.digest) = w.files.find (blobPath root d.digest)) :
    (layersOf root ds).perform { w with files := fs' } =
      (((layersOf root ds).perform w).1, { ((layersOf root ds).perform w).2 with files := fs' }) := by
  induction ds generalizing w with
  | nil => rfl
  | cons d ds ih =>
    rw [List.forall_mem_cons] at h
    have hfile : fs'.isFile (blobPath root d.digest) = w.files.isFile (blobPath root d.digest) := by
      rw [Files.isFile, Files.isFile, h.1]
    rw [perform_layersOf_cons, perform_layersOf_cons, hfile]
    split_ifs
    · have hrest := ih (w := w.opened 1) h.2
      have hopened : Workspace.opened { w with files := fs' } 1 = { w.opened 1 with files := fs' } := rfl
      rw [hopened, hrest]
      rcases (layersOf root ds).perform (w.opened 1) with ⟨fault | ls, w'⟩ <;> rfl
    · rfl

/-- What comes of loading a layout depends only on what its paths lead to. -/
theorem perform_load_congr (h : ∀ path ∈ sources w.files root, fs'.find path = w.files.find path) :
    (load root).perform { w with files := fs' } =
      (((load root).perform w).1, { ((load root).perform w).2 with files := fs' }) := by
  rw [perform_load, perform_load]
  dsimp only
  rw [readDocuments_congr h]
  cases hdocuments : readDocuments w.files root with
  | error fault => rfl
  | ok x =>
    obtain ⟨m, rawConfig⟩ := x
    obtain ⟨-, digest, bytes, hlayout⟩ := readDocuments_eq_ok.1 hdocuments
    have hblobs : ∀ d ∈ m.layers, fs'.find (blobPath root d.digest) = w.files.find (blobPath root d.digest) :=
      fun d hd => h _ (blob_mem_sources hlayout.listed hlayout.stored hlayout.manifest (List.mem_cons_of_mem _ hd))
    dsimp only
    rw [perform_layersOf_congr hblobs]
    rcases (layersOf root m.layers).perform w with ⟨fault | layers, w'⟩ <;> rfl

/-- All that is looked at is inside the layout. -/
theorem inside_of_mem_sources {path : String} (h : path ∈ sources fs root) : Inside root path := by
  rw [sources, List.mem_append] at h
  rcases h with h | h
  · obtain ⟨name, hname, rfl⟩ := List.mem_map.1 h
    exact .required hname
  · cases hlisted : manifestDigest fs root with
    | error fault => simp [hlisted] at h
    | ok digest =>
      rw [hlisted] at h
      rcases List.mem_cons.1 h with rfl | h
      · exact inside_blobPath root digest
      · split at h
        · cases h
        · split at h
          · cases h
          · obtain ⟨d, -, rfl⟩ := List.mem_map.1 h
            exact inside_blobPath root d.digest

/-- Every layer is the file of a blob that a descriptor names. -/
theorem mem_layersFrom {n : Nat} {l : Layer} (h : l ∈ layersFrom root n ds) :
    ∃ f : FileLayer, l = .file f ∧ ∃ d ∈ ds, f.path = blobPath root d.digest := by
  induction ds generalizing n with
  | nil => cases h
  | cons d ds ih =>
    rcases List.mem_cons.1 h with rfl | h
    · exact ⟨_, rfl, d, by simp, rfl⟩
    · obtain ⟨f, rfl, d', hd', hpath⟩ := ih h
      exact ⟨f, rfl, d', by simp [hd'], hpath⟩

end Layout

/-- Loading a layout does not leave it. Every path that it looks at, and the path of every layer, is below the root by
one of three fixed names or by the parts of a digest, which are names for whatever digest. What comes of it depends only
on what these paths lead to, and each leads from the place of the root straight down. -/
theorem layout_stays_inside (root : String) :
    (∀ fs, ∀ path ∈ Layout.sources fs root, Layout.Inside root path) ∧
    (∀ (w : Workspace) (fs : Files), (∀ path ∈ Layout.sources w.files root, fs.find path = w.files.find path) →
      (Layout.load root).perform { w with files := fs } =
        (((Layout.load root).perform w).1, { ((Layout.load root).perform w).2 with files := fs })) ∧
    (∀ w i w', (Layout.load root).perform w = (.ok i, w') → ∀ l ∈ i.layers,
      ∃ f : FileLayer, l = .file f ∧ f.path ∈ Layout.sources w.files root) ∧
    (∀ fs path p, Layout.Inside root path → fs.resolve path = .ok p →
      ∃ base names, Layout.rootOf fs root = .ok base ∧ p = base ++ names ∧
        ((∃ name ∈ Layout.requiredNames, names = [name]) ∨
          ∃ algorithm hex, Files.IsName algorithm ∧ Files.IsName hex ∧ names = ["blobs", algorithm, hex])) ∧
    ∀ d : Digest, d.algorithm.toList ∈ Digest.algorithmExpression.matches' ∧
      d.hex.toList ∈ Digest.hexExpression.matches' := by
  refine ⟨fun _ _ => Layout.inside_of_mem_sources, fun _ _ => Layout.perform_load_congr, ?_,
    fun _ _ _ => Layout.place_of_inside, Digest.matches_parts⟩
  intro w i w' h l hl
  obtain ⟨hdocuments, -, hlayers, -⟩ := Layout.load_eq_ok.1 h
  obtain ⟨-, digest, bytes, hlayout⟩ := Layout.readDocuments_eq_ok.1 hdocuments
  rw [hlayers] at hl
  obtain ⟨f, rfl, d, hd, hpath⟩ := Layout.mem_layersFrom hl
  refine ⟨f, rfl, ?_⟩
  rw [hpath]
  exact Layout.blob_mem_sources hlayout.listed hlayout.stored hlayout.manifest (List.mem_cons_of_mem _ hd)

end ImageAssembly
