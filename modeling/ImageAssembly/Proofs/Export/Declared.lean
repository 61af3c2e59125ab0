import ImageAssembly.Proofs.Export.Listing
import ImageAssembly.Proofs.Layer.Keeping
import ImageAssembly.Proofs.Layer.Lifetime

/-! Layer files of declared types. The type of such a layer is taken as it is given, and one type alone stands for
plain archives, while bytes in memory tell by their beginning what they are. The two agree where the type is that one
just for bytes that are not compressed; there are other types of plain archives, and with those they do not. -/

namespace ImageAssembly

open Workspace Layer

namespace MediaType

/-- A plain archive that is not to be distributed. -/
def layerNonDistributable : MediaType := ⟨"application/vnd.oci.image.layer.nondistributable.v1.tar"⟩

/-- A plain archive, under the older name. -/
def rootfsDiff : MediaType := ⟨"application/vnd.docker.image.rootfs.diff.tar"⟩

/-- Whether a type is true of bytes: one of plain archives, or one of compressed archives, which end in the name of
the compression. -/
inductive Describes (m : MediaType) (b : ByteArray) : Prop
  | plain (hm : m ∈ [layer, layerNonDistributable, rootfsDiff]) (hb : Gzip.hasMagic b = false)
  | compressed (hm : ".tar+gzip".toList <:+ m.name.toList ∨ ".tar.gzip".toList <:+ m.name.toList)
    (hb : Gzip.hasMagic b = true)

end MediaType

/-- Whether a layer file and a layer of given bytes in memory tell the same, and the name of the file's entry in an
archive ends as that of a plain archive just for bytes that are not compressed. -/
structure FileLayer.Agrees (w : Workspace) (b : ByteArray) (l : FileLayer) : Prop where
  digest : ∀ m, MemoryLayer.ofBlob b = .ok m → ((Layer.file l).digest.perform w).1 = .ok m.digest
  size : ∀ m, MemoryLayer.ofBlob b = .ok m → ((Layer.file l).size.perform w).1 = .ok m.blob.size
  diffId : Matched Layer.Fault.kind (fun d m => d = m.diffId) ((Layer.file l).diffId.perform w).1 (MemoryLayer.ofBlob b)
  name : ".tar".toList <:+ (Export.layerName (.sha256 b) l.mediaType).toList ↔ Gzip.hasMagic b = false

namespace FileLayer

variable {w w0 : Workspace} {b : ByteArray} {l : FileLayer} {m : MediaType} {path : String}

theorem tar_suffix_layerName_iff (d : Digest) (m : MediaType) :
    ".tar".toList <:+ (Export.layerName d m).toList ↔ m = .layer := by
  rw [Export.toList_layerName]
  split_ifs with h
  · exact ⟨fun _ => h, fun _ => List.suffix_append _ _⟩
  · refine ⟨fun hsuffix => ?_, fun hm => absurd hm h⟩
    have hends : ".tar".toList <:+ ".tar.gz".toList :=
      List.suffix_of_suffix_length_le hsuffix (List.suffix_append _ _) (by decide)
    exact absurd hends (by decide)

/-- A layer file of a declared type has its file's bytes to tell of. -/
theorem keeps_of_ofType (h : (ofType path m : Action Layer.Fault FileLayer).perform w0 = (.ok l, w))
    (hread : w0.files.read path = .ok b) : (Layer.file l).Keeps w b m := by
  obtain ⟨-, hmemo⟩ := memo_of_ofType h
  obtain ⟨-, hfiles, -, rfl⟩ := ofType_ok h
  refine ⟨rfl, by rw [hfiles]; exact hread, ?_, ?_⟩
  · rw [hmemo]
    simp
  · rw [hmemo]
    simp

theorem matched_diffId_of_iff (h : (Layer.file l).Keeps w b m) (hm : m = .layer ↔ Gzip.hasMagic b = false) :
    Matched Layer.Fault.kind (fun d m => d = m.diffId) ((Layer.file l).diffId.perform w).1
      (MemoryLayer.ofBlob b) := by
  have hcompressed : (m != .layer) = Gzip.hasMagic b := by
    cases hb : Gzip.hasMagic b <;> simp_all
  have hdiffId := h.diffId
  rw [hcompressed] at hdiffId
  exact hdiffId.trans (Layer.matched_ofBlob b) fun d plain m hd hm => hd.trans hm.symm

/-- Under another type than that of plain archives, plain bytes have no diff id. -/
theorem diffId_fails (h : (Layer.file l).Keeps w b m) (hm : m ≠ .layer) (hb : Gzip.hasMagic b = false) :
    ∃ fault, ((Layer.file l).diffId.perform w).1 = .error fault ∧ fault.kind = .layerDiffId := by
  have hdiffId := h.diffId
  rw [bne_iff_ne.2 hm, plainContent, if_pos rfl] at hdiffId
  cases hplain : Gzip.decompress b with
  | ok plain => exact absurd (Gzip.hasMagic_of_decompress hplain) (by simp [hb])
  | error fault =>
    rw [hplain] at hdiffId
    cases htold : ((Layer.file l).diffId.perform w).1 with
    | error fault' => exact ⟨fault', rfl, Layer.kind_of_diffId_error htold⟩
    | ok d =>
      rw [htold] at hdiffId
      cases hdiffId

theorem agrees_iff (h : (Layer.file l).Keeps w b m) : l.Agrees w b ↔ (m = .layer ↔ Gzip.hasMagic b = false) := by
  have htype : l.mediaType = m := h.mediaType
  constructor
  · intro hagrees
    rw [← hagrees.name, tar_suffix_layerName_iff, htype]
  · intro hm
    refine ⟨fun memory hmemory => ?_, fun memory hmemory => ?_, matched_diffId_of_iff h hm, ?_⟩
    · rw [h.delivers.digest, memory.digest_eq, (Layer.ofBlob_ok hmemory).1]
    · rw [h.delivers.size, (Layer.ofBlob_ok hmemory).1]
    · rw [tar_suffix_layerName_iff, htype, hm]

/-- A layer file of a declared type tells the digest and the size of its bytes. It agrees with a layer of these bytes
in memory just if the type is the one of plain archives for plain bytes only; under any other type plain bytes have
no diff id, though they have one in memory, and their entry is named like a compressed one. -/
theorem declared_agrees_iff (h : (ofType path m : Action Layer.Fault FileLayer).perform w0 = (.ok l, w))
    (hread : w0.files.read path = .ok b) :
    ((Layer.file l).digest.perform w).1 = .ok (.sha256 b) ∧ ((Layer.file l).size.perform w).1 = .ok b.size ∧
    (l.Agrees w b ↔ (m = .layer ↔ Gzip.hasMagic b = false)) ∧
    (m ≠ .layer → Gzip.hasMagic b = false →
      (∃ fault, ((Layer.file l).diffId.perform w).1 = .error fault ∧ fault.kind = .layerDiffId) ∧
      (∃ memory, MemoryLayer.ofBlob b = .ok memory ∧ memory.diffId = .sha256 b) ∧
      ".tar.gz".toList <:+ (Export.layerName (.sha256 b) l.mediaType).toList) := by
  have hkeeps := keeps_of_ofType h hread
  have htype : l.mediaType = m := hkeeps.mediaType
  refine ⟨hkeeps.delivers.digest, hkeeps.delivers.size, agrees_iff hkeeps, fun hm hb => ⟨?_, ?_, ?_⟩⟩
  · exact diffId_fails hkeeps hm hb
  · rw [MemoryLayer.ofBlob, hb]
    exact ⟨_, rfl, rfl⟩
  · rw [Export.toList_layerName, htype, if_neg hm]
    exact List.suffix_append _ _

/-- A file of one byte, declared as a plain archive. -/
theorem declared_agrees_iff_of_single_byte :
    let w0 : Workspace := ⟨Files.empty.put ["layer"] (.file ⟨#[0x78]⟩), []⟩
    let w : Workspace := ⟨Files.empty.put ["layer"] (.file ⟨#[0x78]⟩), [default]⟩
    (ofType "layer" .layer : Action Layer.Fault FileLayer).perform w0 = (.ok ⟨0, "layer", .layer⟩, w) ∧
    w0.files.read "layer" = .ok ⟨#[0x78]⟩ ∧ Agrees w ⟨#[0x78]⟩ ⟨0, "layer", .layer⟩ := by
  intro w0 w
  have hread : w0.files.read "layer" = .ok ⟨#[0x78]⟩ := by decide
  have hopened : (ofType "layer" .layer : Action Layer.Fault FileLayer).perform w0 =
      (.ok ⟨0, "layer", .layer⟩, w) := rfl
  exact ⟨hopened, hread, (declared_agrees_iff hopened hread).2.2.1.2 (by decide)⟩

/-- The same file, declared as a plain archive that is not to be distributed: the type is true of the byte, and the
layer does not agree with the byte in memory. -/
theorem not_agrees_layerNonDistributable :
    let w0 : Workspace := ⟨Files.empty.put ["layer"] (.file ⟨#[0x78]⟩), []⟩
    let w : Workspace := ⟨Files.empty.put ["layer"] (.file ⟨#[0x78]⟩), [default]⟩
    let l : FileLayer := ⟨0, "layer", .layerNonDistributable⟩
    (ofType "layer" .layerNonDistributable : Action Layer.Fault FileLayer).perform w0 = (.ok l, w) ∧
    w0.files.read "layer" = .ok ⟨#[0x78]⟩ ∧ MediaType.layerNonDistributable.Describes ⟨#[0x78]⟩ ∧
    ¬l.Agrees w ⟨#[0x78]⟩ := by
  intro w0 w l
  have hread : w0.files.read "layer" = .ok ⟨#[0x78]⟩ := by decide
  have hopened : (ofType "layer" .layerNonDistributable : Action Layer.Fault FileLayer).perform w0 = (.ok l, w) := rfl
  refine ⟨hopened, hread, .plain (by simp) (by decide), fun hagrees => ?_⟩
  exact absurd ((agrees_iff (keeps_of_ofType hopened hread)).1 hagrees) (by decide)

end FileLayer

end ImageAssembly
