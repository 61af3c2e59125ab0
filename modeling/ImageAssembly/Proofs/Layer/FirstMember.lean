import ImageAssembly.Proofs.Gzip.Stored
import ImageAssembly.Proofs.Layer.Keeping

/-! Layers of several gzip members. The content of such bytes is what the members hold one after another; the diff id
of a layer is the digest of what the first of them holds. -/

namespace ImageAssembly.Layer

open Workspace

variable {reach : Gzip.Reach} {w : Workspace} {b content : ByteArray} {contents others : List ByteArray} {path : String}

/-- Bytes that are members in turn begin like one, and the first is all that is uncompressed. -/
theorem plainContent_of_members (h : Gzip.AreMembers reach b.toList (content :: others)) :
    Gzip.hasMagic b = true ∧ plainContent true b = .ok content := by
  have hplain := h.decompress
  exact ⟨Gzip.hasMagic_of_decompress hplain, hplain⟩

theorem ofBlob_of_members (h : Gzip.AreMembers reach b.toList (content :: others)) :
    ∃ m, MemoryLayer.ofBlob b = .ok m ∧ m.mediaType = .layerGzip ∧ m.diffId = .sha256 content := by
  refine ⟨⟨b, .layerGzip, .sha256 b, .sha256 content, rfl⟩, ?_, rfl, rfl⟩
  rw [ofBlob_of_hasMagic (plainContent_of_members h).1, h.decompress]

theorem openPath_of_members (h : Gzip.AreMembers reach b.toList (content :: others))
    (hread : w.files.read path = .ok b) :
    ∃ l w₁, (FileLayer.openPath path).perform w = (.ok l, w₁) ∧ l.mediaType = .layerGzip ∧
      ∀ w₂, Learns [.file l] w₁ w₂ → ((Layer.file l).diffId.perform w₂).1 = .ok (.sha256 content) := by
  obtain ⟨hmagic, hplain⟩ := plainContent_of_members h
  have hopened := perform_openPath hread
  rw [if_pos hmagic] at hopened
  refine ⟨_, _, hopened, rfl, fun w₂ hw => ?_⟩
  obtain ⟨-, -, -, hunchanged⟩ := unchanged_openPath hread hopened
  have hkeeps := ((Made.openPath hread hopened).keeps hunchanged).learns (by simp) hw
  have hdiffId := hkeeps.diffId
  rw [mediaType_bne, hmagic, hplain] at hdiffId
  generalize ((Layer.file _).diffId.perform w₂).1 = told at hdiffId ⊢
  cases hdiffId with
  | ok hd => rw [hd]

/-- Bytes that are gzip members in turn make a layer, in memory or by the path of a file that holds them, whose diff
id is the digest of what the first member holds. This is the digest of the whole content where the members behind the
first hold nothing. -/
theorem diffId_of_members (h : Gzip.AreMembers reach b.toList (content :: others)) (hread : w.files.read path = .ok b) :
    (∃ m, MemoryLayer.ofBlob b = .ok m ∧ m.mediaType = .layerGzip ∧ m.diffId = .sha256 content) ∧
    (∃ l w₁, (FileLayer.openPath path).perform w = (.ok l, w₁) ∧ l.mediaType = .layerGzip ∧
      ∀ w₂, Learns [.file l] w₁ w₂ → ((Layer.file l).diffId.perform w₂).1 = .ok (.sha256 content)) ∧
    ((∀ c ∈ others, c = .empty) → Digest.sha256 content = .sha256 (Gzip.joined (content :: others))) := by
  refine ⟨ofBlob_of_members h, openPath_of_members h hread, fun hempty => ?_⟩
  rw [Gzip.joined, List.foldr_cons, ← Gzip.joined, Gzip.joined_of_empty hempty, ByteArray.append_empty]

/-- Two members of one byte each. -/
def twoMembers : ByteArray := Gzip.compress ⟨#[1]⟩ ++ (Gzip.compress ⟨#[2]⟩ ++ .empty)

theorem areMembers_twoMembers : Gzip.AreMembers .within twoMembers.toList [⟨#[1]⟩, ⟨#[2]⟩] :=
  Gzip.areMembers_compress_append (Gzip.areMembers_compress_append Gzip.areMembers_empty)

/-- Of two members of one byte each the first byte alone is hashed. -/
theorem diffId_of_two_members :
    let w : Workspace := ⟨Files.empty.put ["layer"] (.file twoMembers), []⟩
    Gzip.AreMembers .within twoMembers.toList [⟨#[1]⟩, ⟨#[2]⟩] ∧ w.files.read "layer" = .ok twoMembers ∧
    (∃ m, MemoryLayer.ofBlob twoMembers = .ok m ∧ m.mediaType = .layerGzip ∧ m.diffId = .sha256 ⟨#[1]⟩) ∧
    ∃ l w₁, (FileLayer.openPath "layer").perform w = (.ok l, w₁) ∧ l.mediaType = .layerGzip ∧
      ∀ w₂, Learns [.file l] w₁ w₂ → ((Layer.file l).diffId.perform w₂).1 = .ok (.sha256 ⟨#[1]⟩) := by
  intro w
  have hread : w.files.read "layer" = .ok twoMembers := rfl
  obtain ⟨hblob, hopened, -⟩ := diffId_of_members areMembers_twoMembers hread
  exact ⟨areMembers_twoMembers, hread, hblob, hopened⟩

/-- That is not the digest of both bytes, which are the whole content. -/
theorem diffId_ne_sha256_joined :
    let w : Workspace := ⟨Files.empty.put ["layer"] (.file twoMembers), []⟩
    Gzip.AreMembers .within twoMembers.toList [⟨#[1]⟩, ⟨#[2]⟩] ∧ w.files.read "layer" = .ok twoMembers ∧
    (∃ m, MemoryLayer.ofBlob twoMembers = .ok m ∧ m.diffId ≠ .sha256 (Gzip.joined [⟨#[1]⟩, ⟨#[2]⟩])) ∧
    ∃ l w₁, (FileLayer.openPath "layer").perform w = (.ok l, w₁) ∧
      ((Layer.file l).diffId.perform w₁).1 ≠ .ok (.sha256 (Gzip.joined [⟨#[1]⟩, ⟨#[2]⟩])) := by
  intro w
  have hread : w.files.read "layer" = .ok twoMembers := rfl
  have hne : Digest.sha256 ⟨#[1]⟩ ≠ .sha256 (Gzip.joined [⟨#[1]⟩, ⟨#[2]⟩]) := by decide +kernel
  obtain ⟨m, hm, -, hd⟩ := ofBlob_of_members areMembers_twoMembers
  obtain ⟨l, w₁, hopened, -, htold⟩ := openPath_of_members areMembers_twoMembers hread
  refine ⟨areMembers_twoMembers, hread, ⟨m, hm, ?_⟩, l, w₁, hopened, ?_⟩
  · rw [hd]
    exact hne
  · rw [htold w₁ (.refl _ _), ne_eq, Except.ok.injEq]
    exact hne

end ImageAssembly.Layer
