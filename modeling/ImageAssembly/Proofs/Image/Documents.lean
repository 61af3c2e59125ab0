import ImageAssembly.Proofs.ConfigFile.RoundTrip
import ImageAssembly.Proofs.Image.Appending
import ImageAssembly.Proofs.Json.Size
import ImageAssembly.Proofs.Manifest

/-! The documents of images through text and back. Nothing is lost of a configuration document that holds no doubles,
no timestamp beyond the years that can be read and no leap second that is no minute's, nor of a manifest whose numbers
fit. -/

namespace ImageAssembly

open Json Time

/-- Reads a text and writes what was read. -/
def rewrite {α : Type} (decode : ByteArray → Decoded α) (encode : α → ByteArray) (text : ByteArray) :
    Decoded ByteArray :=
  (decode text).map encode

/-- Whether a value is read back as it was written, and a text that it was read of changes once at most when it is
rewritten. -/
structure RoundTrips {α : Type} (decode : ByteArray → Decoded α) (encode : α → ByteArray) (a : α) : Prop where
  back : decode (encode a) = .ok a
  settles : ∀ text, decode text = .ok a →
    (rewrite decode encode text).bind (rewrite decode encode) = rewrite decode encode text

theorem RoundTrips.of_back {α : Type} {decode : ByteArray → Decoded α} {encode : α → ByteArray} {a : α}
    (h : decode (encode a) = .ok a) : RoundTrips decode encode a where
  back := h
  settles text htext := by
    have hrewrite (text : ByteArray) (ht : decode text = .ok a) : rewrite decode encode text = .ok (encode a) := by
      rw [rewrite, ht]
      rfl
    rw [hrewrite text htext]
    exact hrewrite (encode a) h

/-- An image gives back the document that is stored in it if nothing of that is lost, with the instants that its
timestamps name. -/
theorem Image.configFile_storeConfig {c : ConfigFile} (hc : c.IsExact) (i : Image) :
    (i.storeConfig c).configFile = .ok c.settled := by
  rw [Image.configFile, Image.rawConfig_storeConfig, ConfigFile.ofBytes_toBytes hc]
  rfl

/-- Configuration documents and manifests of which nothing is lost come back as they were written. A leap second that
is no minute's comes back as the instant that its text names; without one a document is the same. An image takes just
the documents with a diff id for each of its layers, and gives back the one that was put on it. -/
theorem documents_round_trip (c : ConfigFile) (hc : c.IsExact) (m : Manifest) (hm : m.Fits) :
    ConfigFile.ofBytes c.toBytes = .ok c.settled ∧
    (c.HasProperTimes → c.settled = c ∧ RoundTrips ConfigFile.ofBytes ConfigFile.toBytes c) ∧
    RoundTrips Manifest.ofBytes Manifest.toBytes m ∧
    ∀ i : Image, ((∃ j, i.withConfigFile c = .ok j) ↔ c.rootfs.diffIds.length = i.layers.length) ∧
      ∀ j, i.withConfigFile c = .ok j → j.configFile = .ok c.settled := by
  have hback := ConfigFile.ofBytes_toBytes hc
  refine ⟨hback, fun ht => ⟨ht.settled, .of_back ?_⟩, .of_back (Manifest.ofBytes_toBytes hm), fun i => ⟨?_, ?_⟩⟩
  · rwa [ht.settled] at hback
  · simp only [Image.withConfigFile_eq_ok, exists_and_left, exists_eq, and_true]
  · intro j hj
    obtain ⟨-, rfl⟩ := Image.withConfigFile_eq_ok.1 hj
    exact Image.configFile_storeConfig hc i

/-- A leap second at the end of 2016. -/
def leapSecond : Instant := ⟨1483228799, 1500000000, by decide⟩

/-- A document with members of its own at each level, made at a leap second. -/
def annotatedDocument : ConfigFile where
  created := some leapSecond
  config := { extra := ⟨[("OnBuild", .null)], by simp⟩ }
  history := [
    { created := some leapSecond, comment := "\"\x01", extra := ⟨[("id", .number (.integer (-1)))], by simp⟩ }]
  extra := ⟨[("depth", .array [.object [("a", .null), ("b", .number (.integer 18446744073709551615))]])], by simp⟩

theorem isExact_annotatedDocument : annotatedDocument.IsExact where
  kept := by
    refine ⟨⟨by decide, ?_⟩, ⟨by decide, ?_⟩, ?_⟩
    · simp only [annotatedDocument, dictionaryFits, membersFit, Value.Fits, itemsFit, Number.IsReadable, maxDepth,
        maxNatural, Text.Integer.bound]
      decide
    · simp [annotatedDocument, dictionaryFits, membersFit, Value.Fits]
    · simp only [annotatedDocument, List.forall_mem_singleton]
      refine ⟨by decide, ?_⟩
      simp [dictionaryFits, membersFit, Value.Fits, Number.IsReadable, maxNatural, Text.Integer.bound]
  integers := by
    constructor <;> simp [annotatedDocument, membersHaveIntegers, Value.HasIntegers, itemsHaveIntegers,
      Number.IsInteger]
  years := by
    have hyear : leapSecond.HasPlainYear := by decide
    constructor <;> simp [annotatedDocument, hyear]

theorem hasProperTimes_annotatedDocument : annotatedDocument.HasProperTimes := by
  have hleap : leapSecond.IsProper := by decide
  constructor <;> simp [annotatedDocument, hleap]

/-- The document and the manifest of the empty image. -/
theorem documents_round_trip_annotated : annotatedDocument.IsExact ∧ annotatedDocument.HasProperTimes ∧
    Image.empty.manifest.Fits ∧
    RoundTrips ConfigFile.ofBytes ConfigFile.toBytes annotatedDocument ∧
    RoundTrips Manifest.ofBytes Manifest.toBytes Image.empty.manifest ∧
    ∃ j, Image.empty.withConfigFile annotatedDocument = .ok j ∧ j.configFile = .ok annotatedDocument := by
  have hfits : Image.empty.manifest.Fits := by
    refine ⟨by decide, ?_, by simp [Image.empty]⟩
    have hsize : Image.empty.manifest.config.size = (ConfigFile.encode {}).toBytes.size := rfl
    have hbound := size_toBytes_le (ConfigFile.encode {})
    have hweight : (ConfigFile.encode {}).weight < 1000000 := by decide
    have hmax : 4 * 1000000 < Text.Integer.bound 64 := by decide
    rw [Descriptor.Fits, hsize]
    omega
  have hproper := hasProperTimes_annotatedDocument
  obtain ⟨-, hdocument, hmanifest, himage⟩ := documents_round_trip _ isExact_annotatedDocument _ hfits
  obtain ⟨hsettled, hrounds⟩ := hdocument hproper
  obtain ⟨htakes, hgives⟩ := himage .empty
  obtain ⟨j, hj⟩ := htakes.2 rfl
  exact ⟨isExact_annotatedDocument, hproper, hfits, hrounds, hmanifest, j, hj, (hgives j hj).trans (by rw [hsettled])⟩

/-- A document of one layer, made at a leap second that is no minute's. -/
def strayDocument : ConfigFile where
  created := some .strayLeapSecond
  rootfs := { diffIds := [.sha256 .empty] }

/-- The document is read as another one, though nothing else of it can be lost, and an image without layers does not
take it. -/
theorem strayDocument_not_read_back : strayDocument.IsExact ∧
    ConfigFile.ofBytes strayDocument.toBytes ≠ .ok strayDocument ∧
      ∀ j, Image.empty.withConfigFile strayDocument ≠ .ok j := by
  have hexact : strayDocument.IsExact := by
    have hyear : Instant.strayLeapSecond.HasPlainYear := by decide
    refine ⟨⟨KeptMembers.empty _ _, KeptMembers.empty _ _, by simp [strayDocument]⟩, ?_, ?_⟩
    · constructor <;> simp [strayDocument, membersHaveIntegers, Dictionary.empty]
    · constructor <;> simp [strayDocument, hyear]
  refine ⟨hexact, fun hback => ?_, fun j hj => ?_⟩
  · have hsettled := Except.ok.inj ((ConfigFile.ofBytes_toBytes hexact).symm.trans hback)
    exact Instant.settled_strayLeapSecond_ne (Option.some.inj (congrArg ConfigFile.created hsettled))
  · exact absurd (Image.withConfigFile_eq_ok.1 hj).1 (by decide)

end ImageAssembly
