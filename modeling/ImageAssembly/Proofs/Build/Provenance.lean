import ImageAssembly.Proofs.Build.Environment
import ImageAssembly.Proofs.Configuration.InPlace

/-! Where an image comes from. The source, the revision and the time of the build are laid over the annotations that
are described; the result is the labels of the image, and is laid over the annotations of the base in the manifest. -/

namespace ImageAssembly

namespace Provenance

open ImageAssembly.Configuration (splitVcsUrl splitVcsUrl_eq_some)

/-- Whether annotations are those described, with the time of the build, and with the source and the revision that
a version control address names around its last `@`. -/
structure Annotates (described : String → Option String) (vcsUrl : String) (created : Time.Instant)
    (annotations : Dictionary String) : Prop where
  created : annotations.get? createdKey = some created.toSecondText
  sourced : '@' ∈ vcsUrl.toList → ∃ source revision, source ≠ "" ∧ revision ≠ "" ∧ '@' ∉ revision.toList ∧
    source ++ "@" ++ revision = vcsUrl ∧ annotations.get? sourceKey = some source ∧
    annotations.get? revisionKey = some revision
  unsourced : '@' ∉ vcsUrl.toList → annotations.get? sourceKey = described sourceKey ∧
    annotations.get? revisionKey = described revisionKey
  others : ∀ key, key ≠ createdKey → key ≠ sourceKey → key ≠ revisionKey → annotations.get? key = described key

theorem sourceKey_ne_createdKey : sourceKey ≠ createdKey := by decide

theorem revisionKey_ne_createdKey : revisionKey ≠ createdKey := by decide

theorem sourceKey_ne_revisionKey : sourceKey ≠ revisionKey := by decide

variable {c : Configuration} {created : Time.Instant}

theorem get?_annotations_of_sourced {source revision : String} (h : splitVcsUrl c.vcsUrl = some (source, revision))
    (key : String) : (annotations c created).get? key = if key = createdKey then some created.toSecondText
      else if key = revisionKey then some revision else if key = sourceKey then some source
      else c.annotations.get? key := by
  simp only [annotations, h, Dictionary.get?_insert]

theorem get?_annotations_of_unsourced (h : splitVcsUrl c.vcsUrl = none) (key : String) :
    (annotations c created).get? key = if key = createdKey then some created.toSecondText
      else c.annotations.get? key := by
  simp only [annotations, h, Dictionary.get?_insert]

theorem splitVcsUrl_eq_none {url : String} : splitVcsUrl url = none ↔ '@' ∉ url.toList := by
  rw [splitVcsUrl, Option.map_eq_none_iff, Text.cutLast_eq_none]

theorem annotates_annotations (hvalid : c.Valid) (created : Time.Instant) :
    Annotates c.annotations.get? c.vcsUrl created (annotations c created) := by
  cases hsplit : splitVcsUrl c.vcsUrl with
  | none =>
    have hget := @get?_annotations_of_unsourced c created hsplit
    refine ⟨?_, fun hat => absurd hat (splitVcsUrl_eq_none.1 hsplit), fun _ => ⟨?_, ?_⟩, fun key h1 _ _ => ?_⟩
    · rw [hget, if_pos rfl]
    · rw [hget, if_neg sourceKey_ne_createdKey]
    · rw [hget, if_neg revisionKey_ne_createdKey]
    · rw [hget, if_neg h1]
  | some parts =>
    obtain ⟨source, revision⟩ := parts
    have hget := @get?_annotations_of_sourced c created source revision hsplit
    obtain ⟨hsource, hrevision⟩ := hvalid.source source revision hsplit
    obtain ⟨htext, hlast⟩ := splitVcsUrl_eq_some.1 hsplit
    have hurl : source ++ "@" ++ revision = c.vcsUrl := by
      rw [← String.toList_inj, htext]
      simp [String.toList_append]
    refine ⟨?_, fun _ => ⟨source, revision, hsource, hrevision, hlast, hurl, ?_, ?_⟩, fun hat => ?_,
      fun key h1 h2 h3 => ?_⟩
    · rw [hget, if_pos rfl]
    · rw [hget, if_neg sourceKey_ne_createdKey, if_neg sourceKey_ne_revisionKey, if_pos rfl]
    · rw [hget, if_neg revisionKey_ne_createdKey, if_pos rfl]
    · refine absurd ?_ hat
      rw [htext]
      simp
    · rw [hget, if_neg h1, if_neg h3, if_neg h2]

end Provenance

namespace Build

open Provenance

/-- An image that is built of a description that keeps the rules bears its annotations twice: as the labels of the
document, both as it is written and as it is read, and in the manifest, where they are laid over those of the base.
The time among them is read as the build's, to the second, in the years that can be read. -/
theorem provenance_of_build (base : Image) (layers : List Layer) (description : Configuration)
    (created : Time.Instant) (arch : Architecture) (w : Workspace) (hvalid : description.validate = .ok ()) :
    Annotates description.annotations.get? description.vcsUrl created (annotations description created) ∧
      (created.HasPlainYear → Time.Instant.ofText? created.toSecondText = some created.truncate.settled) ∧
      ∀ j w', (build base layers description created arch).perform w = (.ok j, w') →
        (∀ key, j.manifest.annotations.get? key =
          ((annotations description created).get? key).or (base.manifest.annotations.get? key)) ∧
        (∃ document, j.rawConfig = ConfigFile.toBytes document ∧
          document.config.labels = annotations description created) ∧
        (∀ c, j.configFile = .ok c → c.config.labels = annotations description created) ∧
        (layers ≠ [] → ∃ c, j.configFile = .ok c) := by
  refine ⟨annotates_annotations (Configuration.validate_eq_ok_iff.1 hvalid) created, fun hyear => ?_,
    fun j w' h => ⟨fun key => ?_, ?_, fun c hc => (settings_of_configFile h hc).2,
      fun hlayers => readable_of_build hlayers h⟩⟩
  · rw [Time.Instant.ofText?_toSecondText, if_pos hyear]
  · rw [annotations_of_build h, Dictionary.get?_overlay]
  · obtain ⟨document, hraw, -, -, hlabels⟩ := document_of_build h
    exact ⟨document, hraw, hlabels⟩

/-- A description with a revision of its own that its source's revision replaces. -/
def revised : Configuration where
  annotations := .ofList [(revisionKey, "none"), ("team", "infra")]
  vcsUrl := "ssh://git@host/repo@1"

/-- A base with a source of its own and with the name of an author. -/
def authored : Image := Image.empty.withAnnotations (.ofList [("author", "me"), (sourceKey, "elsewhere")])

/-- The source and the revision that are described replace those of the base, and its author stays. -/
theorem provenance_of_build_revised : revised.validate = .ok () ∧
    ∃ j w' c, (build authored twoLayers revised .epoch ⟨"amd64", ""⟩).perform .empty = (.ok j, w') ∧
      j.configFile = .ok c ∧ c.config.labels = annotations revised .epoch ∧
      Annotates revised.annotations.get? revised.vcsUrl .epoch c.config.labels ∧
      j.manifest.annotations.get? sourceKey = some "ssh://git@host/repo" ∧
      j.manifest.annotations.get? revisionKey = some "1" ∧
      j.manifest.annotations.get? createdKey = some "1970-01-01T00:00:00Z" ∧
      j.manifest.annotations.get? "team" = some "infra" ∧ j.manifest.annotations.get? "author" = some "me" := by
  have hvalid : revised.validate = .ok () := by decide
  have hpaired : Paired authored := rfl
  have happendable : Appendable authored := appendable_iff.2 ⟨_, Image.appendable_empty⟩
  have hyears : PlainYears authored twoLayers .epoch := (plainYears_empty_iff twoLayers_ne_nil).2 (by decide)
  obtain ⟨j, w', h⟩ := exists_build_commandless hvalid rfl rfl hpaired happendable (opened_twoLayers .empty)
    tells_twoLayers hyears ⟨"amd64", ""⟩
  obtain ⟨hannotates, -, hbuilt⟩ := provenance_of_build authored twoLayers revised .epoch ⟨"amd64", ""⟩ .empty hvalid
  obtain ⟨hmanifest, -, hlabels, hreadable⟩ := hbuilt j w' h
  obtain ⟨c, hc⟩ := hreadable twoLayers_ne_nil
  refine ⟨hvalid, j, w', c, h, hc, hlabels c hc, hlabels c hc ▸ hannotates, ?_, ?_, ?_, ?_, ?_⟩
  all_goals
    rw [hmanifest]
    decide

end Build

end ImageAssembly
