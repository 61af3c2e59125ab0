import ImageAssembly.Proofs.Build.Provenance
import ImageAssembly.Proofs.Time.SourceDate

/-! The time of a build, wherever it is written: in the document, in the records of the new layers, and in the
annotations of the document and the manifest. All of them are read as the time that was given. -/

namespace ImageAssembly

open Time

namespace Build

open Provenance

/-- Whether a document and annotations of a manifest bear a time wherever it is written of a build: in the
document, in the records of the `added` new layers, and in both annotations. The records of the base keep theirs. -/
structure Dated (base built : ConfigFile) (annotations : Dictionary String) (added : Nat) (t : Instant) : Prop where
  document : built.created = some t
  history : built.history.map (·.created) = base.history.map (·.created) ++ List.replicate added (some t)
  label : ∃ text, built.config.labels.get? createdKey = some text ∧ Instant.ofText? text = some t
  annotation : ∃ text, annotations.get? createdKey = some text ∧ Instant.ofText? text = some t

theorem get?_createdKey_annotations (c : Configuration) (created : Instant) :
    (annotations c created).get? createdKey = some created.toSecondText := by
  simp only [annotations, Dictionary.get?_insert, if_true]

variable {base j : Image} {layers : List Layer} {description : Configuration} {created : Instant}
  {arch : Architecture} {w w' : Workspace}

/-- A build at a whole second of a year that can be read bears that second wherever it is written. -/
theorem dated_of_build (hyear : created.HasPlainYear) (hproper : created.IsProper) (hwhole : created.truncate = created)
    (h : (build base layers description created arch).perform w = (.ok j, w')) :
    ∃ b c, base.configFile = .ok b ∧ j.configFile = .ok c ∧
      Dated b c j.manifest.annotations layers.length created := by
  have hsettled := Instant.settled_of_isProper hproper
  obtain ⟨b, c, hb, hc, hcreated, hhistory⟩ := timestamps_of_build hyear h
  rw [hsettled] at hcreated hhistory
  have hread : Instant.ofText? created.toSecondText = some created := by
    rw [Instant.ofText?_toSecondText, if_pos hyear, hwhole, hsettled]
  refine ⟨b, c, hb, hc, hcreated, hhistory, ⟨_, ?_, hread⟩, ⟨_, ?_, hread⟩⟩
  · rw [(settings_of_configFile h hc).2]
    exact get?_createdKey_annotations description created
  · rw [annotations_of_build h, Dictionary.get?_overlay, get?_createdKey_annotations]
    rfl

end Build

open Build

/-- Timestamps keep their instant. An instant whose year has four digits is read of a document as it was written,
a minute's leap second too, in the form of a build where it is a whole second; and that form is read as the whole
second. A leap second that is no minute's is read as another instant, of the second behind its own. A count of seconds
that falls in such a year is the time of the build that is given it as text, and is read wherever the build has written
its time. Every timestamp that is accepted is read as its local time less its offset, to the nanosecond. -/
theorem timestamps_keep_instant :
    (∀ t : Instant, t.HasPlainYear →
      (t.IsProper → Json.decodeBytes decodeTimestamp (encodeTimestamp t).toBytes = .ok (some t)) ∧
      (t.truncate = t → encodeTimestamp t = .string t.toSecondText) ∧
      (t.IsProper → Instant.ofText? t.toSecondText = some t.truncate) ∧
      (¬t.IsProper → ∃ t', Json.decodeBytes decodeTimestamp (encodeTimestamp t).toBytes = .ok (some t') ∧
        t'.seconds = t.seconds + 1 ∧ t.nanos = t'.nanos + second)) ∧
    (∀ n : Int, (Instant.ofSeconds n).HasPlainYear →
      SourceDate.read (some (toString n)) = .ok (.ofSeconds n) ∧
      ∀ base layers description arch w j w',
        (build base layers description (.ofSeconds n) arch).perform w = (.ok j, w') →
          ∃ b c, base.configFile = .ok b ∧ j.configFile = .ok c ∧
            Dated b c j.manifest.annotations layers.length (.ofSeconds n)) ∧
    ∀ tree t, decodeTimestamp tree = .ok (some t) ↔ ∃ text l offset,
      tree.optional Json.Tree.text = .ok (some text) ∧ Spells text l offset ∧ t = l.instant offset := by
  refine ⟨fun t hyear => ⟨fun hproper => ?_, fun hwhole => ?_, fun hproper => ?_, fun hstray => ⟨t.settled, ?_, ?_⟩⟩,
    fun n hyear => ⟨SourceDate.read_toString hyear, ?_⟩, fun tree t => decodeTimestamp_eq_some_iff⟩
  · rw [Json.decodeBytes_toBytes, decodeTimestamp_tree, if_pos hyear, Instant.settled_of_isProper hproper]
  · rw [encodeTimestamp, Instant.toSecondText_eq, hwhole]
  · rw [Instant.ofText?_toSecondText, if_pos hyear, Instant.settled_of_isProper (Instant.isProper_truncate.2 hproper)]
  · rw [Json.decodeBytes_toBytes, decodeTimestamp_tree, if_pos hyear]
  · exact Instant.settled_of_not_isProper hstray
  · intro base layers description arch w j w' h
    exact dated_of_build hyear (Instant.isProper_ofSeconds n) (Instant.truncate_ofSeconds n) h

/-- The middle of the leap second at the end of 2016, in California. -/
def californianLeapSecond : LocalTime where
  day := 17166
  date := ⟨2016, 12, 31⟩
  hour := 15
  minute := 59
  sec := 60
  fraction := 500000000
  isDay := Date.isDay_iff.2 (by decide)
  year_ok := by decide
  hour_ok := by decide
  minute_ok := by decide
  sec_ok := by decide
  fraction_ok := by decide

/-- A leap second that is given with an offset, and the last second of 1969 as the time of a build. -/
theorem timestamps_keep_instant_at_ends :
    decodeTimestamp (.string (some "2016-12-31T15:59:60.5-08:00")) =
      .ok (some (californianLeapSecond.instant (-480))) ∧
    (californianLeapSecond.instant (-480)).IsProper ∧
    Json.decodeBytes decodeTimestamp (encodeTimestamp (californianLeapSecond.instant (-480))).toBytes =
      .ok (some (californianLeapSecond.instant (-480))) ∧
    (californianLeapSecond.instant (-480)).toExactText = "2016-12-31T23:59:60.500Z" ∧
    SourceDate.read (some "-1") = .ok (.ofSeconds (-1)) ∧
    ∃ j w' c, (build .empty twoLayers {} (.ofSeconds (-1)) ⟨"amd64", ""⟩).perform .empty = (.ok j, w') ∧
      j.configFile = .ok c ∧ c.created = some (.ofSeconds (-1)) ∧
      c.history.map (·.created) = [some (.ofSeconds (-1)), some (.ofSeconds (-1))] := by
  obtain ⟨hinstants, hseconds, htexts⟩ := timestamps_keep_instant
  have hspells : Spells "2016-12-31T15:59:60.5-08:00" californianLeapSecond (-480) :=
    ⟨'T', ['.', '5'], ['-', '0', '8', ':', '0', '0'], .inl rfl, @IsFraction.digits [5] (by decide) (by decide),
      @IsOffset.west '-' 8 0 (.inl rfl) (by decide) (by decide), by decide⟩
  have hyear : (Instant.ofSeconds (-1)).HasPlainYear := by decide
  obtain ⟨hread, hbuilt⟩ := hseconds (-1) hyear
  have hyears : PlainYears .empty twoLayers (.ofSeconds (-1)) := (plainYears_empty_iff twoLayers_ne_nil).2 hyear
  obtain ⟨j, w', h⟩ := exists_build_empty (opened_twoLayers .empty) tells_twoLayers hyears ⟨"amd64", ""⟩
  obtain ⟨b, c, hb, hc, hdated⟩ := hbuilt _ _ _ _ _ _ _ h
  have hempty : Image.empty.configFile = .ok {} := mapError_eq_ok.2 Image.ofBytes_rawConfig_empty
  obtain rfl := Except.ok.inj (hempty.symm.trans hb)
  have hproper := californianLeapSecond.isProper_instant (-480)
  refine ⟨(htexts _ _).2 ⟨_, _, _, rfl, hspells, rfl⟩, hproper, (hinstants _ (by decide)).1 hproper, by decide, hread,
    j, w', c, h, hc, hdated.document, hdated.history⟩

/-- A leap second that is no minute's is read of a document as another instant, and texts that differ in the tenth
digit of the second are read as one. -/
theorem timestamps_lose_instant : Instant.strayLeapSecond.HasPlainYear ∧
    Json.decodeBytes decodeTimestamp (encodeTimestamp .strayLeapSecond).toBytes ≠ .ok (some .strayLeapSecond) ∧
    ∃ t, decodeTimestamp (.string (some "2020-01-01T00:00:00.1234567891+01:00")) = .ok (some t) ∧
      decodeTimestamp (.string (some "2020-01-01T00:00:00.1234567892+01:00")) = .ok (some t) := by
  have hyear : Instant.strayLeapSecond.HasPlainYear := by decide
  refine ⟨hyear, ?_, ⟨1577833200, 123456789, by decide⟩, decodeTimestamp_string (by decide),
    decodeTimestamp_string (by decide)⟩
  rw [Json.decodeBytes_toBytes, decodeTimestamp_tree, if_pos hyear]
  simpa using Instant.settled_strayLeapSecond_ne

end ImageAssembly
