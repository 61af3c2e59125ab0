import ImageAssembly.Proofs.ConfigFile.Runtime
import ImageAssembly.Proofs.Time.Reading

/-! The timestamps of a document. They come back as they were written wherever they can be read, whatever else the
document keeps, and what is read has no leap second behind another second than a minute's last. -/

namespace ImageAssembly

open Json Time

theorem ofText?_empty : Instant.ofText? "" = none := rfl

/-- A timestamp of a document is a text that spells a local time and an offset, and is read as the instant that
these tell. -/
theorem decodeTimestamp_eq_some_iff {t : Tree} {i : Instant} : decodeTimestamp t = .ok (some i) ↔
    ∃ text l offset, t.optional Tree.text = .ok (some text) ∧ Spells text l offset ∧ i = l.instant offset := by
  simp only [exists_and_left, ← Instant.ofText?_eq_some_iff]
  unfold decodeTimestamp
  cases t.optional Tree.text with
  | error fault => simp [bind, Except.bind]
  | ok o =>
    cases o with
    | none => simp [bind, Except.bind, pure, Except.pure]
    | some text =>
      simp only [bind, Except.bind, Except.ok.injEq, Option.some.injEq, exists_eq_left']
      by_cases hempty : text = ""
      · simp [hempty, ofText?_empty, pure, Except.pure]
      · rw [if_neg hempty]
        cases Instant.ofText? text <;> simp [pure, Except.pure, throw, throwThe, MonadExceptOf.throw]

theorem decodeTimestamp_string {text : String} {i : Instant} (h : Instant.ofText? text = some i) :
    decodeTimestamp (.string (some text)) = .ok (some i) := by
  obtain ⟨l, offset, hspells, rfl⟩ := Instant.ofText?_eq_some_iff.1 h
  exact decodeTimestamp_eq_some_iff.2 ⟨text, l, offset, rfl, hspells, rfl⟩

theorem isProper_of_decodeTimestamp {t : Tree} {o : Option Instant} (h : decodeTimestamp t = .ok o) :
    ∀ i ∈ o, i.IsProper := by
  rintro i rfl
  obtain ⟨text, l, offset, -, -, rfl⟩ := decodeTimestamp_eq_some_iff.1 h
  exact l.isProper_instant offset

/-- A record comes back as it was written, the members that have no field apart. -/
theorem History.exists_decode_tree {depth : Nat} {h : History} (hkept : h.IsKept depth)
    (hyear : ∀ t ∈ h.created, t.HasPlainYear) :
    ∃ extra, decode depth h.encode.tree = .ok { h.settled with extra } := by
  obtain ⟨extra, hreads⟩ := (reader (depth + 1)).exists_reads_extra hkept
  have hextra := hreads (fun extra => { h.written with extra }) fun _ _ _ => rfl
  have hempty : (valueUnless (!h.emptyLayer) true).getD false = h.emptyLayer := by cases h.emptyLayer <;> rfl
  refine ⟨extra, ?_⟩
  rw [encode_eq, Value.tree, decode, (reads_written hyear (depth + 1)).append hextra]
  simp only [Except.bind, Tree.closedOr, if_true, Fields.complete, written, getD_created, hempty, getD_text, settled]

/-- A record that was read has no leap second behind another second than a minute's last. -/
theorem History.isProper_of_decode {depth : Nat} {t : Tree} {h : History} (hd : decode depth t = .ok h) :
    ∀ i ∈ h.created, i.IsProper := by
  obtain ⟨ms, s, hs, rfl⟩ := exists_members_of_decode hd
  have hslot : ("created", createdSlot) ∈ (reader (depth + 1)).slots := by simp [reader, slots]
  rw [Fields.complete]
  cases hc : s.created with
  | none => simp
  | some o =>
    obtain ⟨u, hu⟩ := (reader (depth + 1)).exists_decode_of_get hslot hs hc
    exact isProper_of_decodeTimestamp hu

namespace ConfigFile

/-- The records of a document are read one by one, each with its timestamp. -/
theorem exists_records {c : ConfigFile} (hk : c.IsKept) (hyears : c.HasPlainYears) :
    ∃ read : History → History,
      Tree.list (History.decode 2) (listValue History.encode c.history).tree = .ok (c.history.map read) ∧
        ∀ h ∈ c.history, (read h).created = h.created.map Instant.settled := by
  have hrecord : ∀ h ∈ c.history, ∃ h', History.decode 2 h.encode.tree = .ok h' ∧
      h'.created = h.created.map Instant.settled := by
    intro h hh
    obtain ⟨extra, hread⟩ := History.exists_decode_tree (hk.history h hh) (hyears.history h hh)
    exact ⟨_, hread, rfl⟩
  choose! read hread hcreated using hrecord
  exact ⟨read, list_tree_map hread, hcreated⟩

/-- Whatever is read of a written document has the timestamps that were written, its own and those of its records. -/
theorem timestamps_of_ofBytes_toBytes {c c' : ConfigFile} (hk : c.IsKept) (h : ofBytes c.toBytes = .ok c') :
    c'.created = c.created.map Instant.settled ∧
      c'.history.map (·.created) = c.history.map (·.created.map Instant.settled) := by
  have hyears := (exists_ofBytes_toBytes_iff hk).1 ⟨c', h⟩
  obtain ⟨read, hrecords, hread⟩ := exists_records hk hyears
  obtain ⟨config, hconfig⟩ := ContainerConfig.exists_decode hk.config
  obtain ⟨extra, hreads⟩ := reader.exists_reads_extra hk.extra
  have hfields := reads_fields hyears.created hconfig hrecords
  have hextra := hreads (fun extra => { c.written with
    config := some config
    history := valueUnless c.history.isEmpty (c.history.map read)
    extra }) fun _ _ _ => rfl
  have hhistory : (valueUnless c.history.isEmpty (c.history.map read)).getD [] = c.history.map read :=
    getD_valueUnless fun hnil => by rw [List.isEmpty_iff.1 hnil, List.map_nil]
  rw [ofBytes, toBytes, decodeBytes_toBytes, encode_eq, Value.tree, decode, hfields.append hextra] at h
  obtain rfl := Except.ok.inj h
  refine ⟨History.getD_created c.created, ?_⟩
  show ((valueUnless c.history.isEmpty (c.history.map read)).getD []).map (·.created) = _
  rw [hhistory, List.map_map]
  exact List.map_congr_left hread

/-- What is read of a written document can be read again where it is written. -/
theorem hasPlainYears_of_ofBytes_toBytes {c c' : ConfigFile} (hk : c.IsKept) (h : ofBytes c.toBytes = .ok c') :
    c'.HasPlainYears := by
  have hyears := (exists_ofBytes_toBytes_iff hk).1 ⟨c', h⟩
  obtain ⟨hcreated, hhistory⟩ := timestamps_of_ofBytes_toBytes hk h
  have hplain (o : Option Instant) (ho : ∀ t ∈ o, t.HasPlainYear) : ∀ t ∈ o.map Instant.settled, t.HasPlainYear := by
    intro t ht
    obtain ⟨u, hu, rfl⟩ := Option.map_eq_some_iff.1 ht
    exact Instant.hasPlainYear_settled.2 (ho u hu)
  constructor
  · rw [hcreated]
    exact hplain _ hyears.created
  · intro record hrecord
    have hmem : record.created ∈ c.history.map (·.created.map Instant.settled) :=
      hhistory ▸ List.mem_map_of_mem hrecord
    obtain ⟨written, hwritten, hsame⟩ := List.mem_map.1 hmem
    rw [← hsame]
    exact hplain _ (hyears.history written hwritten)

/-- A document that was read has no leap second behind another second than a minute's last. -/
theorem hasProperTimes_of_ofBytes {text : ByteArray} {c : ConfigFile} (h : ofBytes text = .ok c) :
    c.HasProperTimes := by
  obtain ⟨ms, s, hs, rfl⟩ := exists_members_of_ofBytes h
  have hslot : ("created", createdSlot) ∈ reader.slots := by simp [reader, slots]
  refine ⟨?_, forall_history_of_members (fun _ _ => History.isProper_of_decode) hs⟩
  rw [Fields.complete]
  cases hc : s.created with
  | none => simp
  | some o =>
    obtain ⟨t, ht⟩ := reader.exists_decode_of_get hslot hs hc
    exact isProper_of_decodeTimestamp ht

end ConfigFile

end ImageAssembly
