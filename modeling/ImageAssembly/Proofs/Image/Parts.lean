import ImageAssembly.Proofs.ConfigFile.RoundTrip
import ImageAssembly.Proofs.Image.Appending

/-! Putting layers on an image in parts. Between two parts the document is written and read again, and nothing of it is
lost that is not a double; what the layers are asked for is remembered from one part to the other. So the parts make
the image that all the layers make at once, and no layers at all leave an image as it is. -/

namespace ImageAssembly.Image

open Json Time Workspace

variable {i j : Image} {c c' : ConfigFile} {xs ys : List Addendum} {ss ts : List LayerSummary} {w w' z : Workspace}

/-! ### Asking in parts -/

theorem summarizeAll_append (ks ls : List Layer) : summarizeAll (ks ++ ls) =
    summarizeAll ks >>= fun ss => summarizeAll ls >>= fun ts => pure (ss ++ ts) := by
  induction ks with
  | nil => simp [summarizeAll]
  | cons k ks ih => simp [summarizeAll, ih]

/-- What is told of layers is told of some of them and then of the others. -/
theorem summarizeAll_append_ok {ks ls : List Layer} {us : List LayerSummary}
    (h : (summarizeAll (ks ++ ls)).perform w = (.ok us, w')) : ∃ ss ts w1,
      (summarizeAll ks).perform w = (.ok ss, w1) ∧ (summarizeAll ls).perform w1 = (.ok ts, w') ∧ us = ss ++ ts := by
  rw [summarizeAll_append] at h
  obtain ⟨ss, w1, hss, h⟩ := Action.perform_bind_ok h
  obtain ⟨ts, w2, hts, h⟩ := Action.perform_bind_ok h
  simp only [Action.perform_pure, Prod.mk.injEq, Except.ok.injEq] at h
  obtain ⟨rfl, rfl⟩ := h
  exact ⟨ss, ts, w1, hss, hts, rfl⟩

theorem annotations_of_summarize {l : Layer} {s : LayerSummary} (h : (summarize l).perform w = (.ok s, w')) :
    s.descriptor.annotations = .empty := by
  obtain ⟨digest, w1, -, h⟩ := Action.perform_bind_ok h
  obtain ⟨diffId, w2, -, h⟩ := Action.perform_bind_ok h
  obtain ⟨size, w3, -, h⟩ := Action.perform_bind_ok h
  simp only [Action.perform_pure, Prod.mk.injEq, Except.ok.injEq] at h
  rw [← h.1]

/-- A summary is determined by what is remembered of its layer. -/
theorem Summarizes.unique {l : Layer} {s t : LayerSummary} (hs : Summarizes w s l) (ht : Summarizes w t l)
    (h : s.descriptor.annotations = t.descriptor.annotations) : s = t := by
  obtain ⟨⟨sType, sDigest, sSize, sAnnotations⟩, sDiffId⟩ := s
  obtain ⟨⟨tType, tDigest, tSize, tAnnotations⟩, tDiffId⟩ := t
  obtain ⟨rfl, rfl⟩ := Prod.mk.inj (hs.stored.unique ht.stored)
  obtain rfl : sType = tType := hs.mediaType.trans ht.mediaType.symm
  obtain rfl : sAnnotations = tAnnotations := h
  obtain rfl : sDiffId = tDiffId := Layer.KnowsDiffId.unique hs.diffId ht.diffId
  rfl

/-- Layers that are asked at two moments tell the same, if what they told is still remembered later on. -/
theorem summaries_unique {ls : List Layer} {v v' : Workspace} (hs : (summarizeAll ls).perform w = (.ok ss, w'))
    (ht : (summarizeAll ls).perform v = (.ok ts, v')) (hw : ∀ l ∈ ls, w.Holds l) (hv : ∀ l ∈ ls, v.Holds l)
    (hwz : w'.Remembers z) (hvz : v'.Remembers z) : ss = ts := by
  induction ls generalizing w v ss ts with
  | nil =>
    simp only [summarizeAll, Action.perform_pure, Prod.mk.injEq, Except.ok.injEq] at hs ht
    rw [← hs.1, ← ht.1]
  | cons l ls ih =>
    obtain ⟨s, w1, hs1, hs⟩ := Action.perform_bind_ok hs
    obtain ⟨ss, w2, hs2, hs⟩ := Action.perform_bind_ok hs
    obtain ⟨t, v1, ht1, ht⟩ := Action.perform_bind_ok ht
    obtain ⟨ts, v2, ht2, ht⟩ := Action.perform_bind_ok ht
    simp only [Action.perform_pure, Prod.mk.injEq, Except.ok.injEq] at hs ht
    obtain ⟨rfl, rfl⟩ := hs
    obtain ⟨rfl, rfl⟩ := ht
    obtain ⟨hrw, -, hsl⟩ := summarize_ok hs1
    obtain ⟨hrv, -, htl⟩ := summarize_ok ht1
    have hrw' := (summarizeAll_ok hs2).1.trans hwz
    have hrv' := (summarizeAll_ok ht2).1.trans hvz
    have hhead : s = t := ((hsl (hw l (by simp))).later hrw').unique ((htl (hv l (by simp))).later hrv')
      ((annotations_of_summarize hs1).trans (annotations_of_summarize ht1).symm)
    have htail : ss = ts := ih hs2 ht2 (fun k hk => (hw k (by simp [hk])).later hrw)
      (fun k hk => (hv k (by simp [hk])).later hrv)
    rw [hhead, htail]

/-! ### The document between two parts -/

/-- Whether the document of an image keeps no doubles, if it can be read at all. -/
def HasPlainDocument (i : Image) : Prop := ∀ c, ConfigFile.ofBytes i.rawConfig = .ok c → c.HasIntegers

/-- The document of an image that plain records have been put on comes back as it was written, if it comes back. -/
theorem isExact_extendedConfig (hkept : c.IsKept) (hintegers : c.HasIntegers) (hxs : ∀ a ∈ xs, a.history.IsPlain)
    (h : ConfigFile.ofBytes (extendedConfig c xs ss).toBytes = .ok c') : (extendedConfig c xs ss).IsExact := by
  have hreads := ConfigFile.exists_decode_of_ofBytes_toBytes h
  have hrecord : ∀ record ∈ (extendedConfig c xs ss).history, record.IsKept 2 ∧
      membersHaveIntegers record.extra.entries := by
    intro record hrecord
    obtain ⟨record', hrecord'⟩ := hreads record hrecord
    rcases List.mem_append.1 hrecord with hold | hnew
    · exact ⟨hkept.history record hold, hintegers.history record hold⟩
    · obtain ⟨a, ha, rfl⟩ := List.mem_map.1 hnew
      exact ⟨(hxs a ha).isKept hrecord', membersHaveIntegers_of_plain _ (hxs a ha).plain⟩
  have hkept' : (extendedConfig c xs ss).IsKept :=
    ⟨hkept.extra, hkept.config, fun record hr => (hrecord record hr).1⟩
  exact ⟨hkept', ⟨hintegers.extra, hintegers.config, fun record hr => (hrecord record hr).2⟩,
    (ConfigFile.exists_ofBytes_toBytes_iff hkept').1 ⟨c', h⟩⟩

/-- What is read between two parts is what the first part wrote, with the instants that its timestamps name. -/
theorem appendable_extend (hi : i.HasPlainDocument) (hxs : ∀ a ∈ xs, a.history.IsPlain) (hc : i.appendable = .ok c)
    (h : (i.extend c xs ss).appendable = .ok c') : c' = (extendedConfig c xs ss).settled := by
  obtain ⟨hread, -, -⟩ := appendable_eq_ok.1 hc
  obtain ⟨hread', -, -⟩ := appendable_eq_ok.1 h
  rw [rawConfig_extend] at hread'
  have hexact := isExact_extendedConfig (ConfigFile.isKept_of_ofBytes hread) (hi c hread) hxs hread'
  rw [ConfigFile.ofBytes_toBytes hexact] at hread'
  exact (Except.ok.inj hread').symm

theorem extendedConfig_extendedConfig (c : ConfigFile) (xs ys : List Addendum) (ss ts : List LayerSummary) :
    extendedConfig (extendedConfig c xs ss) ys ts = extendedConfig c (xs ++ ys) (ss ++ ts) := by
  simp only [extendedConfig, List.map_append, List.append_assoc]

/-- Records are put behind those of a document alike whichever leap seconds the document was written with. -/
theorem toBytes_extendedConfig_settled (c : ConfigFile) (xs : List Addendum) (ss : List LayerSummary) :
    (extendedConfig c.settled xs ss).toBytes = (extendedConfig c xs ss).toBytes := by
  have hsettled : (extendedConfig c.settled xs ss).settled = (extendedConfig c xs ss).settled := by
    simp only [extendedConfig, ConfigFile.settled, List.map_append, List.map_map, Option.map_map, Function.comp_def,
      Instant.settled_settled, History.settled_settled]
  rw [← ConfigFile.toBytes_settled, hsettled, ConfigFile.toBytes_settled]

theorem extend_extend (i : Image) (c : ConfigFile) (xs ys : List Addendum) (ss ts : List LayerSummary) :
    (i.extend c xs ss).extend (extendedConfig c xs ss).settled ys ts = i.extend c (xs ++ ys) (ss ++ ts) := by
  simp only [extend_eq, storeConfig, toBytes_extendedConfig_settled, extendedConfig_extendedConfig, List.map_append,
    List.append_assoc]

/-! ### Parts and the whole -/

/-- Parts that are put on one after the other make the same image as all at once, and leave the same workspace. -/
theorem append_append (hi : i.HasPlainDocument) (hxs : ∀ a ∈ xs, a.history.IsPlain) {w1 w2 : Workspace} {i1 i2 : Image}
    (h1 : (i.append xs).perform w = (.ok i1, w1)) (h2 : (i1.append ys).perform w1 = (.ok i2, w2)) :
    (i.append (xs ++ ys)).perform w = (.ok i2, w2) := by
  obtain ⟨c, ss, hc, hss, rfl⟩ := append_ok h1
  obtain ⟨c', ts, hc', hts, rfl⟩ := append_ok h2
  obtain rfl := appendable_extend hi hxs hc hc'
  have hall : (summarizeAll ((xs ++ ys).map (·.layer))).perform w = (.ok (ss ++ ts), w2) := by
    rw [List.map_append, summarizeAll_append]
    simp only [Action.perform_bind, hss, hts, Action.perform_pure]
  simp only [append, Action.perform_bind, Action.perform_ofExcept, hc, Action.perform_mapFault, hall, Except.mapError,
    Action.perform_pure, extend_extend]

/-- Whether layers that had been opened were put on an image at some moment, and what they told then is still
remembered. -/
inductive AppendedBefore (z : Workspace) (i : Image) (addenda : List Addendum) (j : Image) : Prop
  | intro {w w' : Workspace} (held : ∀ l ∈ addenda.map (·.layer), w.Holds l)
    (run : (i.append addenda).perform w = (.ok j, w')) (remembered : w'.Remembers z)

/-- Parts and the whole make the same image also at different moments, whatever has become of the files. -/
theorem append_apart (hi : i.HasPlainDocument) (hxs : ∀ a ∈ xs, a.history.IsPlain) {i1 i2 : Image}
    (h1 : AppendedBefore z i xs i1) (h2 : AppendedBefore z i1 ys i2) (h : AppendedBefore z i (xs ++ ys) j) :
    i2 = j := by
  obtain ⟨held1, run1, remembered1⟩ := h1
  obtain ⟨held2, run2, remembered2⟩ := h2
  obtain ⟨held, run, remembered⟩ := h
  obtain ⟨c, ss, hc, hss, rfl⟩ := append_ok run1
  obtain ⟨c', ts, hc', hts, rfl⟩ := append_ok run2
  obtain ⟨c'', us, hc'', hus, rfl⟩ := append_ok run
  obtain rfl := appendable_extend hi hxs hc hc'
  obtain rfl := Except.ok.inj (hc.symm.trans hc'')
  rw [List.map_append] at hus held
  obtain ⟨ss', ts', w1, hss', hts', rfl⟩ := summarizeAll_append_ok hus
  obtain ⟨hxsHeld, hysHeld⟩ := List.forall_mem_append.1 held
  obtain ⟨hlater, -, -⟩ := summarizeAll_ok hss'
  have hrest := (summarizeAll_ok hts').1.trans remembered
  obtain rfl : ss = ss' := summaries_unique hss hss' held1 hxsHeld remembered1 hrest
  obtain rfl : ts = ts' :=
    summaries_unique hts hts' held2 (fun l hl => (hysHeld l hl).later hlater) remembered2 remembered
  exact extend_extend i c xs ys ss ts

/-- No layers ask nothing; the document is written once more. -/
theorem append_none (hc : i.appendable = .ok c) (w : Workspace) :
    (i.append []).perform w = (.ok (i.extend c [] []), w) := by
  simp only [append, Action.perform_bind, Action.perform_ofExcept, hc, List.map_nil, summarizeAll,
    Action.perform_mapFault, Action.perform_pure, Except.mapError]

/-- No layers at all leave the image that others have been put on as it is. -/
theorem append_nil (hi : i.HasPlainDocument) (hxs : ∀ a ∈ xs, a.history.IsPlain) {i1 : Image} {v v' : Workspace}
    (h1 : (i.append xs).perform w = (.ok i1, w')) (h : (i1.append []).perform v = (.ok j, v')) : j = i1 ∧ v' = v := by
  obtain ⟨c, ss, hc, hss, rfl⟩ := append_ok h1
  obtain ⟨c', ts, hc', -, -⟩ := append_ok h
  obtain rfl := appendable_extend hi hxs hc hc'
  rw [append_none hc', extend_extend, List.append_nil, List.append_nil, Prod.mk.injEq, Except.ok.injEq] at h
  exact ⟨h.1.symm, h.2.symm⟩

/-- An image whose document holds no doubles is the same whether layers with plain records are put on it in two parts
or at once: from one workspace, and at different moments too, as long as what the layers have told is remembered. No
layers at all then leave it as it is. -/
theorem append_in_parts (hi : i.HasPlainDocument) (hxs : ∀ a ∈ xs, a.history.IsPlain) :
    (∀ ys w w1 w2 i1 i2, (i.append xs).perform w = (.ok i1, w1) → (i1.append ys).perform w1 = (.ok i2, w2) →
      (i.append (xs ++ ys)).perform w = (.ok i2, w2)) ∧
    (∀ ys z i1 i2 j, AppendedBefore z i xs i1 → AppendedBefore z i1 ys i2 → AppendedBefore z i (xs ++ ys) j →
      i2 = j) ∧
    ∀ w w1 v v' i1 j, (i.append xs).perform w = (.ok i1, w1) → (i1.append []).perform v = (.ok j, v') →
      j = i1 ∧ v' = v :=
  ⟨fun _ _ _ _ _ _ => append_append hi hxs, fun _ _ _ _ _ => append_apart hi hxs,
    fun _ _ _ _ _ _ => append_nil hi hxs⟩

/-- A layer of one byte, with a record that keeps a number. -/
def numberedStep : Addendum where
  layer := .memory ⟨⟨#[1]⟩, .layer, .sha256 ⟨#[1]⟩, .sha256 ⟨#[1]⟩, rfl⟩
  history := { comment := "step", extra := ⟨[("id", .number (.integer 1))], by simp⟩ }

theorem isExact_numberedStep (ss : List LayerSummary) : (extendedConfig {} [numberedStep] ss).IsExact where
  kept := by
    refine ⟨KeptMembers.empty _ _, KeptMembers.empty _ _, ?_⟩
    simp only [extendedConfig, numberedStep, List.map_cons, List.map_nil, List.nil_append, List.forall_mem_singleton]
    refine ⟨by decide, ?_⟩
    simp [dictionaryFits, membersFit, Value.Fits, Number.IsReadable, maxNatural, Text.Integer.bound]
  integers := by
    constructor <;> simp [extendedConfig, numberedStep, membersHaveIntegers, Value.HasIntegers, Number.IsInteger,
      Dictionary.empty]
  years := by
    constructor <;> simp [extendedConfig, numberedStep]

/-- The layer put on the empty image twice. -/
theorem append_in_parts_numberedStep : empty.HasPlainDocument ∧ (∀ a ∈ [numberedStep], a.history.IsPlain) ∧
    ∃ i1 i2, (empty.append [numberedStep]).perform .empty = (.ok i1, .empty) ∧
      (i1.append [numberedStep]).perform .empty = (.ok i2, .empty) ∧
      (empty.append ([numberedStep] ++ [numberedStep])).perform .empty = (.ok i2, .empty) := by
  have hi : empty.HasPlainDocument := by
    intro c hc
    obtain rfl := Except.ok.inj (ofBytes_rawConfig_empty.symm.trans hc)
    constructor <;> simp [membersHaveIntegers, Dictionary.empty]
  have hxs : ∀ a ∈ [numberedStep], a.history.IsPlain := by
    simp only [List.forall_mem_singleton]
    refine ⟨by decide, ?_⟩
    simp [numberedStep, membersArePlain, Value.IsPlain, Number.IsInteger, Number.IsReadable, maxNatural,
      Text.Integer.bound]
  have hknown : ∀ a ∈ [numberedStep], a.layer.Known .empty := by
    simp only [List.forall_mem_singleton]
    exact Layer.known_memory _ _
  obtain ⟨ss, hss⟩ := exists_append appendable_empty hknown
  have hread : (empty.extend {} [numberedStep] ss).appendable = .ok (extendedConfig {} [numberedStep] ss).settled := by
    refine appendable_eq_ok.2 ⟨?_, rfl, ?_⟩
    · rw [rawConfig_extend, ConfigFile.ofBytes_toBytes (isExact_numberedStep ss)]
    · simp [extendedConfig, ConfigFile.settled, empty]
  obtain ⟨ts, hts⟩ := exists_append hread hknown
  exact ⟨hi, hxs, _, _, hss, hts, (append_in_parts hi hxs).1 _ _ _ _ _ _ hss hts⟩

/-! ### A kept member under the name of a field -/

/-- The layer of one byte, with a record that keeps a member under the name of a field. -/
def renamedStep : Addendum where
  layer := numberedStep.layer
  history := { comment := "step", extra := ⟨[("author", .string "x")], by simp⟩ }

/-- What that record is read as. -/
def renamedRecord : History := { author := "x", comment := "step" }

/-- What the document of the empty image with that record is read as. -/
def renamedConfig (ss : List LayerSummary) : ConfigFile :=
  { extendedConfig {} [renamedStep] ss with history := [renamedRecord] }

theorem ofBytes_renamedStep (ss : List LayerSummary) :
    ConfigFile.ofBytes (extendedConfig {} [renamedStep] ss).toBytes = .ok (renamedConfig ss) := by
  have hconfig : ContainerConfig.decode 1 (ContainerConfig.encode {}).tree = .ok {} := rfl
  have hrecords : Tree.list (History.decode 2) (listValue History.encode [renamedStep.history]).tree =
      .ok [renamedRecord] := rfl
  have hreads := ConfigFile.reads_fields (c := extendedConfig {} [renamedStep] ss) nofun hconfig hrecords
  rw [ConfigFile.ofBytes, ConfigFile.toBytes, decodeBytes_toBytes, ConfigFile.encode_eq, Value.tree, ConfigFile.decode]
  exact congrArg (Except.bind · fun s => Tree.closedOr true s.complete) hreads

/-- The author stands in front of the comment where the record has been read, and behind it where it has not. -/
theorem toBytes_renamedConfig_ne (ss : List LayerSummary) :
    (renamedConfig ss).toBytes ≠ (extendedConfig {} [renamedStep] ss).toBytes := by
  intro h
  have htree := tree_eq_of_toBytes_eq h
  simp [ConfigFile.encode_eq, ConfigFile.namedMembers, extendedConfig, renamedConfig, renamedStep, renamedRecord,
    History.encode_eq, History.namedMembers, Value.tree, memberTrees_eq, itemTrees, Json.member, listMember,
    memberUnless, listValue, textMember, optionalMember] at htree

/-- The layer with that record is put on the empty image, and then nothing more: the document is another one than
where both are put on at once. -/
theorem append_in_parts_renamedStep : ∃ i1 i2, (empty.append [renamedStep]).perform .empty = (.ok i1, .empty) ∧
    (i1.append []).perform .empty = (.ok i2, .empty) ∧
    (empty.append ([renamedStep] ++ [])).perform .empty = (.ok i1, .empty) ∧ i2.rawConfig ≠ i1.rawConfig := by
  have hknown : ∀ a ∈ [renamedStep], a.layer.Known .empty := by
    simp only [List.forall_mem_singleton]
    exact Layer.known_memory _ _
  obtain ⟨ss, hss⟩ := exists_append appendable_empty hknown
  have hread : (empty.extend {} [renamedStep] ss).appendable = .ok (renamedConfig ss) := by
    refine appendable_eq_ok.2 ⟨?_, rfl, ?_⟩
    · rw [rawConfig_extend, ofBytes_renamedStep]
    · simp [renamedConfig, extendedConfig, empty]
  refine ⟨_, _, hss, append_none hread .empty, hss, ?_⟩
  rw [rawConfig_extend, rawConfig_extend]
  simpa [renamedConfig, extendedConfig] using toBytes_renamedConfig_ne ss

end ImageAssembly.Image
