import ImageAssembly.Image.Basic
import ImageAssembly.Proofs.ConfigFile.Basic
import ImageAssembly.Proofs.Layer.Asking

/-! Putting layers on an image. Every layer is asked for its digest, its diff id and its size, and the
answers end up in the manifest and in the configuration document, behind those that are there. -/

namespace ImageAssembly.Image

open Workspace

/-! ### Summaries -/

/-- Whether a summary says what is known of a layer. -/
structure Summarizes (w : Workspace) (s : LayerSummary) (l : Layer) : Prop where
  mediaType : s.descriptor.mediaType = l.mediaType
  stored : l.Knows w (s.descriptor.digest, s.descriptor.size)
  diffId : l.KnowsDiffId w s.diffId

theorem Summarizes.later {w w' : Workspace} {s : LayerSummary} {l : Layer} (h : Summarizes w s l)
    (hw : w.Remembers w') : Summarizes w' s l :=
  ⟨h.mediaType, h.stored.later hw, h.diffId.later hw⟩

theorem leads_summarizeAll {r : Workspace → Workspace → Prop} [IsPreorder Workspace r] {ls : List Layer}
    (h : ∀ l ∈ ls, l.Asks r) : (summarizeAll ls).Leads r := by
  induction ls with
  | nil => exact .pure _
  | cons l ls ih =>
    have hl := h l (by simp)
    have hsummary : (summarize l).Leads r :=
      hl.digest.bind fun _ => hl.diffId.bind fun _ => hl.size.bind fun _ => .pure _
    exact hsummary.bind fun _ => (ih fun k hk => h k (by simp [hk])).bind fun _ => .pure _

theorem summarize_ok {l : Layer} {s : LayerSummary} {w w' : Workspace}
    (h : (summarize l).perform w = (.ok s, w')) :
    w.Remembers w' ∧ w'.files = w.files ∧ (w.Holds l → Summarizes w' s l) := by
  obtain ⟨digest, w1, h1, h⟩ := Action.perform_bind_ok h
  obtain ⟨diffId, w2, h2, h⟩ := Action.perform_bind_ok h
  obtain ⟨size, w3, h3, h⟩ := Action.perform_bind_ok h
  simp only [Action.perform_pure, Prod.mk.injEq, Except.ok.injEq] at h
  obtain ⟨rfl, rfl⟩ := h
  obtain ⟨r1, f1, k1⟩ := Layer.digest_ok h1
  obtain ⟨r2, f2, k2⟩ := Layer.diffId_ok h2
  obtain ⟨r3, f3, k3⟩ := Layer.size_ok h3
  refine ⟨(r1.trans r2).trans r3, f3.trans (f2.trans f1), fun hold => ?_⟩
  obtain ⟨n, hn⟩ := k1 hold
  obtain ⟨d, hd⟩ := k3 ((hold.later r1).later r2)
  -- both answers come from the same memo
  have heq := (hn.later (r2.trans r3)).unique hd
  rw [Prod.mk.injEq] at heq
  refine ⟨rfl, ?_, (k2 (hold.later r1)).later r3⟩
  rw [heq.1]
  exact hd

theorem summarizeAll_ok {ls : List Layer} {ss : List LayerSummary} {w w' : Workspace}
    (h : (summarizeAll ls).perform w = (.ok ss, w')) :
    w.Remembers w' ∧ w'.files = w.files ∧
      ((∀ l ∈ ls, w.Holds l) → List.Forall₂ (Summarizes w') ss ls) := by
  induction ls generalizing w ss with
  | nil =>
    simp only [summarizeAll, Action.perform_pure, Prod.mk.injEq, Except.ok.injEq] at h
    obtain ⟨rfl, rfl⟩ := h
    exact ⟨.refl w, rfl, fun _ => .nil⟩
  | cons l ls ih =>
    obtain ⟨s, w1, h1, h⟩ := Action.perform_bind_ok h
    obtain ⟨rest, w2, h2, h⟩ := Action.perform_bind_ok h
    simp only [Action.perform_pure, Prod.mk.injEq, Except.ok.injEq] at h
    obtain ⟨rfl, rfl⟩ := h
    obtain ⟨r1, f1, k1⟩ := summarize_ok h1
    obtain ⟨r2, f2, k2⟩ := ih h2
    refine ⟨r1.trans r2, f2.trans f1, fun hold => ?_⟩
    exact .cons ((k1 (hold l (by simp))).later r2) (k2 fun l' hl' => (hold l' (by simp [hl'])).later r1)

theorem length_of_summarizeAll {ls : List Layer} {ss : List LayerSummary} {w w' : Workspace}
    (h : (summarizeAll ls).perform w = (.ok ss, w')) : ss.length = ls.length := by
  induction ls generalizing w ss with
  | nil =>
    simp only [summarizeAll, Action.perform_pure, Prod.mk.injEq, Except.ok.injEq] at h
    rw [← h.1]
    rfl
  | cons l ls ih =>
    obtain ⟨s, w1, -, h⟩ := Action.perform_bind_ok h
    obtain ⟨rest, w2, h2, h⟩ := Action.perform_bind_ok h
    simp only [Action.perform_pure, Prod.mk.injEq, Except.ok.injEq] at h
    obtain ⟨rfl, rfl⟩ := h
    rw [List.length_cons, ih h2, List.length_cons]

/-- Layers that are known are summarized, and nothing changes. -/
theorem exists_summarizeAll {ls : List Layer} {w : Workspace} (h : ∀ l ∈ ls, l.Known w) :
    ∃ ss, (summarizeAll ls).perform w = (.ok ss, w) := by
  induction ls with
  | nil => exact ⟨[], rfl⟩
  | cons l ls ih =>
    obtain ⟨⟨stored, hs⟩, d, hd⟩ := h l (by simp)
    obtain ⟨ss, hss⟩ := ih fun l' hl' => h l' (by simp [hl'])
    have hl : (summarize l).perform w = (.ok ⟨⟨l.mediaType, stored.1, stored.2, .empty⟩, d⟩, w) := by
      simp only [summarize, Action.perform_bind, hs.digest, hd.diffId, hs.size, Action.perform_pure]
    refine ⟨⟨⟨l.mediaType, stored.1, stored.2, .empty⟩, d⟩ :: ss, ?_⟩
    simp only [summarizeAll, Action.perform_bind, hl, hss, Action.perform_pure]

/-! ### Appending -/

/-- An image that layers can be put on has a readable document of stacked layers, as many as it has. -/
theorem appendable_eq_ok {i : Image} {c : ConfigFile} : i.appendable = .ok c ↔
    ConfigFile.ofBytes i.rawConfig = .ok c ∧ c.rootfs.type = RootFs.layersType ∧
      c.rootfs.diffIds.length = i.manifest.layers.length := by
  rw [appendable]
  cases hc : ConfigFile.ofBytes i.rawConfig with
  | error fault => simp [Except.mapError, bind, Except.bind]
  | ok c' =>
    simp only [Except.mapError, bind, Except.bind, Except.ok.injEq]
    by_cases ht : c'.rootfs.type = RootFs.layersType
    · by_cases hn : c'.rootfs.diffIds.length = i.manifest.layers.length
      · simp only [ht, hn, ne_eq, not_true_eq_false, if_false, pure, Except.pure, Except.ok.injEq]
        constructor
        · rintro rfl
          exact ⟨rfl, ht, hn⟩
        · exact fun h => h.1
      · simp only [ht, hn, ne_eq, not_true_eq_false, if_false, not_false_eq_true, if_true, throw, throwThe,
          MonadExceptOf.throw, pure, Except.pure]
        constructor
        · simp
        · rintro ⟨rfl, -, h⟩
          exact absurd h hn
    · simp only [ht, ne_eq, not_false_eq_true, if_true, throw, throwThe, MonadExceptOf.throw]
      constructor
      · simp
      · rintro ⟨rfl, h, -⟩
        exact absurd h ht

theorem ofBytes_rawConfig_empty : ConfigFile.ofBytes empty.rawConfig = .ok {} :=
  ConfigFile.ofBytes_toBytes_default

/-- Layers can be put on the empty image. -/
theorem appendable_empty : empty.appendable = .ok {} :=
  appendable_eq_ok.2 ⟨ofBytes_rawConfig_empty, rfl, rfl⟩

/-- Putting layers on an image does to a workspace what asking them does. -/
theorem leads_append {r : Workspace → Workspace → Prop} [IsPreorder Workspace r] (i : Image)
    {addenda : List Addendum} (h : ∀ l ∈ addenda.map (·.layer), l.Asks r) : (i.append addenda).Leads r :=
  (Action.Leads.ofExcept _).bind fun _ => ((leads_summarizeAll h).mapFault _).bind fun _ => .pure _

theorem append_ok {i j : Image} {addenda : List Addendum} {w w' : Workspace}
    (h : (i.append addenda).perform w = (.ok j, w')) :
    ∃ c summaries, i.appendable = .ok c ∧
      (summarizeAll (addenda.map (·.layer))).perform w = (.ok summaries, w') ∧
      j = i.extend c addenda summaries := by
  obtain ⟨c, w1, h1, h⟩ := Action.perform_bind_ok h
  obtain ⟨summaries, w2, h2, h⟩ := Action.perform_bind_ok h
  simp only [Action.perform_pure, Action.perform_ofExcept, Prod.mk.injEq, Except.ok.injEq] at h h1
  obtain ⟨rfl, rfl⟩ := h
  obtain ⟨hc, rfl⟩ := h1
  exact ⟨c, summaries, hc, Action.perform_mapFault_ok.1 h2, rfl⟩

/-- Layers that are known are put on every image that layers can be put on. -/
theorem exists_append {i : Image} {c : ConfigFile} {addenda : List Addendum} {w : Workspace}
    (hc : i.appendable = .ok c) (h : ∀ a ∈ addenda, a.layer.Known w) :
    ∃ ss, (i.append addenda).perform w = (.ok (i.extend c addenda ss), w) := by
  obtain ⟨ss, hss⟩ := exists_summarizeAll (List.forall_mem_map.2 h)
  refine ⟨ss, ?_⟩
  simp only [append, Action.perform_bind, Action.perform_ofExcept, hc, Action.perform_mapFault, hss,
    Except.mapError, Action.perform_pure]

/-- The document of an extended image. -/
def extendedConfig (c : ConfigFile) (addenda : List Addendum) (summaries : List LayerSummary) : ConfigFile :=
  { c with
    rootfs := { c.rootfs with diffIds := c.rootfs.diffIds ++ summaries.map (·.diffId) }
    history := c.history ++ addenda.map (·.history) }

theorem extend_eq (i : Image) (c : ConfigFile) (addenda : List Addendum) (summaries : List LayerSummary) :
    i.extend c addenda summaries =
      ({ i with
        manifest := { i.manifest with layers := i.manifest.layers ++ summaries.map (·.descriptor) }
        layers := i.layers ++ addenda.map (·.layer) } : Image).storeConfig
        (extendedConfig c addenda summaries) := by
  rw [extend, extendedConfig]

@[simp] theorem rawConfig_storeConfig (i : Image) (c : ConfigFile) : (i.storeConfig c).rawConfig = c.toBytes := by
  rw [storeConfig]

@[simp] theorem layers_storeConfig (i : Image) (c : ConfigFile) : (i.storeConfig c).layers = i.layers := by
  rw [storeConfig]

@[simp] theorem manifestLayers_storeConfig (i : Image) (c : ConfigFile) :
    (i.storeConfig c).manifest.layers = i.manifest.layers := by
  rw [storeConfig]

@[simp] theorem digest_storeConfig (i : Image) (c : ConfigFile) :
    (i.storeConfig c).manifest.config.digest = .sha256 c.toBytes := by
  rw [storeConfig]

@[simp] theorem size_storeConfig (i : Image) (c : ConfigFile) :
    (i.storeConfig c).manifest.config.size = c.toBytes.size := by
  rw [storeConfig]

@[simp] theorem rawConfig_extend (i : Image) (c : ConfigFile) (addenda : List Addendum)
    (summaries : List LayerSummary) :
    (i.extend c addenda summaries).rawConfig = (extendedConfig c addenda summaries).toBytes := by
  rw [extend_eq, rawConfig_storeConfig]

/-- Whenever the document of an extended image can be read, it lists the new diff ids behind the old. -/
@[simp] theorem layers_extend (i : Image) (c : ConfigFile) (addenda : List Addendum)
    (summaries : List LayerSummary) :
    (i.extend c addenda summaries).layers = i.layers ++ addenda.map (·.layer) := by
  rw [extend_eq, layers_storeConfig]

@[simp] theorem manifestLayers_extend (i : Image) (c : ConfigFile) (addenda : List Addendum)
    (summaries : List LayerSummary) :
    (i.extend c addenda summaries).manifest.layers = i.manifest.layers ++ summaries.map (·.descriptor) := by
  rw [extend_eq, manifestLayers_storeConfig]

/-! ### Replacing the document -/

theorem withConfigFile_eq_ok {i j : Image} {c : ConfigFile} :
    i.withConfigFile c = .ok j ↔ c.rootfs.diffIds.length = i.layers.length ∧ j = i.storeConfig c := by
  rw [withConfigFile]
  split_ifs with h
  · simp [h]
  · rw [not_not] at h
    rw [Except.ok.injEq, eq_comm]
    simp [h]

end ImageAssembly.Image
