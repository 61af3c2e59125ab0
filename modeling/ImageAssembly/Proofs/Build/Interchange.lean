import ImageAssembly.Proofs.Build.Steps
import ImageAssembly.Proofs.Layer.Interchange

/-! Builds on interchangeable layers. The image that is built from one side of the pairs differs from that of the
other side in its layers only: both have the same manifest and the same document. -/

namespace ImageAssembly

open Workspace

namespace Image

/-- The image with other layers. -/
def restack (i : Image) (layers : List Layer) : Image := { i with layers }

theorem storeConfig_restack (i : Image) (layers : List Layer) (c : ConfigFile) :
    (i.restack layers).storeConfig c = (i.storeConfig c).restack layers := by
  simp only [storeConfig, restack]

/-- What is put on counts for the documents by its records only. -/
theorem extend_restack (i : Image) (layers : List Layer) (c : ConfigFile) {as as' : List Addendum}
    (ss : List LayerSummary) (h : as.map (·.history) = as'.map (·.history)) :
    (i.restack layers).extend c as ss = (i.extend c as' ss).restack (layers ++ as.map (·.layer)) := by
  simp only [extend, storeConfig, restack, h]

/-- Whether two images are the same but for their layers, which are the two sides of pairs. -/
def Twins (pairs : List (Layer × Layer)) (i i' : Image) : Prop :=
  ∃ base : Image, i = base.restack (pairs.map Prod.fst) ∧ i' = base.restack (pairs.map Prod.snd)

namespace Twins

variable {pairs : List (Layer × Layer)} {i i' : Image}

theorem manifest (h : Twins pairs i i') : i'.manifest = i.manifest := by
  obtain ⟨base, rfl, rfl⟩ := h
  rfl

theorem rawConfig (h : Twins pairs i i') : i'.rawConfig = i.rawConfig := by
  obtain ⟨base, rfl, rfl⟩ := h
  rfl

/-- A document is accepted for both, as they have equally many layers. -/
theorem withConfigFile (h : Twins pairs i i') (c : ConfigFile) :
    Matched (fun _ => .configCommit) (Twins pairs) (i.withConfigFile c) (i'.withConfigFile c) := by
  obtain ⟨base, rfl, rfl⟩ := h
  have hleft : (base.restack (pairs.map Prod.fst)).layers.length = pairs.length := List.length_map _
  have hright : (base.restack (pairs.map Prod.snd)).layers.length = pairs.length := List.length_map _
  rw [Image.withConfigFile, Image.withConfigFile, hleft, hright]
  split_ifs
  · exact .error rfl
  · exact .ok ⟨base.storeConfig c, storeConfig_restack .., storeConfig_restack ..⟩

end Twins

variable {written : Option Place} {pairs upper : List (Layer × Layer)} {p : Layer × Layer}

theorem inStep_summarize (hp : p ∈ pairs) :
    InStep (Coupled written pairs) Layer.Fault.kind (· = ·) (summarize p.1) (summarize p.2) := by
  refine .given fun w v h => ?_
  have htype := (h.alike p hp).mediaType
  refine (Coupled.ask Layer.isQuestion_digest hp).bind fun d _ hd => ?_
  refine (Coupled.ask Layer.isQuestion_diffId hp).bind fun diffId _ hdiffId => ?_
  refine (Coupled.ask Layer.isQuestion_size hp).bind fun size _ hsize => ?_
  exact .pure (by rw [htype, hd, hdiffId, hsize])

theorem inStep_summarizeAll (hupper : upper ⊆ pairs) : InStep (Coupled written pairs) Layer.Fault.kind (· = ·)
    (summarizeAll (upper.map Prod.fst)) (summarizeAll (upper.map Prod.snd)) := by
  induction upper with
  | nil => exact .pure rfl
  | cons p upper ih =>
    rw [List.cons_subset] at hupper
    refine (inStep_summarize hupper.1).bind fun s _ hs => (ih hupper.2).bind fun ss _ hss => ?_
    exact .pure (by rw [hs, hss])

end Image

namespace Build

variable {written : Option Place} {pairs lower upper : List (Layer × Layer)}

theorem inStep_checkLayers (hupper : upper ⊆ pairs) : InStep (Coupled written pairs) Layer.Fault.kind (· = ·)
    (checkLayers (upper.map Prod.fst)) (checkLayers (upper.map Prod.snd)) := by
  induction upper with
  | nil => exact .pure rfl
  | cons p upper ih =>
    rw [List.cons_subset] at hupper
    refine (Coupled.ask Layer.isQuestion_digest hupper.1).bind fun _ _ _ => ?_
    exact (Coupled.ask Layer.isQuestion_diffId hupper.1).bind fun _ _ _ => ih hupper.2

/-- The records depend on the number of layers alone. -/
theorem map_history_addendaOf (layers : List Layer) (created : Time.Instant) :
    (addendaOf layers created).map (·.history) = List.replicate layers.length (historyOf created layers.length) := by
  rw [addendaOf, List.map_map, ← List.map_const']
  rfl

theorem inStep_append (base : Image) (created : Time.Instant) :
    InStep (Coupled written (lower ++ upper)) (fun _ => .layerAppend) (Image.Twins (lower ++ upper))
      ((base.restack (lower.map Prod.fst)).append (addendaOf (upper.map Prod.fst) created))
      ((base.restack (lower.map Prod.snd)).append (addendaOf (upper.map Prod.snd) created)) := by
  have hsummaries := @Image.inStep_summarizeAll written _ _ (List.subset_append_right lower upper)
  have hhistories : (addendaOf (upper.map Prod.snd) created).map (·.history) =
      (addendaOf (upper.map Prod.fst) created).map (·.history) := by
    rw [map_history_addendaOf, map_history_addendaOf, List.length_map, List.length_map]
  refine InStep.bind (.ofExcept (.refl _ base.appendable)) fun c _ hc => ?_
  rw [← hc, map_layer_addendaOf, map_layer_addendaOf]
  refine (hsummaries.mapFault fun _ _ _ => rfl).bind fun ss _ hss => ?_
  rw [← hss]
  refine .pure ⟨base.extend c (addendaOf (upper.map Prod.fst) created) ss, ?_, ?_⟩
  · rw [List.map_append, Image.extend_restack _ _ _ _ rfl, map_layer_addendaOf]
  · rw [List.map_append, Image.extend_restack _ _ _ _ hhistories, map_layer_addendaOf]

/-- Interchangeable layers are built to images that differ in nothing else, or neither image can be built and both
errors are of one kind. -/
theorem inStep_build (base : Image) (description : Configuration) (created : Time.Instant) (arch : Architecture) :
    InStep (Coupled written (lower ++ upper)) Fault.kind (Image.Twins (lower ++ upper))
      (build (base.restack (lower.map Prod.fst)) (upper.map Prod.fst) description created arch)
      (build (base.restack (lower.map Prod.snd)) (upper.map Prod.snd) description created arch) := by
  have hchecked := @inStep_checkLayers written _ _ (List.subset_append_right lower upper)
  have haddenda : InStep (Coupled written (lower ++ upper)) Fault.kind
      (fun as as' => as = addendaOf (upper.map Prod.fst) created ∧ as' = addendaOf (upper.map Prod.snd) created)
      ((addenda (upper.map Prod.fst) created).mapFault .layer)
      ((addenda (upper.map Prod.snd) created).mapFault .layer) :=
    (hchecked.bind fun _ _ _ => .pure ⟨rfl, rfl⟩).mapFault fun _ _ => id
  refine InStep.bind (.ofExcept (.refl _ _)) fun c _ hc => ?_
  rw [← hc]
  refine haddenda.bind ?_
  rintro _ _ ⟨rfl, rfl⟩
  refine ((inStep_append (typed base) created).mapFault fun _ _ _ => rfl).bind ?_
  rintro _ _ ⟨mid, rfl, rfl⟩
  refine InStep.bind (.ofExcept (.refl _ _)) fun old _ hold => ?_
  rw [← hold]
  refine InStep.bind (.ofExcept (.refl _ _)) fun config _ hconfig => ?_
  rw [← hconfig]
  have htwins : Image.Twins (lower ++ upper) _ _ :=
    ⟨mid.withAnnotations (Provenance.annotations c created), rfl, rfl⟩
  exact .ofExcept ((htwins.withConfigFile config).mapError fun _ _ _ => rfl)

end Build

end ImageAssembly
