import ImageAssembly.CommandLine.Commands
import ImageAssembly.Proofs.Build.Steps

/-! Work that leaves the files as they are. Descriptions, layouts and layers are read, and images are built, without
a change to any file, whether or not the work succeeds. -/

namespace ImageAssembly

open Workspace

namespace Workspace

/-- Whether the files are the same. -/
def KeepsFiles (w w' : Workspace) : Prop := w'.files = w.files

instance : IsPreorder Workspace KeepsFiles where
  refl _ := rfl
  trans _ _ _ h h' := Eq.trans h' h

end Workspace

namespace FileLayer

theorem keepsFiles_digestAndSize (l : FileLayer) : l.digestAndSize.Leads KeepsFiles :=
  l.recalls_digestAndSize.leads fun _ _ _ _ => rfl

theorem keepsFiles_diffId (l : FileLayer) : l.diffId.Leads KeepsFiles :=
  l.recalls_diffId.leads fun _ _ _ _ => rfl

theorem keepsFiles_ofType {ε : Type} (path : String) (m : MediaType) :
    (ofType path m : Action ε FileLayer).Leads KeepsFiles := fun _ => rfl

theorem keepsFiles_openPath (path : String) : (openPath path).Leads KeepsFiles :=
  ((Action.Leads.ofFiles _).mapFault _).bind fun _ => (Action.Leads.ofExcept _).bind fun _ => keepsFiles_ofType _ _

end FileLayer

theorem Layer.asks_keepsFiles (l : Layer) : l.Asks KeepsFiles := by
  cases l with
  | memory l => exact asks_memory _ l
  | file l => exact asks_file l.keepsFiles_digestAndSize l.keepsFiles_diffId

theorem Build.keepsFiles_build (base : Image) (layers : List Layer) (description : Configuration)
    (created : Time.Instant) (arch : Architecture) : (build base layers description created arch).Leads KeepsFiles :=
  leads_build (fun l _ => l.asks_keepsFiles) base description created arch

theorem Layout.keepsFiles_layersOf (root : String) (ds : List Descriptor) :
    (layersOf root ds).Leads KeepsFiles := by
  induction ds with
  | nil => exact .pure _
  | cons d ds ih =>
    intro w
    rw [layersOf, Action.perform_bind, Action.perform_get]
    dsimp only
    split_ifs
    · rfl
    · exact ((FileLayer.keepsFiles_ofType _ _).bind fun _ => ih.bind fun _ => .pure _) w

theorem Layout.keepsFiles_load (root : String) : (load root).Leads KeepsFiles :=
  (Action.Leads.ofFiles _).bind fun _ => (keepsFiles_layersOf _ _).bind fun _ => .pure _

namespace CommandLine

theorem keepsFiles_loadDescription (path : Option String) : (loadDescription path).Leads KeepsFiles := by
  cases path with
  | none => exact .pure _
  | some path => exact .mapFault ((Action.Leads.ofFiles _).bind fun _ => .ofExcept _) _

theorem keepsFiles_describe (r : BuildRequest) : (describe r).Leads KeepsFiles :=
  ((keepsFiles_loadDescription r.config).mapFault _).bind fun _ => (Action.Leads.ofExcept _).bind fun _ =>
    (Action.Leads.ofExcept _).bind fun _ => .ofExcept _

theorem keepsFiles_openLayers (paths : List String) : (openLayers paths).Leads KeepsFiles := by
  induction paths with
  | nil => exact .pure _
  | cons path paths ih => exact (FileLayer.keepsFiles_openPath path).bind fun _ => ih.bind fun _ => .pure _

theorem keepsFiles_loadBase (base : Option String) : (loadBase base).Leads KeepsFiles := by
  cases base with
  | none => exact .pure _
  | some root => exact .mapFault (Layout.keepsFiles_load root) _

end CommandLine

end ImageAssembly
