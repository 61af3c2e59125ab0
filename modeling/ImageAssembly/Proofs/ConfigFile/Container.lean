import ImageAssembly.ConfigFile.Container
import ImageAssembly.Proofs.Json.Records

/-! Runtime defaults through text and back. What was read is read again where it is written. -/

namespace ImageAssembly

open Json

theorem decodeEmptyObject_tree (u : Unit) : decodeEmptyObject (encodeEmptyObject u).tree = .ok () := rfl

namespace ContainerConfig

/-- The keys of a record that have a field. -/
def fieldNames : List String := ["User", "ExposedPorts", "Env", "Entrypoint", "Cmd", "Volumes", "WorkingDir",
  "Labels", "StopSignal"]

/-! ### Fields -/

def userSlot : Slot Fields where
  decode := Tree.text
  get := Fields.user
  put s o := { s with user := o }

def exposedPortsSlot : Slot Fields where
  decode := Tree.dictionary decodeEmptyObject
  get := Fields.exposedPorts
  put s o := { s with exposedPorts := o }

def envSlot : Slot Fields where
  decode := Tree.list Tree.text
  get := Fields.env
  put s o := { s with env := o }

def entrypointSlot : Slot Fields where
  decode := Tree.list Tree.text
  get := Fields.entrypoint
  put s o := { s with entrypoint := o }

def cmdSlot : Slot Fields where
  decode := Tree.list Tree.text
  get := Fields.cmd
  put s o := { s with cmd := o }

def volumesSlot : Slot Fields where
  decode := Tree.dictionary decodeEmptyObject
  get := Fields.volumes
  put s o := { s with volumes := o }

def workingDirSlot : Slot Fields where
  decode := Tree.text
  get := Fields.workingDir
  put s o := { s with workingDir := o }

def labelsSlot : Slot Fields where
  decode := Tree.dictionaryOfText
  get := Fields.labels
  put s o := { s with labels := o }

def stopSignalSlot : Slot Fields where
  decode := Tree.text
  get := Fields.stopSignal
  put s o := { s with stopSignal := o }

/-- The fields under their keys. -/
def slots : List (String × Slot Fields) :=
  [("User", userSlot), ("ExposedPorts", exposedPortsSlot), ("Env", envSlot), ("Entrypoint", entrypointSlot),
    ("Cmd", cmdSlot), ("Volumes", volumesSlot), ("WorkingDir", workingDirSlot), ("Labels", labelsSlot),
    ("StopSignal", stopSignalSlot)]

def reader (depth : Nat) : RecordReader (Fields.read depth) {} fieldNames depth where
  slots := slots
  kept := Fields.extra
  keep s key v := { s with extra := s.extra.insert key v }
  keys_slots := rfl
  apart := by
    simp only [slots, List.pairwise_cons, List.mem_cons, forall_eq_or_imp, List.not_mem_nil, false_implies,
      implies_true, and_true, List.Pairwise.nil]
    and_intros
    all_goals exact fun _ _ => rfl
  field p hp := by
    simp only [slots, List.mem_cons, List.not_mem_nil, or_false] at hp
    rcases hp with rfl | rfl | rfl | rfl | rfl | rfl | rfl | rfl | rfl
    all_goals exact ⟨fun _ _ => rfl, rfl, fun _ _ => rfl, fun _ _ _ => rfl⟩
  other key hkey s t := by
    simp only [fieldNames, List.mem_cons, List.not_mem_nil, or_false, not_or] at hkey
    obtain ⟨h1, h2, h3, h4, h5, h6, h7, h8, h9⟩ := hkey
    rw [Fields.read, if_neg h1, if_neg h2, if_neg h3, if_neg h4, if_neg h5, if_neg h6, if_neg h7, if_neg h8,
      if_neg h9]
  kept_initial := rfl
  kept_keep _ _ _ := rfl

/-- Runtime defaults that were read inside `depth` open containers keep what can be kept there. -/
def IsKept (depth : Nat) (c : ContainerConfig) : Prop := KeptMembers fieldNames (depth + 1) c.extra

theorem isKept_of_decode {depth : Nat} {t : Tree} {c : ContainerConfig} (hd : decode depth t = .ok c) :
    c.IsKept depth := by
  cases t with
  | object ms closed =>
    rw [decode, bind_closedOr_eq_ok] at hd
    obtain ⟨s, hm, -, rfl⟩ := hd
    exact (reader (depth + 1)).keptMembers_of_members hm
  | _ =>
    simp only [decode] at hd
    exact absurd hd (mismatch_ne_ok _ _ _)

/-- The members of the fields. -/
def namedMembers (c : ContainerConfig) : Members :=
  textMember "User" c.user
    ++ dictionaryMember "ExposedPorts" encodeEmptyObject c.exposedPorts
    ++ listMember "Env" .string c.env
    ++ listMember "Entrypoint" .string c.entrypoint
    ++ listMember "Cmd" .string c.cmd
    ++ dictionaryMember "Volumes" encodeEmptyObject c.volumes
    ++ textMember "WorkingDir" c.workingDir
    ++ dictionaryMember "Labels" .string c.labels
    ++ textMember "StopSignal" c.stopSignal

theorem encode_eq (c : ContainerConfig) : c.encode = .object (c.namedMembers ++ c.extra.entries) := rfl

theorem keys_namedMembers (c : ContainerConfig) : (c.namedMembers.map Prod.fst).Sublist fieldNames := by
  simp only [namedMembers, List.map_append]
  exact ((((((((keys_memberUnless _ _ _).append (keys_memberUnless _ _ _)).append
    (keys_memberUnless _ _ _)).append (keys_memberUnless _ _ _)).append (keys_memberUnless _ _ _)).append
    (keys_memberUnless _ _ _)).append (keys_memberUnless _ _ _)).append (keys_memberUnless _ _ _)).append
    (keys_memberUnless _ _ _)

/-- Every field can be read back. -/
theorem reads_namedMembers (depth : Nat) (c : ContainerConfig) :
    ∀ m ∈ c.namedMembers, ∃ s', Fields.read depth {} m.1 m.2.tree = .ok s' := by
  have htexts : ∀ ss : List String, ∃ ss', Tree.list Tree.text (listValue .string ss).tree = .ok ss' :=
    fun ss => ⟨ss, list_tree fun s _ => rfl⟩
  have hsets : ∀ d : Dictionary Unit, ∃ d',
      Tree.dictionary decodeEmptyObject (dictionaryValue encodeEmptyObject d).tree = .ok d' :=
    fun d => exists_dictionary fun m _ => ⟨(), decodeEmptyObject_tree m.2⟩
  obtain ⟨ports, hports⟩ := hsets c.exposedPorts
  obtain ⟨env, henv⟩ := htexts c.env
  obtain ⟨entrypoint, hentrypoint⟩ := htexts c.entrypoint
  obtain ⟨cmd, hcmd⟩ := htexts c.cmd
  obtain ⟨volumes, hvolumes⟩ := hsets c.volumes
  obtain ⟨labels, hlabels⟩ : ∃ d', Tree.dictionaryOfText (dictionaryValue .string c.labels).tree = .ok d' :=
    exists_dictionary fun m _ => ⟨m.2, rfl⟩
  simp only [namedMembers, List.forall_mem_append, textMember, listMember, dictionaryMember,
    forall_mem_memberUnless]
  refine ⟨⟨⟨⟨⟨⟨⟨⟨fun _ => ⟨_, rfl⟩, fun _ => ?_⟩, fun _ => ?_⟩, fun _ => ?_⟩, fun _ => ?_⟩, fun _ => ?_⟩,
    fun _ => ⟨_, rfl⟩⟩, fun _ => ?_⟩, fun _ => ⟨_, rfl⟩⟩
  · exact ⟨_, bind_pure_eq_ok.2 ⟨_, once_eq_ok.2 ⟨rfl, _, hports, rfl⟩, rfl⟩⟩
  · exact ⟨_, bind_pure_eq_ok.2 ⟨_, once_eq_ok.2 ⟨rfl, _, henv, rfl⟩, rfl⟩⟩
  · exact ⟨_, bind_pure_eq_ok.2 ⟨_, once_eq_ok.2 ⟨rfl, _, hentrypoint, rfl⟩, rfl⟩⟩
  · exact ⟨_, bind_pure_eq_ok.2 ⟨_, once_eq_ok.2 ⟨rfl, _, hcmd, rfl⟩, rfl⟩⟩
  · exact ⟨_, bind_pure_eq_ok.2 ⟨_, once_eq_ok.2 ⟨rfl, _, hvolumes, rfl⟩, rfl⟩⟩
  · exact ⟨_, bind_pure_eq_ok.2 ⟨_, once_eq_ok.2 ⟨rfl, _, hlabels, rfl⟩, rfl⟩⟩

/-- Kept runtime defaults are read again. -/
theorem exists_decode {depth : Nat} {c : ContainerConfig} (hk : c.IsKept depth) :
    ∃ c', decode depth c.encode.tree = .ok c' := by
  have hmembers := (reader (depth + 1)).exists_members_append_iff (by decide) c.keys_namedMembers hk
  obtain ⟨s, hs⟩ := hmembers.2 (c.reads_namedMembers (depth + 1))
  rw [encode_eq, Value.tree, decode]
  exact ⟨_, bind_closedOr_eq_ok.2 ⟨s, hs, rfl, rfl⟩⟩

end ContainerConfig

end ImageAssembly
