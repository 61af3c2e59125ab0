import ImageAssembly.ConfigFile.Basic
import ImageAssembly.Proofs.ConfigFile.Container
import ImageAssembly.Proofs.ConfigFile.History
import ImageAssembly.Proofs.Json.Slots

/-! Configuration documents through text and back. Whatever is read of a written document has its root file
system. A document that was read is read again where it is written just if all its timestamps stand in years
that can be read. -/

namespace ImageAssembly

open Json Time

namespace RootFs

def typeSlot : Slot Fields where
  decode := Tree.text
  get := Fields.type
  put s o := { s with type := o }

def diffIdsSlot : Slot Fields where
  decode := Tree.list Tree.digest
  get := Fields.diffIds
  put s o := { s with diffIds := o }

/-- A written root file system is read back. -/
theorem decode_tree (r : RootFs) : decode r.encode.tree = .ok r := by
  have htype : Reads Fields.read (member "type" (.string r.type)) {} _ := .field typeSlot "type" rfl rfl rfl
  have hids : diffIdsSlot.decode (listValue (fun d => .string d.toText) r.diffIds).tree = .ok r.diffIds :=
    list_tree fun d _ => digest_tree d
  have hreads := htype.append (.field diffIdsSlot "diff_ids" rfl rfl hids)
  rw [encode, Value.tree, decode, hreads]
  rfl

end RootFs

namespace ConfigFile

/-- The keys of a document that have a field. -/
def fieldNames : List String := ["architecture", "variant", "os", "created", "author", "config", "rootfs",
  "history"]

/-! ### Fields -/

def architectureSlot : Slot Fields where
  decode := Tree.text
  get := Fields.architecture
  put s o := { s with architecture := o }

def variantSlot : Slot Fields where
  decode := Tree.text
  get := Fields.variant
  put s o := { s with variant := o }

def osSlot : Slot Fields where
  decode := Tree.text
  get := Fields.os
  put s o := { s with os := o }

def createdSlot : Slot Fields where
  decode := decodeTimestamp
  get := Fields.created
  put s o := { s with created := o }

def authorSlot : Slot Fields where
  decode := Tree.text
  get := Fields.author
  put s o := { s with author := o }

def configSlot : Slot Fields where
  decode := ContainerConfig.decode 1
  get := Fields.config
  put s o := { s with config := o }

def rootfsSlot : Slot Fields where
  decode := RootFs.decode
  get := Fields.rootfs
  put s o := { s with rootfs := o }

def historySlot : Slot Fields where
  decode := Tree.list (History.decode 2)
  get := Fields.history
  put s o := { s with history := o }

/-- The fields under their keys. -/
def slots : List (String × Slot Fields) :=
  [("architecture", architectureSlot), ("variant", variantSlot), ("os", osSlot), ("created", createdSlot),
    ("author", authorSlot), ("config", configSlot), ("rootfs", rootfsSlot), ("history", historySlot)]

def reader : RecordReader Fields.read {} fieldNames 1 where
  slots := slots
  kept := Fields.extra
  keep s key v := { s with extra := s.extra.insert key v }
  keys_slots := rfl
  apart := by
    simp only [slots, List.pairwise_cons, List.mem_cons, forall_eq_or_imp, List.not_mem_nil, false_implies,
      implies_true, and_true, List.Pairwise.nil]
    and_intros
    all_goals exact fun _ _ => rfl
  field p hp := by
    simp only [slots, List.mem_cons, List.not_mem_nil, or_false] at hp
    rcases hp with rfl | rfl | rfl | rfl | rfl | rfl | rfl | rfl
    all_goals exact ⟨fun _ _ => rfl, rfl, fun _ _ => rfl, fun _ _ _ => rfl⟩
  other key hkey s t := by
    simp only [fieldNames, List.mem_cons, List.not_mem_nil, or_false, not_or] at hkey
    obtain ⟨h1, h2, h3, h4, h5, h6, h7, h8⟩ := hkey
    rw [Fields.read, if_neg h1, if_neg h2, if_neg h3, if_neg h4, if_neg h5, if_neg h6, if_neg h7, if_neg h8]
  kept_initial := rfl
  kept_keep _ _ _ := rfl

/-! ### Written documents -/

/-- The members of the fields. -/
def namedMembers (c : ConfigFile) : Members :=
  member "architecture" (.string c.architecture)
    ++ textMember "variant" c.variant
    ++ member "os" (.string c.os)
    ++ optionalMember "created" encodeTimestamp c.created
    ++ textMember "author" c.author
    ++ member "config" c.config.encode
    ++ member "rootfs" c.rootfs.encode
    ++ listMember "history" History.encode c.history

theorem encode_eq (c : ConfigFile) : c.encode = .object (c.namedMembers ++ c.extra.entries) := rfl

/-- Whatever is read of a written document, its root file system is the one that was written. -/
theorem rootfs_of_ofBytes_toBytes {c c' : ConfigFile} (h : ofBytes c.toBytes = .ok c') :
    c'.rootfs = c.rootfs := by
  rw [ofBytes, toBytes, decodeBytes_toBytes, encode_eq, Value.tree, decode, bind_closedOr_eq_ok] at h
  obtain ⟨s, hs, -, rfl⟩ := h
  have hslot : ("rootfs", rootfsSlot) ∈ reader.slots := by simp [reader, slots]
  have hmember : (some "rootfs", c.rootfs.encode.tree) ∈ memberTrees (c.namedMembers ++ c.extra.entries) := by
    simp [memberTrees_eq, namedMembers, member]
  obtain ⟨r, hr, hs⟩ := reader.exists_get_of_mem hslot hs hmember
  obtain rfl : c.rootfs = r := Except.ok.inj (c.rootfs.decode_tree.symm.trans hr)
  have hrootfs : s.rootfs = some c.rootfs := hs
  rw [Fields.complete, hrootfs]
  rfl

/-! ### What was read -/

/-- A document that was read is what its members filled the slots with. -/
theorem exists_members_of_ofBytes {text : ByteArray} {c : ConfigFile} (h : ofBytes text = .ok c) :
    ∃ ms s, Tree.members Fields.read {} ms = .ok s ∧ s.complete = c := by
  obtain ⟨c', hc, -, rfl⟩ := bind_closedOr_eq_ok.1 h
  cases ht : (Document.ofBytes text).root with
  | object ms closed =>
    rw [ht, decode, bind_closedOr_eq_ok] at hc
    obtain ⟨s, hs, -, rfl⟩ := hc
    exact ⟨ms, s, hs, rfl⟩
  | _ =>
    simp only [ht, decode] at hc
    exact absurd hc (mismatch_ne_ok _ _ _)

/-- Whatever all records have that were read, the records of a document have that was read. -/
theorem forall_history_of_members {P : History → Prop} (hP : ∀ t h, History.decode 2 t = .ok h → P h)
    {ms : List (Option String × Tree)} {s : Fields} (hs : Tree.members Fields.read {} ms = .ok s) :
    ∀ h ∈ s.complete.history, P h := by
  have hslot : ("history", historySlot) ∈ reader.slots := by simp [reader, slots]
  rw [Fields.complete]
  cases hh : s.history with
  | none => simp
  | some records =>
    obtain ⟨t, ht⟩ := reader.exists_decode_of_get hslot hs hh
    intro h hmem
    obtain ⟨u, hu⟩ := exists_tree_of_list ht h hmem
    exact hP u h hu

/-- Whether a document keeps only what can be kept, in all its records. -/
structure IsKept (c : ConfigFile) : Prop where
  extra : KeptMembers fieldNames 1 c.extra
  config : c.config.IsKept 1
  history : ∀ h ∈ c.history, h.IsKept 2

/-- A document that was read keeps only what can be kept. -/
theorem isKept_of_ofBytes {text : ByteArray} {c : ConfigFile} (h : ofBytes text = .ok c) : c.IsKept := by
  obtain ⟨ms, s, hs, rfl⟩ := exists_members_of_ofBytes h
  have hslot : ("config", configSlot) ∈ reader.slots := by simp [reader, slots]
  refine ⟨reader.keptMembers_of_members hs, ?_, forall_history_of_members (fun _ _ => History.isKept_of_decode) hs⟩
  rw [Fields.complete]
  cases hc : s.config with
  | none => exact KeptMembers.empty _ _
  | some c =>
    obtain ⟨t, ht⟩ := reader.exists_decode_of_get hslot hs hc
    exact ContainerConfig.isKept_of_decode ht

/-! ### What is read again -/

/-- Whether all timestamps of a document stand in years that can be read. -/
structure HasPlainYears (c : ConfigFile) : Prop where
  created : ∀ t ∈ c.created, t.HasPlainYear
  history : ∀ h ∈ c.history, ∀ t ∈ h.created, t.HasPlainYear

theorem keys_namedMembers (c : ConfigFile) : (c.namedMembers.map Prod.fst).Sublist fieldNames := by
  simp only [namedMembers, List.map_append]
  exact (((((((keys_member _ _).append (keys_memberUnless _ _ _)).append (keys_member _ _)).append
    (keys_optionalMember _ _ _)).append (keys_memberUnless _ _ _)).append (keys_member _ _)).append
    (keys_member _ _)).append (keys_memberUnless _ _ _)

/-- The timestamps are the only fields that may not be read back. -/
theorem reads_namedMembers_iff {c : ConfigFile} (hk : c.IsKept) :
    (∀ m ∈ c.namedMembers, ∃ s', Fields.read {} m.1 m.2.tree = .ok s') ↔ c.HasPlainYears := by
  have hcreated : ∀ t : Instant, (∃ s', Fields.read {} "created" (encodeTimestamp t).tree = .ok s') ↔
      t.HasPlainYear := by
    intro t
    rw [← exists_decodeTimestamp_iff]
    exact ⟨fun ⟨_, h⟩ => let ⟨_, ho, _⟩ := bind_pure_eq_ok.1 h; let ⟨_, a, ha, _⟩ := once_eq_ok.1 ho; ⟨a, ha⟩,
      fun ⟨a, ha⟩ => ⟨_, bind_pure_eq_ok.2 ⟨_, once_eq_ok.2 ⟨rfl, a, ha, rfl⟩, rfl⟩⟩⟩
  have hhistory : (∃ s', Fields.read {} "history" (listValue History.encode c.history).tree = .ok s') ↔
      ∀ h ∈ c.history, ∀ t ∈ h.created, t.HasPlainYear := by
    have hlist := @exists_list_iff History History (History.decode 2) History.encode c.history
    have hrecords : (∀ h ∈ c.history, ∃ h', History.decode 2 h.encode.tree = .ok h') ↔
        ∀ h ∈ c.history, ∀ t ∈ h.created, t.HasPlainYear :=
      forall₂_congr fun h hh => History.exists_decode_iff (hk.history h hh)
    rw [← hrecords, ← hlist]
    exact ⟨fun ⟨_, h⟩ => let ⟨_, ho, _⟩ := bind_pure_eq_ok.1 h; let ⟨_, a, ha, _⟩ := once_eq_ok.1 ho; ⟨a, ha⟩,
      fun ⟨a, ha⟩ => ⟨_, bind_pure_eq_ok.2 ⟨_, once_eq_ok.2 ⟨rfl, a, ha, rfl⟩, rfl⟩⟩⟩
  have hconfig : ∃ s', Fields.read {} "config" c.config.encode.tree = .ok s' := by
    obtain ⟨config, h⟩ := ContainerConfig.exists_decode hk.config
    exact ⟨_, bind_pure_eq_ok.2 ⟨_, once_eq_ok.2 ⟨rfl, config, h, rfl⟩, rfl⟩⟩
  have hrootfs : ∃ s', Fields.read {} "rootfs" c.rootfs.encode.tree = .ok s' :=
    ⟨_, bind_pure_eq_ok.2 ⟨_, once_eq_ok.2 ⟨rfl, _, c.rootfs.decode_tree, rfl⟩, rfl⟩⟩
  simp only [namedMembers, List.forall_mem_append, forall_mem_member, forall_mem_optionalMember, textMember,
    listMember, forall_mem_memberUnless, hcreated, hhistory]
  constructor
  · rintro ⟨⟨⟨⟨⟨⟨⟨-, -⟩, -⟩, h1⟩, -⟩, -⟩, -⟩, h2⟩
    refine ⟨h1, fun h hh => h2 ?_ h hh⟩
    rw [List.isEmpty_eq_false_iff]
    exact List.ne_nil_of_mem hh
  · rintro ⟨h1, h2⟩
    exact ⟨⟨⟨⟨⟨⟨⟨⟨_, rfl⟩, fun _ => ⟨_, rfl⟩⟩, ⟨_, rfl⟩⟩, h1⟩, fun _ => ⟨_, rfl⟩⟩, hconfig⟩, hrootfs⟩,
      fun _ => h2⟩

/-- A document that was read is read again where it is written just if its timestamps can be. -/
theorem exists_ofBytes_toBytes_iff {c : ConfigFile} (hk : c.IsKept) :
    (∃ c', ofBytes c.toBytes = .ok c') ↔ c.HasPlainYears := by
  have hmembers := reader.exists_members_append_iff (by decide) c.keys_namedMembers hk.extra
  rw [← reads_namedMembers_iff hk, ← hmembers, ofBytes, toBytes, decodeBytes_toBytes, encode_eq, Value.tree,
    decode]
  simp only [bind_closedOr_eq_ok]
  exact ⟨fun ⟨_, s, hs, _⟩ => ⟨s, hs⟩, fun ⟨s, hs⟩ => ⟨_, s, hs, trivial, rfl⟩⟩

/-- The document of the empty image is read back. -/
theorem ofBytes_toBytes_default : ofBytes (toBytes {}) = .ok {} := by
  rw [ofBytes, toBytes, decodeBytes_toBytes]
  rfl

end ConfigFile

end ImageAssembly
