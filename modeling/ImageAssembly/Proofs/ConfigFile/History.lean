import ImageAssembly.ConfigFile.History
import ImageAssembly.Proofs.Json.Records
import ImageAssembly.Proofs.Time.Rereading

/-! Records of an image's history through text and back. A record that was read is read again where it is
written, unless its timestamp has come to stand in a year that cannot be read. -/

namespace ImageAssembly

open Json Time

theorem toExactText_ne_empty (t : Instant) : t.toExactText ≠ "" := by
  intro h
  have := congrArg String.toList h
  simp [Instant.toExactText] at this

/-- A timestamp is read back as the instant that it names in the years that can be read. -/
theorem decodeTimestamp_tree (t : Instant) : decodeTimestamp (encodeTimestamp t).tree =
    if t.HasPlainYear then .ok (some t.settled) else .error .malformed := by
  have hread : Tree.optional Tree.text (encodeTimestamp t).tree = .ok (some t.toExactText) := rfl
  rw [decodeTimestamp, hread]
  simp only [bind, Except.bind, if_neg (toExactText_ne_empty t), Instant.ofText?_toExactText]
  by_cases h : t.HasPlainYear
  · simp [h, pure, Except.pure]
  · simp [h, throw, throwThe, MonadExceptOf.throw]

theorem exists_decodeTimestamp_iff (t : Instant) :
    (∃ o, decodeTimestamp (encodeTimestamp t).tree = .ok o) ↔ t.HasPlainYear := by
  rw [decodeTimestamp_tree]
  by_cases h : t.HasPlainYear <;> simp [h]

namespace History

/-- The keys of a record that have a field. -/
def fieldNames : List String := ["created", "created_by", "author", "comment", "empty_layer"]

/-! ### Fields -/

def createdSlot : Slot Fields where
  decode := decodeTimestamp
  get := Fields.created
  put s o := { s with created := o }

def createdBySlot : Slot Fields where
  decode := Tree.text
  get := Fields.createdBy
  put s o := { s with createdBy := o }

def authorSlot : Slot Fields where
  decode := Tree.text
  get := Fields.author
  put s o := { s with author := o }

def commentSlot : Slot Fields where
  decode := Tree.text
  get := Fields.comment
  put s o := { s with comment := o }

def emptyLayerSlot : Slot Fields where
  decode := Tree.boolean
  get := Fields.emptyLayer
  put s o := { s with emptyLayer := o }

/-- The fields under their keys. -/
def slots : List (String × Slot Fields) :=
  [("created", createdSlot), ("created_by", createdBySlot), ("author", authorSlot), ("comment", commentSlot),
    ("empty_layer", emptyLayerSlot)]

def reader (depth : Nat) : RecordReader (Fields.read depth) {} fieldNames depth where
  slots := slots
  kept := Fields.extra
  keep s key v := { s with extra := s.extra.insert key v }
  keys_slots := rfl
  apart := by
    simp only [slots, List.pairwise_cons, List.mem_cons, forall_eq_or_imp, List.not_mem_nil, false_implies,
      implies_true, and_true, List.Pairwise.nil]
    and_intros
    all_goals exact fun _ _ => rfl
  field p hp := by
    simp only [slots, List.mem_cons, List.not_mem_nil, or_false] at hp
    rcases hp with rfl | rfl | rfl | rfl | rfl
    all_goals exact ⟨fun _ _ => rfl, rfl, fun _ _ => rfl, fun _ _ _ => rfl⟩
  other key hkey s t := by
    simp only [fieldNames, List.mem_cons, List.not_mem_nil, or_false, not_or] at hkey
    obtain ⟨h1, h2, h3, h4, h5⟩ := hkey
    rw [Fields.read, if_neg h1, if_neg h2, if_neg h3, if_neg h4, if_neg h5]
  kept_initial := rfl
  kept_keep _ _ _ := rfl

/-- A record that was read inside `depth` open containers keeps what can be kept there. -/
def IsKept (depth : Nat) (h : History) : Prop := KeptMembers fieldNames (depth + 1) h.extra

/-- A record that was read is what its members filled the slots with. -/
theorem exists_members_of_decode {depth : Nat} {t : Tree} {h : History} (hd : decode depth t = .ok h) :
    ∃ ms s, Tree.members (Fields.read (depth + 1)) {} ms = .ok s ∧ s.complete = h := by
  cases t with
  | object ms closed =>
    rw [decode, bind_closedOr_eq_ok] at hd
    obtain ⟨s, hs, -, rfl⟩ := hd
    exact ⟨ms, s, hs, rfl⟩
  | _ =>
    simp only [decode] at hd
    exact absurd hd (mismatch_ne_ok _ _ _)

theorem isKept_of_decode {depth : Nat} {t : Tree} {h : History} (hd : decode depth t = .ok h) :
    h.IsKept depth := by
  obtain ⟨ms, s, hs, rfl⟩ := exists_members_of_decode hd
  exact (reader (depth + 1)).keptMembers_of_members hs

/-- The members of the fields. -/
def namedMembers (h : History) : Members :=
  optionalMember "created" encodeTimestamp h.created
    ++ textMember "created_by" h.createdBy
    ++ textMember "author" h.author
    ++ textMember "comment" h.comment
    ++ memberUnless (!h.emptyLayer) "empty_layer" (.bool true)

theorem encode_eq (h : History) : h.encode = .object (h.namedMembers ++ h.extra.entries) := rfl

theorem keys_namedMembers (h : History) : (h.namedMembers.map Prod.fst).Sublist fieldNames := by
  simp only [namedMembers, List.map_append]
  exact ((((keys_optionalMember _ _ _).append (keys_memberUnless _ _ _)).append
    (keys_memberUnless _ _ _)).append (keys_memberUnless _ _ _)).append (keys_memberUnless _ _ _)

/-- The timestamp is the one field that may not be read back. -/
theorem reads_namedMembers_iff (depth : Nat) (h : History) :
    (∀ m ∈ h.namedMembers, ∃ s', Fields.read depth {} m.1 m.2.tree = .ok s') ↔
      ∀ t ∈ h.created, t.HasPlainYear := by
  have hcreated : ∀ t : Instant, (∃ s', Fields.read depth {} "created" (encodeTimestamp t).tree =
      .ok s') ↔ t.HasPlainYear := by
    intro t
    rw [← exists_decodeTimestamp_iff, Fields.read, if_pos rfl]
    simp only [bind_pure_eq_ok, once_eq_ok]
    exact ⟨fun ⟨_, _, ⟨_, a, ha, _⟩, _⟩ => ⟨a, ha⟩, fun ⟨a, ha⟩ => ⟨_, _, ⟨trivial, a, ha, rfl⟩, rfl⟩⟩
  simp only [namedMembers, List.forall_mem_append, forall_mem_optionalMember, textMember,
    forall_mem_memberUnless, hcreated]
  refine ⟨fun h => h.1.1.1.1, fun h => ⟨⟨⟨⟨h, ?_⟩, ?_⟩, ?_⟩, ?_⟩⟩
  all_goals exact fun _ => ⟨_, rfl⟩

/-- A kept record is read again just if its timestamp can be. -/
theorem exists_decode_iff {depth : Nat} {h : History} (hk : h.IsKept depth) :
    (∃ h', decode depth h.encode.tree = .ok h') ↔ ∀ t ∈ h.created, t.HasPlainYear := by
  have hmembers := (reader (depth + 1)).exists_members_append_iff (by decide) h.keys_namedMembers hk
  rw [← reads_namedMembers_iff (depth + 1), ← hmembers, encode_eq, Value.tree, decode]
  simp only [bind_closedOr_eq_ok]
  exact ⟨fun ⟨_, s, hs, _⟩ => ⟨s, hs⟩, fun ⟨s, hs⟩ => ⟨_, s, hs, trivial, rfl⟩⟩

/-- Whether what a record keeps is plain, and under keys of its own. -/
structure IsPlain (h : History) : Prop where
  unnamed : ∀ k ∈ h.extra.keys, k ∉ fieldNames
  plain : membersArePlain h.extra.entries

/-- A plain record that is read where it is written keeps what can be kept there. -/
theorem IsPlain.isKept {depth : Nat} {h h' : History} (hplain : h.IsPlain) (hd : decode depth h.encode.tree = .ok h') :
    h.IsKept depth := by
  rw [encode_eq, Value.tree, decode, bind_closedOr_eq_ok] at hd
  obtain ⟨s, hs, -⟩ := hd
  exact (reader (depth + 1)).keptMembers_of_plain hplain.unnamed hplain.plain hs

end History

end ImageAssembly
