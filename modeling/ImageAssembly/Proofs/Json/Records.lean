import ImageAssembly.Json.Encode
import ImageAssembly.Proofs.Json.Keep
import ImageAssembly.Proofs.Outcome

/-! Records through text and back. A record is read member by member into slots that may each be filled
once; it is read when every member can be read by itself and no two share a slot. -/

namespace ImageAssembly.Json

namespace Tree

variable {σ : Type} {step : σ → String → Tree → Decoded σ}

theorem members_append (s : σ) (a b : List (Option String × Tree)) :
    members step s (a ++ b) = (members step s a).bind fun s => members step s b := by
  induction a generalizing s with
  | nil => rfl
  | cons m a ih =>
    obtain ⟨k | k, t⟩ := m
    · rfl
    · rw [List.cons_append, members, members]
      cases step s k t with
      | error fault => rfl
      | ok s' => exact ih s'

theorem members_cons_some (s : σ) (k : String) (t : Tree) (r : List (Option String × Tree)) :
    members step s ((some k, t) :: r) = (step s k t).bind fun s => members step s r := rfl

theorem members_append_eq_ok_iff {s s' : σ} {a b : List (Option String × Tree)} :
    members step s (a ++ b) = .ok s' ↔ ∃ s1, members step s a = .ok s1 ∧ members step s1 b = .ok s' := by
  rw [members_append]
  exact bind_eq_ok

theorem members_cons_eq_ok_iff {s s' : σ} {k : String} {t : Tree} {r : List (Option String × Tree)} :
    members step s ((some k, t) :: r) = .ok s' ↔ ∃ s1, step s k t = .ok s1 ∧ members step s1 r = .ok s' := by
  rw [members_cons_some]
  exact bind_eq_ok

/-- A property that the step of each member keeps is kept by all of them. -/
theorem members_induction {P : σ → Prop} {ms : List (Option String × Tree)}
    (hstep : ∀ s k t s', (some k, t) ∈ ms → P s → step s k t = .ok s' → P s') {s s' : σ} (hs : P s)
    (h : members step s ms = .ok s') : P s' := by
  induction ms generalizing s with
  | nil =>
    rw [members, Except.ok.injEq] at h
    exact h ▸ hs
  | cons m r ih =>
    obtain ⟨k | k, t⟩ := m
    · simp [members] at h
    · obtain ⟨s1, hk, hrest⟩ := members_cons_eq_ok_iff.1 h
      exact ih (fun s k t s' hm => hstep s k t s' (by simp [hm])) (hstep s k t s1 (by simp) hs hk) hrest

end Tree

/-! ### Slots -/

theorem once_eq_ok {α : Type} {name : String} {slot o : Option α} {decode : Tree → Decoded α} {t : Tree} :
    once name slot decode t = .ok o ↔ slot = none ∧ ∃ a, decode t = .ok a ∧ o = some a := by
  cases slot with
  | some a => simp [once]
  | none => cases h : decode t <;> simp [once, h, Except.map, eq_comm]

theorem bind_pure_eq_ok {α σ : Type} {x : Decoded α} {f : α → σ} {s : σ} :
    (do return f (← x)) = Except.ok s ↔ ∃ a, x = .ok a ∧ s = f a := by
  cases x <;> simp [bind, Except.bind, pure, Except.pure, eq_comm]

theorem bind_closedOr_eq_ok {σ α : Type} {x : Decoded σ} {f : σ → α} {closed : Bool} {a : α} :
    (x.bind fun s => Tree.closedOr closed (f s)) = .ok a ↔ ∃ s, x = .ok s ∧ closed = true ∧ f s = a := by
  cases x <;> cases closed <;> simp [Except.bind, Tree.closedOr]

theorem mismatch_ne_ok {α : Type} (t : Tree) (expected : String) (a : α) :
    t.mismatch expected ≠ .ok a := by
  cases t with
  | number n =>
    rw [Tree.mismatch]
    split <;> simp
  | string s => cases s <;> simp [Tree.mismatch]
  | _ => simp [Tree.mismatch]

/-- A field of a record that is being read: what it is read by, and where it is held. -/
structure Slot (σ : Type) where
  {α : Type}
  decode : Tree → Decoded α
  get : σ → Option α
  put : σ → Option α → σ
  get_put : ∀ s o, get (put s o) = o := by
    intros
    rfl
  put_none : ∀ s, get s = none → put s none = s := by
    intro s h
    cases s
    cases h
    rfl

namespace Slot

variable {σ : Type}

/-- Whether filling either of two slots leaves the other. -/
def Apart (f g : Slot σ) : Prop :=
  (∀ s o, g.get (f.put s o) = g.get s) ∧ ∀ s o, f.get (g.put s o) = f.get s

theorem Apart.symm {f g : Slot σ} (h : f.Apart g) : g.Apart f := ⟨h.2, h.1⟩

/-- Whether the members of a key are read into a slot that starts empty, apart from the members that are kept. -/
structure IsField (f : Slot σ) (step : σ → String → Tree → Decoded σ) (initial : σ) (kept : σ → Dictionary Value)
    (keep : σ → String → Value → σ) (key : String) : Prop where
  reads : ∀ s t, step s key t = do return f.put s (← once key (f.get s) f.decode t)
  get_initial : f.get initial = none
  kept_put : ∀ s o, kept (f.put s o) = kept s
  get_keep : ∀ s k v, f.get (keep s k v) = f.get s

end Slot

/-- The reader of a record with named fields that keeps all other members, inside `depth` open containers:
every member is read as a field, into a slot of its own, or kept. -/
structure RecordReader {σ : Type} (step : σ → String → Tree → Decoded σ) (initial : σ)
    (names : List String) (depth : Nat) where
  slots : List (String × Slot σ)
  kept : σ → Dictionary Value
  keep : σ → String → Value → σ
  keys_slots : slots.map Prod.fst = names
  apart : slots.Pairwise fun p q => p.2.Apart q.2
  field : ∀ p ∈ slots, p.2.IsField step initial kept keep p.1
  other : ∀ key ∉ names, ∀ s t, step s key t = do return keep s key (← t.keep depth)
  kept_initial : kept initial = .empty
  kept_keep : ∀ s key v, kept (keep s key v) = (kept s).insert key v

namespace RecordReader

variable {σ : Type} {step : σ → String → Tree → Decoded σ} {initial : σ} {names : List String} {depth : Nat}
variable (reader : RecordReader step initial names depth)
variable {s s' : σ} {key : String} {t : Tree} {f : Slot σ}

/-- Whether the slot of a key is empty. -/
def Free (s : σ) (key : String) : Prop := ∀ f, (key, f) ∈ reader.slots → f.get s = none

include reader

theorem slot_or_other (key : String) : (∃ f, (key, f) ∈ reader.slots) ∨ key ∉ names := by
  by_cases h : key ∈ names
  · rw [← reader.keys_slots] at h
    obtain ⟨⟨k, f⟩, hf, rfl⟩ := List.mem_map.1 h
    exact .inl ⟨f, hf⟩
  · exact .inr h

/-- A member with a slot is read where the slot is empty, and fills it. -/
theorem step_slot_iff (hf : (key, f) ∈ reader.slots) :
    step s key t = .ok s' ↔ f.get s = none ∧ ∃ a, f.decode t = .ok a ∧ s' = f.put s (some a) := by
  rw [(reader.field _ hf).reads, bind_pure_eq_ok]
  constructor
  · rintro ⟨o, ho, rfl⟩
    obtain ⟨hempty, a, ha, rfl⟩ := once_eq_ok.1 ho
    exact ⟨hempty, a, ha, rfl⟩
  · rintro ⟨hempty, a, ha, rfl⟩
    exact ⟨some a, once_eq_ok.2 ⟨hempty, a, ha, rfl⟩, rfl⟩

/-- Any other member is kept. -/
theorem step_other_iff (hkey : key ∉ names) :
    step s key t = .ok s' ↔ ∃ v, t.keep depth = .ok v ∧ s' = reader.keep s key v := by
  rw [reader.other key hkey, bind_pure_eq_ok]

/-- Another slot of the record is left by what fills a slot. -/
theorem get_put_of_ne {p q : String × Slot σ} (hp : p ∈ reader.slots) (hq : q ∈ reader.slots) (hne : p ≠ q) (s : σ)
    (o : Option p.2.α) : q.2.get (p.2.put s o) = q.2.get s := by
  have hsymm : Std.Symm fun p q : String × Slot σ => p.2.Apart q.2 := ⟨fun _ _ h => h.symm⟩
  have hapart : p.2.Apart q.2 := reader.apart.forall hp hq hne
  exact hapart.1 s o

theorem get_initial (hf : (key, f) ∈ reader.slots) : f.get initial = none := (reader.field _ hf).get_initial

theorem free_initial (key : String) : reader.Free initial key := fun _ hf => reader.get_initial hf

/-- Where a slot is free, a member can be read if it can be read at all, and fills no other slot. -/
theorem exists_step (hfree : reader.Free s key) (h : ∃ s', step initial key t = .ok s') :
    ∃ s', step s key t = .ok s' ∧ ∀ k, k ≠ key → reader.Free s k → reader.Free s' k := by
  obtain ⟨s', h⟩ := h
  rcases reader.slot_or_other key with ⟨f, hf⟩ | hname
  · obtain ⟨-, a, ha, -⟩ := (reader.step_slot_iff hf).1 h
    refine ⟨f.put s (some a), (reader.step_slot_iff hf).2 ⟨hfree f hf, a, ha, rfl⟩, ?_⟩
    intro k hk hkfree g hg
    have hne : (key, f) ≠ (k, g) := fun heq => hk (congrArg Prod.fst heq).symm
    exact (reader.get_put_of_ne hf hg hne s (some a)).trans (hkfree g hg)
  · obtain ⟨v, hv, -⟩ := (reader.step_other_iff hname).1 h
    refine ⟨reader.keep s key v, (reader.step_other_iff hname).2 ⟨v, hv, rfl⟩, ?_⟩
    intro k _ hkfree g hg
    exact ((reader.field _ hg).get_keep s key v).trans (hkfree g hg)

/-- A member that was read somewhere can be read at all. -/
theorem reads_of_step (h : step s key t = .ok s') : ∃ s', step initial key t = .ok s' := by
  rcases reader.slot_or_other key with ⟨f, hf⟩ | hname
  · obtain ⟨-, a, ha, -⟩ := (reader.step_slot_iff hf).1 h
    exact ⟨_, (reader.step_slot_iff hf).2 ⟨reader.get_initial hf, a, ha, rfl⟩⟩
  · obtain ⟨v, hv, -⟩ := (reader.step_other_iff hname).1 h
    exact ⟨_, (reader.step_other_iff hname).2 ⟨v, hv, rfl⟩⟩

theorem exists_members_of_free {s : σ} {ms : Members} (hnodup : (ms.map Prod.fst).Nodup)
    (hfree : ∀ m ∈ ms, reader.Free s m.1) (hreads : ∀ m ∈ ms, ∃ s', step initial m.1 m.2.tree = .ok s') :
    ∃ s', Tree.members step s (memberTrees ms) = .ok s' := by
  induction ms generalizing s with
  | nil => exact ⟨s, rfl⟩
  | cons m r ih =>
    obtain ⟨k, v⟩ := m
    obtain ⟨hk, hr⟩ := List.nodup_cons.1 hnodup
    obtain ⟨s1, h1, hkeep⟩ := reader.exists_step (hfree (k, v) (by simp)) (hreads (k, v) (by simp))
    have hfree1 : ∀ m ∈ r, reader.Free s1 m.1 := by
      intro m hm
      refine hkeep m.1 ?_ (hfree m (by simp [hm]))
      rintro heq
      exact hk (List.mem_map.2 ⟨m, hm, heq⟩)
    obtain ⟨s', hs'⟩ := ih hr hfree1 fun m hm => hreads m (by simp [hm])
    exact ⟨s', Tree.members_cons_eq_ok_iff.2 ⟨s1, h1, hs'⟩⟩

theorem reads_of_members {s s' : σ} {ms : Members} (h : Tree.members step s (memberTrees ms) = .ok s') :
    ∀ m ∈ ms, ∃ s', step initial m.1 m.2.tree = .ok s' := by
  induction ms generalizing s with
  | nil => simp
  | cons m r ih =>
    obtain ⟨k, v⟩ := m
    obtain ⟨s1, hk, hrest⟩ := Tree.members_cons_eq_ok_iff.1 h
    intro m hm
    rcases List.mem_cons.1 hm with rfl | hm
    · exact reader.reads_of_step hk
    · exact ih hrest m hm

/-- A record without repeated members is read just if each member can be read. -/
theorem exists_members_iff {ms : Members} (hnodup : (ms.map Prod.fst).Nodup) :
    (∃ s', Tree.members step initial (memberTrees ms) = .ok s') ↔
      ∀ m ∈ ms, ∃ s', step initial m.1 m.2.tree = .ok s' := by
  constructor
  · rintro ⟨s', h⟩
    exact reader.reads_of_members h
  · exact reader.exists_members_of_free hnodup fun m _ => reader.free_initial m.1

/-- What a slot holds stays. -/
theorem get_of_step {k : String} {a : f.α} (hf : (key, f) ∈ reader.slots) (ha : f.get s = some a)
    (h : step s k t = .ok s') : f.get s' = some a := by
  rcases reader.slot_or_other k with ⟨g, hg⟩ | hname
  · obtain ⟨hempty, b, -, rfl⟩ := (reader.step_slot_iff hg).1 h
    by_cases heq : (k, g) = (key, f)
    · cases heq
      simp [hempty] at ha
    · exact (reader.get_put_of_ne hg hf heq s (some b)).trans ha
  · obtain ⟨v, -, rfl⟩ := (reader.step_other_iff hname).1 h
    exact ((reader.field _ hf).get_keep s k v).trans ha

/-- The slot of a member holds what the member is read as. -/
theorem exists_get_of_mem {ms : List (Option String × Tree)} (hf : (key, f) ∈ reader.slots)
    (h : Tree.members step s ms = .ok s') (hm : (some key, t) ∈ ms) : ∃ a, f.decode t = .ok a ∧ f.get s' = some a := by
  obtain ⟨l, r, rfl⟩ := List.append_of_mem hm
  obtain ⟨s1, -, h1⟩ := Tree.members_append_eq_ok_iff.1 h
  obtain ⟨s2, hstep, h2⟩ := Tree.members_cons_eq_ok_iff.1 h1
  obtain ⟨-, a, ha, rfl⟩ := (reader.step_slot_iff hf).1 hstep
  refine ⟨a, ha, ?_⟩
  exact Tree.members_induction (fun _ _ _ _ _ hs => reader.get_of_step hf hs) (f.get_put s1 (some a)) h2

/-- What a slot holds in the end was read of a member. -/
theorem exists_decode_of_get {ms : List (Option String × Tree)} {a : f.α} (hf : (key, f) ∈ reader.slots)
    (h : Tree.members step initial ms = .ok s) (ha : f.get s = some a) : ∃ t, f.decode t = .ok a := by
  have hstep : ∀ s k t s', (some k, t) ∈ ms → (∀ a, f.get s = some a → ∃ t, f.decode t = .ok a) →
      step s k t = .ok s' → ∀ a, f.get s' = some a → ∃ t, f.decode t = .ok a := by
    intro s k t s' _ hs h a ha
    rcases reader.slot_or_other k with ⟨g, hg⟩ | hname
    · obtain ⟨-, b, hb, rfl⟩ := (reader.step_slot_iff hg).1 h
      by_cases heq : (k, g) = (key, f)
      · cases heq
        rw [f.get_put, Option.some.injEq] at ha
        exact ⟨t, ha ▸ hb⟩
      · exact hs a ((reader.get_put_of_ne hg hf heq s (some b)).symm.trans ha)
    · obtain ⟨v, -, rfl⟩ := (reader.step_other_iff hname).1 h
      exact hs a (((reader.field _ hf).get_keep s k v).symm.trans ha)
  refine Tree.members_induction hstep ?_ h a ha
  simp [reader.get_initial hf]

end RecordReader

/-! ### Members that an encoder gives -/

section Encoders

variable {α : Type} {P : String × Value → Prop}

theorem forall_mem_member {name : String} {v : Value} : (∀ m ∈ member name v, P m) ↔ P (name, v) := by
  simp [member]

theorem forall_mem_memberUnless {omitted : Bool} {name : String} {v : Value} :
    (∀ m ∈ memberUnless omitted name v, P m) ↔ (omitted = false → P (name, v)) := by
  cases omitted <;> simp [memberUnless]

theorem forall_mem_optionalMember {name : String} {encode : α → Value} {o : Option α} :
    (∀ m ∈ optionalMember name encode o, P m) ↔ ∀ a ∈ o, P (name, encode a) := by
  cases o <;> simp [optionalMember]

theorem keys_member (name : String) (v : Value) : ((member name v).map Prod.fst).Sublist [name] :=
  List.Sublist.refl _

theorem keys_memberUnless (omitted : Bool) (name : String) (v : Value) :
    ((memberUnless omitted name v).map Prod.fst).Sublist [name] := by
  cases omitted <;> simp [memberUnless]

theorem keys_optionalMember (name : String) (encode : α → Value) (o : Option α) :
    ((optionalMember name encode o).map Prod.fst).Sublist [name] := by
  cases o <;> simp [optionalMember]

end Encoders

/-- Named members and then kept ones: no key is repeated if the kept keys are none of the names. -/
theorem nodup_keys {names : List String} {ms : Members} {extra : Dictionary Value} (hnames : names.Nodup)
    (hms : (ms.map Prod.fst).Sublist names) (hextra : ∀ k ∈ extra.keys, k ∉ names) :
    ((ms ++ extra.entries).map Prod.fst).Nodup := by
  have hsorted : extra.keys.Pairwise (· < ·) := List.pairwise_map.2 extra.sorted
  have hkeys : extra.keys.Nodup := hsorted.imp fun {a b} (h : a < b) (he : a = b) =>
    String.lt_irrefl b (he ▸ h)
  rw [List.map_append]
  refine List.nodup_append.2 ⟨hnames.sublist hms, hkeys, ?_⟩
  rintro k hk j hj rfl
  exact hextra k hj (hms.subset hk)

/-! ### Lists and maps -/

theorem items_cons_eq_ok_iff {α : Type} {decode : Tree → Decoded α} {t : Tree} {r : List Tree} {as : List α} :
    Tree.items decode (t :: r) = .ok as ↔
      ∃ b, decode t = .ok b ∧ ∃ bs, Tree.items decode r = .ok bs ∧ as = b :: bs := by
  rw [Tree.items, bind_eq_ok]
  simp only [bind_pure_eq_ok]

theorem exists_items_iff {α : Type} {decode : Tree → Decoded α} {vs : List Value} :
    (∃ as, Tree.items decode (itemTrees vs) = .ok as) ↔ ∀ v ∈ vs, ∃ a, decode v.tree = .ok a := by
  induction vs with
  | nil => simp [itemTrees, Tree.items]
  | cons v r ih =>
    rw [List.forall_mem_cons, ← ih, itemTrees]
    simp only [items_cons_eq_ok_iff]
    constructor
    · rintro ⟨_, a, ha, as, has, -⟩
      exact ⟨⟨a, ha⟩, as, has⟩
    · rintro ⟨⟨a, ha⟩, as, has⟩
      exact ⟨a :: as, a, ha, as, has, rfl⟩

theorem exists_list_iff {α β : Type} {decode : Tree → Decoded β} {encode : α → Value} {as : List α} :
    (∃ bs, Tree.list decode (listValue encode as).tree = .ok bs) ↔
      ∀ a ∈ as, ∃ b, decode (encode a).tree = .ok b := by
  have h := @exists_items_iff β decode (as.map encode)
  rw [List.forall_mem_map] at h
  rw [← h, listValue, Value.tree, Tree.list]
  cases Tree.items decode (itemTrees (as.map encode)) <;> simp [Except.bind, Tree.closedOr]

theorem items_trees {α β : Type} {decode : Tree → Decoded β} {encode : α → Value} {g : α → β} {as : List α}
    (h : ∀ a ∈ as, decode (encode a).tree = .ok (g a)) :
    Tree.items decode (itemTrees (as.map encode)) = .ok (as.map g) := by
  induction as with
  | nil => rfl
  | cons a r ih =>
    rw [List.map_cons, itemTrees, Tree.items, h a (by simp), ih fun b hb => h b (by simp [hb])]
    rfl

/-- A list is read as what its items are read as. -/
theorem list_tree_map {α β : Type} {decode : Tree → Decoded β} {encode : α → Value} {g : α → β} {as : List α}
    (h : ∀ a ∈ as, decode (encode a).tree = .ok (g a)) :
    Tree.list decode (listValue encode as).tree = .ok (as.map g) := by
  rw [listValue, Value.tree, Tree.list, items_trees h]
  rfl

/-- A list of items that are read back is read back. -/
theorem list_tree {α : Type} {decode : Tree → Decoded α} {encode : α → Value} {as : List α}
    (h : ∀ a ∈ as, decode (encode a).tree = .ok a) :
    Tree.list decode (listValue encode as).tree = .ok as := by
  rw [list_tree_map (g := id) h, List.map_id]

theorem exists_tree_of_items {α : Type} {decode : Tree → Decoded α} {ts : List Tree} {as : List α}
    (h : Tree.items decode ts = .ok as) : ∀ a ∈ as, ∃ u, decode u = .ok a := by
  induction ts generalizing as with
  | nil =>
    obtain rfl := Except.ok.inj h
    simp
  | cons t r ih =>
    obtain ⟨b, hb, bs, hbs, rfl⟩ := items_cons_eq_ok_iff.1 h
    exact List.forall_mem_cons.2 ⟨⟨t, hb⟩, ih hbs⟩

/-- Every item of a list that was read was read of a tree. -/
theorem exists_tree_of_list {α : Type} {decode : Tree → Decoded α} {t : Tree} {as : List α}
    (h : Tree.list decode t = .ok as) : ∀ a ∈ as, ∃ u, decode u = .ok a := by
  cases t with
  | array ts closed =>
    have hlist : ((Tree.items decode ts).bind fun bs => Tree.closedOr closed (id bs)) = .ok as := h
    obtain ⟨bs, hbs, -, rfl⟩ := bind_closedOr_eq_ok.1 hlist
    exact exists_tree_of_items hbs
  | _ =>
    simp only [Tree.list] at h
    exact absurd h (mismatch_ne_ok _ _ _)

theorem exists_members_insert {α β : Type} {decode : Tree → Decoded β} {encode : α → Value} {es : List (String × α)}
    (acc : Dictionary β) (h : ∀ m ∈ es, ∃ b, decode (encode m.2).tree = .ok b) :
    ∃ d, Tree.members (fun (d : Dictionary β) k t => (decode t).map (d.insert k)) acc
      (memberTrees (es.map fun m => (m.1, encode m.2))) = .ok d := by
  induction es generalizing acc with
  | nil => exact ⟨acc, rfl⟩
  | cons e r ih =>
    obtain ⟨⟨b, hb⟩, hr⟩ := List.forall_mem_cons.1 h
    obtain ⟨d, hd⟩ := ih (acc.insert e.1 b) hr
    exact ⟨d, Tree.members_cons_eq_ok_iff.2 ⟨acc.insert e.1 b, congrArg (Except.map _) hb, hd⟩⟩

/-- A map of values that are read is read. -/
theorem exists_dictionary {α β : Type} {decode : Tree → Decoded β} {encode : α → Value} {d : Dictionary α}
    (h : ∀ m ∈ d.entries, ∃ b, decode (encode m.2).tree = .ok b) :
    ∃ d', Tree.dictionary decode (dictionaryValue encode d).tree = .ok d' := by
  obtain ⟨d', hd'⟩ := exists_members_insert .empty h
  exact ⟨d', congrArg (Except.bind · (Tree.closedOr true)) hd'⟩

/-! ### Kept members -/

/-- Members that a record keeps inside `depth` open containers: none of its own names, and kept values. -/
structure KeptMembers (names : List String) (depth : Nat) (d : Dictionary Value) : Prop where
  not_named : ∀ k ∈ d.keys, k ∉ names
  fits : dictionaryFits depth d

namespace KeptMembers

variable {names : List String} {depth : Nat} {d : Dictionary Value}

theorem empty (names : List String) (depth : Nat) : KeptMembers names depth .empty :=
  ⟨by simp [Dictionary.keys, Dictionary.empty], dictionaryFits_empty depth⟩

theorem insert {k : String} {t : Tree} {v : Value} (h : KeptMembers names depth d) (hk : k ∉ names)
    (hv : t.keep depth = .ok v) : KeptMembers names depth (d.insert k v) where
  not_named j hj := by
    obtain ⟨m, hm, rfl⟩ := List.mem_map.1 hj
    rcases Dictionary.mem_place hm with rfl | hm
    · exact hk
    · exact h.not_named m.1 (List.mem_map.2 ⟨m, hm, rfl⟩)
  fits := dictionaryFits_insert h.fits (fits_of_keep t hv)

/-- A kept member is kept again where it is written. -/
theorem exists_keep (h : KeptMembers names depth d) {m : String × Value} (hm : m ∈ d.entries) :
    m.1 ∉ names ∧ ∃ v, m.2.tree.keep depth = .ok v :=
  ⟨h.not_named m.1 (List.mem_map.2 ⟨m, hm, rfl⟩), exists_keep_tree m.2 (membersFit_iff.1 h.fits m hm)⟩

end KeptMembers

namespace RecordReader

variable {σ : Type} {step : σ → String → Tree → Decoded σ} {initial : σ} {names : List String} {depth : Nat}
variable (reader : RecordReader step initial names depth)

include reader

/-- What the reader has kept can be kept again. -/
theorem keptMembers_of_members {s : σ} {ms : List (Option String × Tree)}
    (h : Tree.members step initial ms = .ok s) : KeptMembers names depth (reader.kept s) := by
  have hstep : ∀ s key t s', (some key, t) ∈ ms → KeptMembers names depth (reader.kept s) → step s key t = .ok s' →
      KeptMembers names depth (reader.kept s') := by
    intro s key t s' _ hs h
    rcases reader.slot_or_other key with ⟨f, hf⟩ | hname
    · obtain ⟨-, a, -, rfl⟩ := (reader.step_slot_iff hf).1 h
      rw [(reader.field _ hf).kept_put]
      exact hs
    · obtain ⟨v, hv, rfl⟩ := (reader.step_other_iff hname).1 h
      rw [reader.kept_keep]
      exact hs.insert hname hv
  exact Tree.members_induction hstep (reader.kept_initial ▸ KeptMembers.empty names depth) h

/-- Plain values that a record keeps can be kept if the record is read. -/
theorem keptMembers_of_plain {ms : Members} {extra : Dictionary Value} {s s' : σ}
    (hextra : ∀ k ∈ extra.keys, k ∉ names) (hplain : membersArePlain extra.entries)
    (h : Tree.members step s (memberTrees (ms ++ extra.entries)) = .ok s') : KeptMembers names depth extra := by
  refine ⟨hextra, membersFit_iff.2 fun m hm => ?_⟩
  obtain ⟨s1, hread⟩ := reader.reads_of_members h m (List.mem_append_right ms hm)
  obtain ⟨v, hv, -⟩ := (reader.step_other_iff (hextra m.1 (List.mem_map_of_mem hm))).1 hread
  exact (membersArePlain_iff.1 hplain m hm).fits hv

/-- A record that keeps what can be kept is read again just if its named members can be read. -/
theorem exists_members_append_iff {ms : Members} {extra : Dictionary Value} (hnames : names.Nodup)
    (hms : (ms.map Prod.fst).Sublist names) (hextra : KeptMembers names depth extra) :
    (∃ s', Tree.members step initial (memberTrees (ms ++ extra.entries)) = .ok s') ↔
      ∀ m ∈ ms, ∃ s', step initial m.1 m.2.tree = .ok s' := by
  have hkept : ∀ m ∈ extra.entries, ∃ s', step initial m.1 m.2.tree = .ok s' := by
    intro m hm
    obtain ⟨hname, v, hv⟩ := hextra.exists_keep hm
    exact ⟨reader.keep initial m.1 v, (reader.step_other_iff hname).2 ⟨v, hv, rfl⟩⟩
  rw [reader.exists_members_iff (nodup_keys hnames hms hextra.not_named), List.forall_mem_append]
  exact and_iff_left hkept

end RecordReader

end ImageAssembly.Json
