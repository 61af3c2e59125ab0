import ImageAssembly.Proofs.Json.Structure

/-! Values that are kept as they are. What was kept once, with numbers in range and not too deep, is kept
again where it is written at the same depth. -/

namespace ImageAssembly.Json

mutual

/-- Whether a value can have been kept inside `depth` open containers. -/
def Value.Fits (depth : Nat) : Value → Prop
  | .null | .bool _ | .string _ => True
  | .number n => n.IsReadable
  | .array items => depth < maxDepth ∧ itemsFit (depth + 1) items
  | .object members =>
    depth < maxDepth ∧ (members.Pairwise fun a b => a.1 < b.1) ∧ membersFit (depth + 1) members

def itemsFit (depth : Nat) : List Value → Prop
  | [] => True
  | v :: r => v.Fits depth ∧ itemsFit depth r

def membersFit (depth : Nat) : List (String × Value) → Prop
  | [] => True
  | (_, v) :: r => v.Fits depth ∧ membersFit depth r

end

theorem membersFit_iff {depth : Nat} {ms : List (String × Value)} :
    membersFit depth ms ↔ ∀ m ∈ ms, m.2.Fits depth := by
  induction ms with
  | nil => simp [membersFit]
  | cons m r ih => simp [membersFit, ih]

/-- The values of a map of kept members. -/
def dictionaryFits (depth : Nat) (d : Dictionary Value) : Prop := membersFit depth d.entries

theorem dictionaryFits_empty (depth : Nat) : dictionaryFits depth .empty := trivial

theorem dictionaryFits_insert {depth : Nat} {d : Dictionary Value} {k : String} {v : Value}
    (hd : dictionaryFits depth d) (hv : v.Fits depth) : dictionaryFits depth (d.insert k v) := by
  rw [dictionaryFits, membersFit_iff] at hd ⊢
  intro m hm
  rcases Dictionary.mem_place hm with rfl | hm
  · exact hv
  · exact hd m hm

/-! ### Containers that are kept -/

theorem keep_array_eq_ok {ts : List Tree} {closed : Bool} {depth : Nat} {v : Value} :
    (Tree.array ts closed).keep depth = .ok v ↔
      depth < maxDepth ∧ closed = true ∧ ∃ vs, keepItems (depth + 1) ts = .ok vs ∧ .array vs = v := by
  rw [Tree.keep]
  by_cases hd : maxDepth ≤ depth
  · rw [if_pos hd]
    exact ⟨nofun, fun h => absurd h.1 (Nat.not_lt.2 hd)⟩
  rw [if_neg hd, and_iff_right (Nat.lt_of_not_le hd)]
  cases keepItems (depth + 1) ts <;> cases closed <;> simp

theorem keep_object_eq_ok {ms : List (Option String × Tree)} {closed : Bool} {depth : Nat} {v : Value} :
    (Tree.object ms closed).keep depth = .ok v ↔ depth < maxDepth ∧ closed = true ∧
      ∃ d, keepMembers (depth + 1) .empty ms = .ok d ∧ .object d.entries = v := by
  rw [Tree.keep]
  by_cases hd : maxDepth ≤ depth
  · rw [if_pos hd]
    exact ⟨nofun, fun h => absurd h.1 (Nat.not_lt.2 hd)⟩
  rw [if_neg hd, and_iff_right (Nat.lt_of_not_le hd)]
  cases keepMembers (depth + 1) .empty ms <;> cases closed <;> simp

theorem keepItems_cons_eq_ok {t : Tree} {r : List Tree} {depth : Nat} {vs : List Value} :
    keepItems depth (t :: r) = .ok vs ↔ ∃ v ws, t.keep depth = .ok v ∧ keepItems depth r = .ok ws ∧ v :: ws = vs := by
  rw [keepItems]
  cases t.keep depth <;> cases keepItems depth r <;> simp

theorem keepMembers_cons_eq_ok {k : String} {t : Tree} {r : List (Option String × Tree)} {depth : Nat}
    {d d' : Dictionary Value} : keepMembers depth d ((some k, t) :: r) = .ok d' ↔
      ∃ v, t.keep depth = .ok v ∧ keepMembers depth (d.insert k v) r = .ok d' := by
  rw [keepMembers]
  cases t.keep depth <;> simp

/-! ### What is kept fits -/

mutual

theorem fits_of_keep : ∀ (t : Tree) {depth : Nat} {v : Value}, t.keep depth = .ok v → v.Fits depth
  | .null, depth, v, h => by
    rw [Tree.keep, Except.ok.injEq] at h
    subst h
    trivial
  | .bool b, depth, v, h => by
    rw [Tree.keep, Except.ok.injEq] at h
    subst h
    trivial
  | .number n, depth, v, h => by
    rw [Tree.keep] at h
    split at h
    · next x hx =>
      rw [Except.ok.injEq] at h
      subst h
      exact isReadable_of_value? hx
    · simp at h
  | .string (some s), depth, v, h => by
    rw [Tree.keep, Except.ok.injEq] at h
    subst h
    trivial
  | .string none, depth, v, h => by simp [Tree.keep] at h
  | .array ts closed, depth, v, h => by
    obtain ⟨hd, -, vs, hvs, rfl⟩ := keep_array_eq_ok.1 h
    exact ⟨hd, itemsFit_of_keepItems ts hvs⟩
  | .object ms closed, depth, v, h => by
    obtain ⟨hd, -, d, hms, rfl⟩ := keep_object_eq_ok.1 h
    exact ⟨hd, d.sorted, fits_of_keepMembers ms (dictionaryFits_empty _) hms⟩
  | .broken, depth, v, h => by simp [Tree.keep] at h

theorem itemsFit_of_keepItems : ∀ (ts : List Tree) {depth : Nat} {vs : List Value},
    keepItems depth ts = .ok vs → itemsFit depth vs
  | [], depth, vs, h => by
    rw [keepItems, Except.ok.injEq] at h
    subst h
    trivial
  | t :: r, depth, vs, h => by
    obtain ⟨v, ws, hv, hws, rfl⟩ := keepItems_cons_eq_ok.1 h
    exact ⟨fits_of_keep t hv, itemsFit_of_keepItems r hws⟩

theorem fits_of_keepMembers : ∀ (ms : List (Option String × Tree)) {depth : Nat}
    {d d' : Dictionary Value}, dictionaryFits depth d → keepMembers depth d ms = .ok d' →
    dictionaryFits depth d'
  | [], depth, d, d', hd, h => by
    rw [keepMembers, Except.ok.injEq] at h
    exact h ▸ hd
  | (none, t) :: r, depth, d, d', hd, h => by simp [keepMembers] at h
  | (some k, t) :: r, depth, d, d', hd, h => by
    obtain ⟨v, hv, hr⟩ := keepMembers_cons_eq_ok.1 h
    exact fits_of_keepMembers r (dictionaryFits_insert hd (fits_of_keep t hv)) hr

end

/-! ### What fits is kept -/

mutual

/-- A written value that fits is kept; its doubles may come back as neighbours. -/
theorem exists_keep_tree : ∀ (v : Value) {depth : Nat}, v.Fits depth → ∃ v', v.tree.keep depth = .ok v'
  | .null, _, _ => ⟨.null, rfl⟩
  | .bool b, _, _ => ⟨.bool b, rfl⟩
  | .number n, _, h => by
    obtain ⟨x, hx⟩ := Option.isSome_iff_exists.1 (isSome_value?_numeral h)
    exact ⟨.number x, by rw [Value.tree, Tree.keep, hx]⟩
  | .string s, _, _ => ⟨.string s, rfl⟩
  | .array items, depth, h => by
    obtain ⟨hd, hi⟩ := h
    obtain ⟨vs, hvs⟩ := exists_keepItems_trees items hi
    exact ⟨.array vs, keep_array_eq_ok.2 ⟨hd, rfl, vs, hvs, rfl⟩⟩
  | .object members, depth, h => by
    obtain ⟨hd, -, hm⟩ := h
    obtain ⟨d, hd'⟩ := exists_keepMembers_trees members .empty hm
    exact ⟨.object d.entries, keep_object_eq_ok.2 ⟨hd, rfl, d, hd', rfl⟩⟩

theorem exists_keepItems_trees : ∀ (vs : List Value) {depth : Nat}, itemsFit depth vs →
    ∃ ws, keepItems depth (itemTrees vs) = .ok ws
  | [], _, _ => ⟨[], rfl⟩
  | v :: r, depth, h => by
    obtain ⟨hv, hr⟩ := h
    obtain ⟨v', hv'⟩ := exists_keep_tree v hv
    obtain ⟨ws, hws⟩ := exists_keepItems_trees r hr
    exact ⟨v' :: ws, keepItems_cons_eq_ok.2 ⟨v', ws, hv', hws, rfl⟩⟩

theorem exists_keepMembers_trees : ∀ (ms : List (String × Value)) (d : Dictionary Value) {depth : Nat},
    membersFit depth ms → ∃ d', keepMembers depth d (memberTrees ms) = .ok d'
  | [], d, _, _ => ⟨d, rfl⟩
  | (k, v) :: r, d, depth, h => by
    obtain ⟨hv, hr⟩ := h
    obtain ⟨v', hv'⟩ := exists_keep_tree v hv
    obtain ⟨d', hd'⟩ := exists_keepMembers_trees r (d.insert k v') hr
    exact ⟨d', keepMembers_cons_eq_ok.2 ⟨v', hv', hd'⟩⟩

end

/-! ### What is kept as it is -/

/-- Whether a number is an integer. -/
def Number.IsInteger : Number → Prop
  | .integer _ => True
  | .double _ => False

mutual

/-- Whether all numbers in a value are integers. -/
def Value.HasIntegers : Value → Prop
  | .null | .bool _ | .string _ => True
  | .number n => n.IsInteger
  | .array items => itemsHaveIntegers items
  | .object members => membersHaveIntegers members

def itemsHaveIntegers : List Value → Prop
  | [] => True
  | v :: r => v.HasIntegers ∧ itemsHaveIntegers r

def membersHaveIntegers : List (String × Value) → Prop
  | [] => True
  | (_, v) :: r => v.HasIntegers ∧ membersHaveIntegers r

end

theorem membersHaveIntegers_iff {ms : List (String × Value)} :
    membersHaveIntegers ms ↔ ∀ m ∈ ms, m.2.HasIntegers := by
  induction ms with
  | nil => simp [membersHaveIntegers]
  | cons m r ih => simp [membersHaveIntegers, ih]

theorem value?_numeral {n : Number} (h : n.IsReadable) (hi : n.IsInteger) : n.numeral.value? = some n := by
  cases n with
  | integer n => simp [Number.numeral, Numeral.value?, integer?_integerNumeral h]
  | double x => exact absurd hi id

mutual

/-- A written value that fits and has no doubles comes back as it is. -/
theorem keep_tree : ∀ (v : Value) {depth : Nat}, v.Fits depth → v.HasIntegers → v.tree.keep depth = .ok v
  | .null, _, _, _ => rfl
  | .bool b, _, _, _ => rfl
  | .number n, _, h, hi => by rw [Value.tree, Tree.keep, value?_numeral h hi]
  | .string s, _, _, _ => rfl
  | .array items, depth, h, hi => by
    obtain ⟨hd, hitems⟩ := h
    exact keep_array_eq_ok.2 ⟨hd, rfl, items, keepItems_trees items hitems hi, rfl⟩
  | .object members, depth, h, hi => by
    obtain ⟨hd, hsorted, hmembers⟩ := h
    refine keep_object_eq_ok.2 ⟨hd, rfl, _, keepMembers_trees members .empty hmembers hi, ?_⟩
    exact congrArg Value.object (Dictionary.entries_ofList hsorted)

theorem keepItems_trees : ∀ (vs : List Value) {depth : Nat}, itemsFit depth vs → itemsHaveIntegers vs →
    keepItems depth (itemTrees vs) = .ok vs
  | [], _, _, _ => rfl
  | v :: r, _, h, hi =>
    keepItems_cons_eq_ok.2 ⟨v, r, keep_tree v h.1 hi.1, keepItems_trees r h.2 hi.2, rfl⟩

theorem keepMembers_trees : ∀ (ms : List (String × Value)) (d : Dictionary Value) {depth : Nat},
    membersFit depth ms → membersHaveIntegers ms → keepMembers depth d (memberTrees ms) = .ok (d.insertAll ms)
  | [], _, _, _, _ => rfl
  | (k, v) :: r, d, _, h, hi =>
    keepMembers_cons_eq_ok.2 ⟨v, keep_tree v h.1 hi.1, keepMembers_trees r (d.insert k v) h.2 hi.2⟩

end

/-! ### Plain values -/

mutual

/-- Whether a value can have been read of a text without doubles, whatever its depth: integers in range for numbers,
and the members of objects in the order of their keys. -/
def Value.IsPlain : Value → Prop
  | .null | .bool _ | .string _ => True
  | .number n => n.IsInteger ∧ n.IsReadable
  | .array items => itemsArePlain items
  | .object members => (members.Pairwise fun a b => a.1 < b.1) ∧ membersArePlain members

def itemsArePlain : List Value → Prop
  | [] => True
  | v :: r => v.IsPlain ∧ itemsArePlain r

def membersArePlain : List (String × Value) → Prop
  | [] => True
  | (_, v) :: r => v.IsPlain ∧ membersArePlain r

end

theorem membersArePlain_iff {ms : List (String × Value)} : membersArePlain ms ↔ ∀ m ∈ ms, m.2.IsPlain := by
  induction ms with
  | nil => simp [membersArePlain]
  | cons m r ih => simp [membersArePlain, ih]

mutual

theorem Value.IsPlain.hasIntegers : ∀ {v : Value}, v.IsPlain → v.HasIntegers
  | .null, _ | .bool _, _ | .string _, _ => trivial
  | .number _, h => h.1
  | .array items, h => itemsHaveIntegers_of_plain items h
  | .object members, h => membersHaveIntegers_of_plain members h.2

theorem itemsHaveIntegers_of_plain : ∀ (vs : List Value), itemsArePlain vs → itemsHaveIntegers vs
  | [], _ => trivial
  | _ :: r, h => ⟨h.1.hasIntegers, itemsHaveIntegers_of_plain r h.2⟩

theorem membersHaveIntegers_of_plain : ∀ (ms : List (String × Value)), membersArePlain ms → membersHaveIntegers ms
  | [], _ => trivial
  | (_, _) :: r, h => ⟨h.1.hasIntegers, membersHaveIntegers_of_plain r h.2⟩

end

mutual

/-- A plain value that is kept somewhere is not too deep there. -/
theorem Value.IsPlain.fits : ∀ {v v' : Value} {depth : Nat}, v.IsPlain → v.tree.keep depth = .ok v' → v.Fits depth
  | .null, _, _, _, _ | .bool _, _, _, _, _ | .string _, _, _, _, _ => trivial
  | .number _, _, _, hv, _ => hv.2
  | .array items, _, depth, hv, h => by
    obtain ⟨hd, -, vs, hvs, -⟩ := keep_array_eq_ok.1 h
    exact ⟨hd, itemsFit_of_plain items hv hvs⟩
  | .object members, _, depth, hv, h => by
    obtain ⟨hd, -, d, hms, -⟩ := keep_object_eq_ok.1 h
    exact ⟨hd, hv.1, membersFit_of_plain members hv.2 hms⟩

theorem itemsFit_of_plain : ∀ (vs : List Value) {ws : List Value} {depth : Nat}, itemsArePlain vs →
    keepItems depth (itemTrees vs) = .ok ws → itemsFit depth vs
  | [], _, _, _, _ => trivial
  | v :: r, ws, depth, hv, h => by
    obtain ⟨v', vs, hhead, htail, -⟩ := keepItems_cons_eq_ok.1 h
    exact ⟨hv.1.fits hhead, itemsFit_of_plain r hv.2 htail⟩

theorem membersFit_of_plain : ∀ (ms : List (String × Value)) {d d' : Dictionary Value} {depth : Nat},
    membersArePlain ms → keepMembers depth d (memberTrees ms) = .ok d' → membersFit depth ms
  | [], _, _, _, _, _ => trivial
  | (k, v) :: r, d, d', depth, hv, h => by
    obtain ⟨v', hhead, htail⟩ := keepMembers_cons_eq_ok.1 h
    exact ⟨hv.1.fits hhead, membersFit_of_plain r hv.2 htail⟩

end

end ImageAssembly.Json
