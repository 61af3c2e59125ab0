/-! Finite maps from texts, held as entries in strictly increasing order of keys, so that equal maps
have equal entries and are written alike. The main statements say what `get?` finds after each
operation, and that `get?` determines the map. -/

namespace ImageAssembly

/-- A map from texts, its entries sorted by key. -/
structure Dictionary (α : Type) where
  entries : List (String × α)
  sorted : entries.Pairwise fun a b => a.1 < b.1

namespace Dictionary

variable {α β : Type}

@[ext] theorem ext_entries {a b : Dictionary α} (h : a.entries = b.entries) : a = b := by
  cases a; cases b; simp_all

instance [DecidableEq α] : DecidableEq (Dictionary α) := fun a b =>
  if h : a.entries = b.entries then isTrue (ext_entries h) else isFalse fun e => h (e ▸ rfl)

/-- The map without entries. -/
def empty : Dictionary α := ⟨[], .nil⟩

instance : EmptyCollection (Dictionary α) := ⟨empty⟩
instance : Inhabited (Dictionary α) := ⟨empty⟩

def isEmpty (d : Dictionary α) : Bool := d.entries.isEmpty

/-- The first value stored under `k` in a list of entries. -/
def lookup (k : String) : List (String × α) → Option α
  | [] => none
  | (k', v) :: r => if k = k' then some v else lookup k r

/-- Puts an entry at its place in sorted entries, in the stead of one with its key. -/
def place (k : String) (v : α) : List (String × α) → List (String × α)
  | [] => [(k, v)]
  | (k', v') :: r =>
    if k < k' then (k, v) :: (k', v') :: r
    else if k = k' then (k, v) :: r
    else (k', v') :: place k v r

theorem lt_of_not_lt {a b : String} (h : ¬a < b) (h' : ¬a = b) : b < a := by
  rcases String.le_total a b with h1 | h1
  · grind
  · grind

theorem mem_place {k : String} {v : α} {es : List (String × α)} {x : String × α}
    (h : x ∈ place k v es) : x = (k, v) ∨ x ∈ es := by
  induction es with
  | nil => simpa [place] using h
  | cons e r ih =>
    rw [place] at h
    split at h
    · simpa using h
    · split at h
      · simp only [List.mem_cons] at h ⊢
        grind
      · simp only [List.mem_cons] at h ⊢
        grind

theorem sorted_place {k : String} {v : α} {es : List (String × α)}
    (h : es.Pairwise fun a b => a.1 < b.1) : (place k v es).Pairwise fun a b => a.1 < b.1 := by
  induction es with
  | nil => simp [place]
  | cons e r ih =>
    obtain ⟨he, hr⟩ := List.pairwise_cons.1 h
    rw [place]
    split
    · next hk =>
      refine List.pairwise_cons.2 ⟨fun x hx => ?_, h⟩
      rcases List.mem_cons.1 hx with rfl | hx
      · exact hk
      · exact String.lt_trans hk (he x hx)
    · next hk =>
      split
      · next hk' =>
        refine List.pairwise_cons.2 ⟨fun x hx => ?_, hr⟩
        exact hk' ▸ he x hx
      · next hk' =>
        refine List.pairwise_cons.2 ⟨fun x hx => ?_, ih hr⟩
        rcases mem_place hx with rfl | hx
        · exact lt_of_not_lt hk hk'
        · exact he x hx

/-- The value stored under a key. -/
def get? (d : Dictionary α) (k : String) : Option α := lookup k d.entries

/-- Stores a value under a key. -/
def insert (d : Dictionary α) (k : String) (v : α) : Dictionary α :=
  ⟨place k v d.entries, sorted_place d.sorted⟩

/-- Stores entries in turn: of several with one key the last stays. -/
def insertAll (d : Dictionary α) (es : List (String × α)) : Dictionary α :=
  es.foldl (fun d e => d.insert e.1 e.2) d

def ofList (es : List (String × α)) : Dictionary α := empty.insertAll es

/-- The entries of `over` take the place of those of `d`. -/
def overlay (d upper : Dictionary α) : Dictionary α := d.insertAll upper.entries

def keys (d : Dictionary α) : List String := d.entries.map (·.1)

/-- Whether a key has a value. -/
def contains (d : Dictionary α) (k : String) : Bool := (d.get? k).isSome

/-- Stores a value under a key that has none. -/
def insertNew (d : Dictionary α) (k : String) (v : α) : Dictionary α :=
  if d.contains k then d else d.insert k v

theorem lookup_place (k : String) (v : α) (j : String) (es : List (String × α))
    (h : es.Pairwise fun a b => a.1 < b.1) :
    lookup j (place k v es) = if j = k then some v else lookup j es := by
  induction es with
  | nil => simp [place, lookup]
  | cons e r ih =>
    obtain ⟨k', v'⟩ := e
    obtain ⟨he, hr⟩ := List.pairwise_cons.1 h
    rw [place]
    split
    · rfl
    · next hk =>
      split
      · next hk' => subst hk'; simp only [lookup]; split <;> rfl
      · next hk' =>
        simp only [lookup, ih hr]
        grind

theorem get?_insert (d : Dictionary α) (k : String) (v : α) (j : String) :
    (d.insert k v).get? j = if j = k then some v else d.get? j :=
  lookup_place k v j d.entries d.sorted

theorem get?_empty (k : String) : (empty : Dictionary α).get? k = none := rfl

theorem get?_eq_some_iff (d : Dictionary α) (k : String) (v : α) :
    d.get? k = some v ↔ (k, v) ∈ d.entries := by
  obtain ⟨es, h⟩ := d
  simp only [get?]
  induction es with
  | nil => simp [lookup]
  | cons e r ih =>
    obtain ⟨k', v'⟩ := e
    obtain ⟨he, hr⟩ := List.pairwise_cons.1 h
    simp only [lookup, List.mem_cons, Prod.mk.injEq]
    split
    · next hk =>
      subst hk
      constructor
      · intro h; simp_all
      · rintro (⟨-, rfl⟩ | h)
        · rfl
        · exact absurd (he _ h) (String.lt_irrefl _)
    · next hk => simp [ih hr, hk]

/-- An entry behind all others is put at the end. -/
theorem place_of_forall_lt {k : String} {v : α} {es : List (String × α)} (h : ∀ e ∈ es, e.1 < k) :
    place k v es = es ++ [(k, v)] := by
  induction es with
  | nil => rfl
  | cons e r ih =>
    obtain ⟨k', v'⟩ := e
    have hlt : k' < k := h (k', v') (by simp)
    have hne : k ≠ k' := fun he => String.lt_irrefl k (he ▸ hlt)
    rw [place, if_neg fun hk => String.lt_irrefl k (String.lt_trans hk hlt), if_neg hne,
      ih fun e he => h e (by simp [he]), List.cons_append]

/-- Entries that stand in order behind those of a map are stored as they stand. -/
theorem entries_insertAll {d : Dictionary α} {es : List (String × α)}
    (h : (d.entries ++ es).Pairwise fun a b => a.1 < b.1) : (d.insertAll es).entries = d.entries ++ es := by
  induction es generalizing d with
  | nil => exact (List.append_nil _).symm
  | cons e r ih =>
    have hinsert : (d.insert e.1 e.2).entries = d.entries ++ [e] :=
      place_of_forall_lt fun a ha => (List.pairwise_append.1 h).2.2 a ha e (by simp)
    rw [List.append_cons, ← hinsert] at h
    rw [insertAll, List.foldl_cons, ← insertAll, ih h, hinsert, List.append_assoc, List.singleton_append]

/-- Sorted entries make up the map that has them. -/
theorem entries_ofList {es : List (String × α)} (h : es.Pairwise fun a b => a.1 < b.1) :
    (ofList es).entries = es :=
  entries_insertAll h

@[simp] theorem ofList_entries (d : Dictionary α) : ofList d.entries = d :=
  ext_entries (entries_ofList d.sorted)

@[simp] theorem overlay_empty (d : Dictionary α) : empty.overlay d = d := ofList_entries d

theorem mem_keys_iff {d : Dictionary α} {k : String} : k ∈ d.keys ↔ ∃ v, d.get? k = some v := by
  simp only [keys, List.mem_map, get?_eq_some_iff]
  exact ⟨fun ⟨e, he, hk⟩ => ⟨e.2, hk ▸ he⟩, fun ⟨v, hv⟩ => ⟨(k, v), hv, rfl⟩⟩

@[simp] theorem mem_keys_insert {d : Dictionary α} {k j : String} {v : α} :
    j ∈ (d.insert k v).keys ↔ j = k ∨ j ∈ d.keys := by
  rw [mem_keys_iff, mem_keys_iff, get?_insert]
  by_cases h : j = k <;> simp [h]

theorem mem_keys_insertAll {d : Dictionary α} {es : List (String × α)} {k : String} :
    k ∈ (d.insertAll es).keys ↔ k ∈ d.keys ∨ k ∈ es.map (·.1) := by
  induction es generalizing d with
  | nil => simp [insertAll]
  | cons e r ih =>
    rw [insertAll, List.foldl_cons, ← insertAll, ih, mem_keys_insert, List.map_cons, List.mem_cons]
    rw [or_comm (a := k = e.1), or_assoc]

end Dictionary

end ImageAssembly
