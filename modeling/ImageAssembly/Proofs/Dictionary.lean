import ImageAssembly.Dictionary
import Mathlib.Data.List.Basic

/-! Maps by what is found in them. Maps that agree on every key are equal, and of entries that are stored in turn
each key finds its last one, so that nothing else is left of the order in which they came. -/

namespace ImageAssembly.Dictionary

variable {α : Type} {d d' upper : Dictionary α}

theorem nodup_entries (d : Dictionary α) : d.entries.Nodup := by
  refine d.sorted.imp ?_
  rintro a _ h rfl
  exact String.lt_irrefl _ h

theorem ext_get? (h : ∀ k, d.get? k = d'.get? k) : d = d' := by
  have hmem : ∀ e, e ∈ d.entries ↔ e ∈ d'.entries := fun e => by
    rw [← get?_eq_some_iff, ← get?_eq_some_iff, h]
  have hperm := (List.perm_ext_iff_of_nodup d.nodup_entries d'.nodup_entries).2 hmem
  refine ext_entries (hperm.eq_of_pairwise (fun a b _ _ hab hba => ?_) d.sorted d'.sorted)
  exact absurd (String.lt_trans hab hba) (String.lt_irrefl _)

theorem lookup_append (k : String) (es fs : List (String × α)) :
    lookup k (es ++ fs) = (lookup k es).or (lookup k fs) := by
  induction es with
  | nil => rfl
  | cons e es ih =>
    obtain ⟨j, v⟩ := e
    rw [List.cons_append, lookup, lookup, ih]
    split_ifs <;> rfl

/-- The value that the last of some entries with a key gives it. -/
def last? (k : String) (es : List (String × α)) : Option α := lookup k es.reverse

theorem last?_cons (k : String) (e : String × α) (es : List (String × α)) :
    last? k (e :: es) = (last? k es).or (if k = e.1 then some e.2 else none) := by
  rw [last?, List.reverse_cons, lookup_append]
  rfl

theorem get?_insertAll (d : Dictionary α) (es : List (String × α)) (k : String) :
    (d.insertAll es).get? k = (last? k es).or (d.get? k) := by
  induction es generalizing d with
  | nil => rfl
  | cons e es ih =>
    rw [insertAll, List.foldl_cons, ← insertAll, ih, get?_insert, last?_cons, Option.or_assoc]
    split_ifs <;> rfl

theorem get?_ofList (es : List (String × α)) (k : String) : (ofList es).get? k = last? k es := by
  rw [ofList, get?_insertAll, get?_empty, Option.or_none]

/-- The entries of a map have different keys. -/
theorem last?_entries (d : Dictionary α) (k : String) : last? k d.entries = d.get? k := by
  rw [← get?_ofList, ofList_entries]

theorem get?_overlay (d upper : Dictionary α) (k : String) :
    (d.overlay upper).get? k = (upper.get? k).or (d.get? k) := by
  rw [overlay, get?_insertAll, last?_entries]

theorem overlay_assoc (a b c : Dictionary α) : (a.overlay b).overlay c = a.overlay (b.overlay c) :=
  ext_get? fun k => by simp only [get?_overlay, Option.or_assoc]

theorem overlay_overlay_self (d upper : Dictionary α) : (d.overlay upper).overlay upper = d.overlay upper :=
  ext_get? fun k => by
    rw [get?_overlay, get?_overlay, ← Option.or_assoc, Option.or_self]

theorem mem_keys_overlay {k : String} : k ∈ (d.overlay upper).keys ↔ k ∈ d.keys ∨ k ∈ upper.keys :=
  mem_keys_insertAll

end ImageAssembly.Dictionary
