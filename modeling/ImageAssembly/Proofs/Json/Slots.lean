import ImageAssembly.Proofs.Json.Records
import ImageAssembly.Proofs.Digest

/-! Records that come back as they were written. Every member fills a slot with what it was written from, and a
member that is left out leaves a slot whose default is what it was left out for. -/

namespace ImageAssembly.Json

variable {σ α : Type} {step : σ → String → Tree → Decoded σ}

/-! ### Scalars -/

/-- A written digest is read back. -/
theorem digest_tree (d : Digest) : Tree.digest (Value.string d.toText).tree = .ok d := by
  rw [Tree.digest, Value.tree, Tree.text]
  simp only [bind, Except.bind, Digest.parse_toText]
  rfl

/-- A written integer is read back within the bounds that it keeps. -/
theorem integer_tree {n low high : Int} (expected : String) (hn : (Number.integer n).IsReadable)
    (h : low ≤ n ∧ n ≤ high) : Tree.integer low high expected (Value.number (.integer n)).tree = .ok n := by
  rw [Value.tree, Tree.integer, value?_numeral hn trivial]
  exact if_pos h

theorem natural64_tree {n : Nat} (h : n < Text.Integer.bound 64) : Tree.natural64 (naturalValue n).tree = .ok n := by
  have hmax : maxNatural = Text.Integer.bound 64 - 1 := rfl
  have hread : (Number.integer n).IsReadable := by
    rw [Number.IsReadable]
    omega
  rw [Tree.natural64, naturalValue, integer_tree _ hread (by omega)]
  rfl

theorem natural32_tree {n : Nat} (h : n < Text.Integer.bound 32) : Tree.natural32 (naturalValue n).tree = .ok n := by
  have hmax : Text.Integer.bound 32 ≤ maxNatural := by decide
  have hread : (Number.integer n).IsReadable := by
    rw [Number.IsReadable]
    omega
  rw [Tree.natural32, naturalValue, integer_tree _ hread (by omega)]
  rfl

/-! ### Slots -/

/-- What a slot holds of a value that may be left out. -/
def valueUnless (omitted : Bool) (a : α) : Option α := if omitted then none else some a

/-- A value is left out only where it is the default. -/
theorem getD_valueUnless {omitted : Bool} {a d : α} (h : omitted = true → a = d) :
    (valueUnless omitted a).getD d = a := by
  cases omitted with
  | false => rfl
  | true => exact (h rfl).symm

@[simp] theorem getD_text (s : String) : (valueUnless (s == "") s).getD "" = s :=
  getD_valueUnless fun h => beq_iff_eq.1 h

@[simp] theorem getD_list (as : List α) : (valueUnless as.isEmpty as).getD [] = as :=
  getD_valueUnless fun h => List.isEmpty_iff.1 h

@[simp] theorem getD_dictionary (d : Dictionary α) : (valueUnless d.isEmpty d).getD .empty = d :=
  getD_valueUnless fun h => Dictionary.ext_entries (List.isEmpty_iff.1 h)

/-! ### Written members -/

/-- Whether reading written members leads a reader from one state to another. -/
def Reads (step : σ → String → Tree → Decoded σ) (ms : Members) (s s' : σ) : Prop :=
  Tree.members step s (memberTrees ms) = .ok s'

namespace Reads

variable {name : String} {v : Value} {s : σ}

theorem append_iff {a b : Members} {s' : σ} :
    Reads step (a ++ b) s s' ↔ ∃ s1, Reads step a s s1 ∧ Reads step b s1 s' := by
  rw [Reads, memberTrees_eq, List.map_append, ← memberTrees_eq, ← memberTrees_eq]
  exact Tree.members_append_eq_ok_iff

theorem append {a b : Members} {s1 s2 : σ} (ha : Reads step a s s1) (hb : Reads step b s1 s2) :
    Reads step (a ++ b) s s2 := append_iff.2 ⟨s1, ha, hb⟩

theorem member_iff {s' : σ} : Reads step (Json.member name v) s s' ↔ step s name v.tree = .ok s' := by
  rw [Reads, Json.member, memberTrees, Tree.members_cons_eq_ok_iff]
  constructor
  · rintro ⟨s1, hs, hend⟩
    obtain rfl := Except.ok.inj hend
    exact hs
  · exact fun h => ⟨s', h, rfl⟩

theorem member {s' : σ} (h : step s name v.tree = .ok s') : Reads step (member name v) s s' := member_iff.2 h

/-- A field that always stands. -/
theorem field (f : Slot σ) (name : String)
    (hstep : step s name v.tree = do return f.put s (← once name (f.get s) f.decode v.tree))
    (hempty : f.get s = none) {a : f.α} (h : f.decode v.tree = .ok a) :
    Reads step (Json.member name v) s (f.put s (some a)) := by
  refine member ?_
  rw [hstep, bind_pure_eq_ok]
  exact ⟨some a, once_eq_ok.2 ⟨hempty, a, h, rfl⟩, rfl⟩

/-- A field that may be left out. -/
theorem fieldUnless (f : Slot σ) (name : String)
    (hstep : step s name v.tree = do return f.put s (← once name (f.get s) f.decode v.tree))
    (hempty : f.get s = none) {a : f.α} (h : f.decode v.tree = .ok a) (omitted : Bool) :
    Reads step (memberUnless omitted name v) s (f.put s (valueUnless omitted a)) := by
  cases omitted with
  | false => exact field f name hstep hempty h
  | true => exact congrArg Except.ok (f.put_none s hempty).symm

/-- A field that stands where there is something to write. -/
theorem fieldOf {β : Type} (f : Slot σ) (name : String) {encode : β → Value} {o : Option β} {g : β → f.α}
    (hstep : ∀ b, step s name (encode b).tree = do return f.put s (← once name (f.get s) f.decode (encode b).tree))
    (hempty : f.get s = none) (h : ∀ b ∈ o, f.decode (encode b).tree = .ok (g b)) :
    Reads step (optionalMember name encode o) s (f.put s (o.map g)) := by
  cases o with
  | none => exact congrArg Except.ok (f.put_none s hempty).symm
  | some b => exact field f name (hstep b) hempty (h b rfl)

/-- Members that are stored one after another. -/
theorem stored {encode : α → Value} {es : List (String × α)} (put : Dictionary α → σ)
    (h : ∀ m ∈ es, ∀ d, step (put d) m.1 (encode m.2).tree = .ok (put (d.insert m.1 m.2))) (d : Dictionary α) :
    Reads step (es.map fun m => (m.1, encode m.2)) (put d) (put (d.insertAll es)) := by
  induction es generalizing d with
  | nil => rfl
  | cons m r ih =>
    rw [Reads, List.map_cons, memberTrees, Tree.members_cons_some, h m (by simp)]
    exact ih (fun m hm => h m (by simp [hm])) (d.insert m.1 m.2)

end Reads

/-- A map of values that are read back is read back. -/
theorem dictionary_tree {decode : Tree → Decoded α} {encode : α → Value} {d : Dictionary α}
    (h : ∀ m ∈ d.entries, decode (encode m.2).tree = .ok m.2) :
    Tree.dictionary decode (dictionaryValue encode d).tree = .ok d := by
  have hstored : Tree.members (fun (d : Dictionary α) k t => (decode t).map (d.insert k)) .empty
      (memberTrees (d.entries.map fun m => (m.1, encode m.2))) = .ok (.ofList d.entries) :=
    Reads.stored id (fun m hm d => by rw [h m hm]; rfl) .empty
  rw [dictionaryValue, Value.tree, Tree.dictionary, hstored, Dictionary.ofList_entries]
  rfl

/-- The members that a reader keeps come back as they were written if all their numbers are integers. -/
theorem RecordReader.reads_extra {initial : σ} {names : List String} {depth : Nat}
    (reader : RecordReader step initial names depth) {extra : Dictionary Value} (put : Dictionary Value → σ)
    (hput : ∀ d k v, reader.keep (put d) k v = put (d.insert k v)) (hextra : KeptMembers names depth extra)
    (hintegers : membersHaveIntegers extra.entries) : Reads step extra.entries (put .empty) (put extra) := by
  have hstep : ∀ m ∈ extra.entries, ∀ d, step (put d) m.1 (id m.2).tree = .ok (put (d.insert m.1 m.2)) := by
    intro m hm d
    have hname := hextra.not_named m.1 (List.mem_map_of_mem hm)
    have hkeep := keep_tree m.2 (membersFit_iff.1 hextra.fits m hm) (membersHaveIntegers_iff.1 hintegers m hm)
    exact (reader.step_other_iff hname).2 ⟨m.2, hkeep, (hput d m.1 m.2).symm⟩
  have h := Reads.stored put hstep .empty
  rw [← Dictionary.ofList, Dictionary.ofList_entries] at h
  simpa using h

end ImageAssembly.Json
