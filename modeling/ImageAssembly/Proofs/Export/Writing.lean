import ImageAssembly.Export.Tarball
import ImageAssembly.Proofs.Archive.Entries
import ImageAssembly.Proofs.Layer.Storage

/-! Writing archives. Whatever the buffer does, the bytes that have been written are those of the entries one
after another, and a layer whose file is another than the archive is written with its stored bytes. -/

namespace ImageAssembly.Export

open Workspace Archive

/-! ### The buffer -/

namespace Sink

@[simp] theorem bytes_write (s : Sink) (piece : ByteArray) : (s.write piece).bytes = s.bytes ++ piece := by
  rw [write]
  split_ifs <;> rfl

theorem bytes_copyFrom (s : Sink) (data : ByteArray) (i : Nat) :
    (s.copyFrom data i).bytes = s.bytes ++ data.extract i data.size := by
  fun_induction copyFrom s data i with
  | case1 s i hi ih => rw [ih, bytes_write, ByteArray.append_assoc, Bytes.extract_append_extract_size]
  | case2 s i hi => rw [Bytes.extract_size_of_le (Nat.le_of_not_lt hi), ByteArray.append_empty]

@[simp] theorem bytes_copy (s : Sink) (data : ByteArray) : (s.copy data).bytes = s.bytes ++ data := by
  rw [copy, bytes_copyFrom, ByteArray.extract_zero_size]

theorem bytes_foldl_write (pieces : List ByteArray) (s : Sink) :
    (pieces.foldl write s).bytes = s.bytes ++ pieces.foldl (· ++ ·) .empty := by
  have hfold : ∀ (ps : List ByteArray) (acc : ByteArray),
      ps.foldl (· ++ ·) acc = acc ++ ps.foldl (· ++ ·) .empty := by
    intro ps
    induction ps with
    | nil => simp
    | cons p ps ih =>
      intro acc
      rw [List.foldl_cons, List.foldl_cons, ih, ih (.empty ++ p), ByteArray.empty_append, ByteArray.append_assoc]
  induction pieces generalizing s with
  | nil => simp
  | cons p ps ih =>
    rw [List.foldl_cons, List.foldl_cons, ih, bytes_write, hfold ps (.empty ++ p), ByteArray.empty_append,
      ByteArray.append_assoc]

end Sink

/-! ### Steps of writing -/

namespace Writing

variable {α β : Type}

/-- Does a step of writing. -/
def perform (a : Writing α) (o : Output) : Except Fault α × Output := a.run.run o

@[simp] theorem perform_pure (x : α) (o : Output) : perform (pure x) o = (.ok x, o) := rfl

@[simp] theorem perform_get (o : Output) : perform get o = (.ok o, o) := rfl

@[simp] theorem perform_set (o' o : Output) : perform (set o') o = (.ok (), o') := rfl

theorem perform_bind (a : Writing α) (f : α → Writing β) (o : Output) :
    perform (a >>= f) o = match perform a o with
      | (.ok x, o') => perform (f x) o'
      | (.error e, o') => (.error e, o') := by
  rw [perform, run_bind_eq, perform]
  rcases a.run.run o with ⟨_ | x, o'⟩ <;> rfl

end Writing

/-- Asking a layer while an archive is being written. -/
theorem perform_askLayer {α : Type} (a : Action Layer.Fault α) (o : Output) :
    Writing.perform (askLayer a) o = ((a.perform o.current).1.mapError .layer,
      { o with workspace := (a.perform o.current).2 }) := by
  rw [askLayer, Writing.perform_bind, Writing.perform_get]
  dsimp only
  rcases a.perform o.current with ⟨_ | x, w'⟩ <;> rfl

/-- A file that is held apart from the archive is another. -/
theorem isOwnFile_of_holdsApart {o : Output} {l : FileLayer} {b : ByteArray}
    (h : o.workspace.files.HoldsApart o.place l.path b) : isOwnFile o (.file l) = false := by
  obtain ⟨p, hp, hne, -⟩ := h
  rw [isOwnFile, hp]
  exact beq_false_of_ne hne

/-- What a step of writing makes of an archive: bytes are appended, layers stay faithful, and what paths lead
to stays. -/
structure Step (layers : List Layer) (content : Layer → ByteArray) (bytes : ByteArray) (o o' : Output) : Prop where
  place : o'.place = o.place
  bytes : o'.sink.bytes = o.sink.bytes ++ bytes
  faithful : Faithful o'.workspace o'.place layers content
  paths : ∀ path p, o.workspace.files.resolve path = .ok p → o'.workspace.files.resolve path = .ok p

/-- Whether, while layers are faithful, a step of writing succeeds with some answer and appends some bytes. -/
def Writes {α : Type} (layers : List Layer) (content : Layer → ByteArray) (a : Writing α) (x : α)
    (bytes : ByteArray) : Prop :=
  ∀ o, Faithful o.workspace o.place layers content →
    ∃ o', a.perform o = (.ok x, o') ∧ Step layers content bytes o o'

namespace Writes

variable {α β : Type} {layers : List Layer} {content : Layer → ByteArray} {l : Layer}

theorem pure (x : α) : Writes layers content (Pure.pure x) x .empty :=
  fun o ho => ⟨o, rfl, rfl, by simp, ho, fun _ _ h => h⟩

theorem bind {a : Writing α} {f : α → Writing β} {x : α} {y : β} {bytes bytes' : ByteArray}
    (ha : Writes layers content a x bytes) (hf : Writes layers content (f x) y bytes') :
    Writes layers content (a >>= f) y (bytes ++ bytes') := by
  intro o ho
  obtain ⟨o1, h1, s1⟩ := ha o ho
  obtain ⟨o2, h2, s2⟩ := hf o1 s1.faithful
  refine ⟨o2, by rw [Writing.perform_bind, h1]; exact h2, s2.place.trans s1.place, ?_, s2.faithful,
    fun path p hp => s2.paths path p (s1.paths path p hp)⟩
  rw [s2.bytes, s1.bytes, ByteArray.append_assoc]

/-- The first part writes nothing. -/
theorem bind_empty {a : Writing α} {f : α → Writing β} {x : α} {y : β} {bytes : ByteArray}
    (ha : Writes layers content a x .empty) (hf : Writes layers content (f x) y bytes) :
    Writes layers content (a >>= f) y bytes := by
  have h := ha.bind hf
  rwa [ByteArray.empty_append] at h

/-- The second part writes nothing. -/
theorem bind_pure {a : Writing α} {x : α} {bytes : ByteArray} (ha : Writes layers content a x bytes) (f : α → β) :
    Writes layers content (do let x ← a; Pure.pure (f x)) (f x) bytes := by
  have h : Writes layers content (do let x ← a; Pure.pure (f x)) (f x) (bytes ++ .empty) := ha.bind (pure (f x))
  rwa [ByteArray.append_empty] at h

/-- Only the buffer changes. -/
theorem sink (f : Sink → Sink) {bytes : ByteArray} (hf : ∀ s : Sink, (f s).bytes = s.bytes ++ bytes) :
    Writes layers content (modify fun o => { o with sink := f o.sink } : Writing Unit) () bytes :=
  fun o ho => ⟨{ o with sink := f o.sink }, rfl, rfl, hf o.sink, ho, fun _ _ h => h⟩

theorem writePieces (pieces : List ByteArray) :
    Writes layers content (Export.writePieces pieces) () (pieces.foldl (· ++ ·) .empty) :=
  sink _ (Sink.bytes_foldl_write pieces)

theorem copyBody (body : ByteArray) :
    Writes layers content (Export.copyBody body) () (body ++ filling body.size) :=
  sink (fun s => (s.copy body).write (filling body.size)) fun s => by
    rw [Sink.bytes_write, Sink.bytes_copy, ByteArray.append_assoc]

/-- An entry is written as its record. -/
theorem entry (name : String) (body : ByteArray) :
    Writes layers content (writeEntry name body) () (record name body) := by
  rw [record, ByteArray.append_assoc]
  exact (writePieces (opening name body.size)).bind (copyBody body)

/-- Asking a layer changes nothing of the archive. -/
theorem ask {a : Action Layer.Fault α} {x : α} (hlearns : a.Leads (Learns layers))
    (ha : ∀ w place, Faithful w place layers content → (a.perform w).1 = .ok x) :
    Writes layers content (askLayer a) x .empty := by
  intro o ho
  have hcurrent : Faithful o.current o.place layers content := ho.put _
  have hw := hlearns o.current
  refine ⟨{ o with workspace := (a.perform o.current).2 }, ?_, rfl, by simp, hcurrent.learns hw, fun path p h => ?_⟩
  · rw [perform_askLayer, ha _ _ hcurrent]
    rfl
  · dsimp only
    rw [hw.files]
    exact Files.resolve_put ho.notDirectory h

theorem isOwnFile_eq_false {o : Output} (ho : Faithful o.workspace o.place layers content) (hl : l ∈ layers) :
    isOwnFile o l = false := by
  have hs := ho.stores l hl
  cases l with
  | memory l => rfl
  | file l => exact isOwnFile_of_holdsApart hs.1

/-- A layer is written as the record of its stored bytes. -/
theorem layer (own : OwnMemos layers) (name : String) (hl : l ∈ layers) :
    Writes layers content (writeLayer name l) () (record name (content l)) := by
  have hsize : Writes layers content (askLayer l.size) (content l).size .empty :=
    ask (Layer.asks_learns hl own).size fun w place h => (h.stores l hl).size
  have hcontents : Writes layers content (askLayer l.contents) (Feed.ofBytes (content l)) .empty :=
    ask (l.leads_contents _) fun w place h => by rw [(h.stores l hl).contents]
  rw [record, ByteArray.append_assoc]
  refine hsize.bind_empty (hcontents.bind_empty ((writePieces _).bind fun o ho => ?_))
  obtain ⟨o', hcopy, hstep⟩ := copyBody (content l) o ho
  refine ⟨o', ?_, hstep⟩
  rw [Writing.perform_bind, Writing.perform_get]
  dsimp only
  rw [isOwnFile_eq_false ho hl, Feed.fold_append_ofBytes]
  exact hcopy

end Writes

end ImageAssembly.Export
