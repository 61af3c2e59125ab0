import ImageAssembly.Archive.Reader
import ImageAssembly.Archive.Writer
import ImageAssembly.Proofs.Archive.Header

/-! Archives written entry by entry and read back. Behind whatever has been written, an entry is read as its
name, its header and its body, and the reader goes on with what follows it. -/

namespace ImageAssembly.Archive

/-! ### Written archives -/

/-- The bytes of an entry: its header, with its whole name in front where that is long, and its body filled
up to whole blocks. -/
def record (name : String) (body : ByteArray) : ByteArray :=
  (opening name body.size).foldl (· ++ ·) .empty ++ body ++ filling body.size

/-- The bytes of entries one after another. -/
def records (es : List (String × ByteArray)) : ByteArray :=
  es.foldr (fun e rest => record e.1 e.2 ++ rest) .empty

/-- The bytes of an archive. -/
def archive (es : List (String × ByteArray)) : ByteArray := records es ++ ending

@[simp] theorem records_nil : records [] = .empty := rfl

@[simp] theorem records_cons (e : String × ByteArray) (es : List (String × ByteArray)) :
    records (e :: es) = record e.1 e.2 ++ records es := rfl

@[simp] theorem records_append (es es' : List (String × ByteArray)) :
    records (es ++ es') = records es ++ records es' := by
  induction es with
  | nil => simp
  | cons e es ih => rw [List.cons_append, records_cons, records_cons, ih, ByteArray.append_assoc]

/-- What is read of an entry that was written. -/
def entryOf (e : String × ByteArray) : Entry :=
  ⟨e.1.toUTF8, fileHeader (e.1.toUTF8.extract 0 maxNameLength) e.2.size, e.2⟩

@[simp] theorem name_entryOf (name : String) (body : ByteArray) : (entryOf (name, body)).name = name.toUTF8 := rfl

@[simp] theorem body_entryOf (name : String) (body : ByteArray) : (entryOf (name, body)).body = body := rfl

/-- Whether an entry can be told from its bytes: its name holds no zeros, and the sizes are numbers of 64
bits. -/
structure Writable (e : String × ByteArray) : Prop where
  name : 0 ∉ e.1.toUTF8.toList
  nameSize : e.1.toUTF8.size + 1 < 2 ^ 64
  size : e.2.size < 2 ^ 64

/-! ### Blocks -/

@[simp] theorem size_zeros (n : Nat) : (zeros n).size = n := Array.size_replicate

theorem toList_zeros (n : Nat) : (zeros n).toList = List.replicate n 0 := by
  rw [Bytes.toList_eq, zeros, Array.toList_replicate]

theorem size_filling (n : Nat) : n + (filling n).size = blockBoundary n := by
  rw [filling, size_zeros, blockBoundary, blockSize]
  omega

/-- The block of a header is not empty: its checksum is written in digits. -/
theorem toBytes_ne_zeros (h : Header) : h.toBytes.data.all (· == 0) = false := by
  have hdigits : octalDigits (checksum h.front h.back) ≠ [] := by
    rw [octalDigits, ne_eq, List.map_eq_nil_iff]
    exact Nat.toDigits_ne_nil
  obtain ⟨b, r, hb⟩ := List.exists_cons_of_ne_nil hdigits
  have hdigit : b ∈ octalDigits (checksum h.front h.back) := by
    rw [hb]
    exact List.mem_cons_self
  have hmem : b ∈ h.toBytes.data := by
    rw [← Array.mem_toList_iff, ← Bytes.toList_eq, h.toList_toBytes, octalField_eq]
    simp [hdigit]
  rw [← Bool.not_eq_true, Array.all_eq_true']
  intro hall
  have hzero : b = 0 := by simpa using hall b hmem
  exact absurd (hzero ▸ (mem_octalDigits hdigit).1) (by decide)

/-- The header behind whatever has been written. -/
theorem headerAt_toBytes {h : Header} (hf : h.Fits) (written rest : ByteArray) :
    headerAt (written ++ (h.toBytes ++ rest)) written.size = .ok (some h) := by
  have hsize := Header.size_toBytes hf
  have hblock : (written ++ (h.toBytes ++ rest)).extract written.size (written.size + blockSize) = h.toBytes := by
    rw [← hsize]
    exact Bytes.extract_between _ _ _
  rw [headerAt, hblock]
  simp only [hsize, toBytes_ne_zeros, Header.ofBytes_toBytes hf]
  rfl

/-! ### Entries -/

/-- Whether the reader, behind whatever has been written, gives this result for the rest of an archive. -/
def Reads (rest : ByteArray) (name : Option ByteArray) (result : Except Fault (List Entry)) : Prop :=
  ∀ written : ByteArray, entriesFrom (written ++ rest) name written.size = result

theorem reads_ending (name : Option ByteArray) : Reads ending name (.ok []) := by
  intro written
  have hzeros : (zeros blockSize).data.all (· == 0) = true := by
    rw [zeros, Array.all_eq_true']
    simp
  have hending : ending = zeros blockSize ++ zeros blockSize := by
    refine Bytes.toList_inj ?_
    rw [Bytes.toList_append, ending, toList_zeros, toList_zeros, List.replicate_append_replicate]
    rfl
  have hblock : (written ++ ending).extract written.size (written.size + blockSize) = zeros blockSize := by
    have := Bytes.extract_between written (zeros blockSize) (zeros blockSize)
    rwa [size_zeros, ← hending] at this
  have hnone : headerAt (written ++ ending) written.size = .ok none := by
    rw [headerAt, hblock]
    simp only [size_zeros, hzeros]
    rfl
  rw [entriesFrom]
  split_ifs
  · rw [hnone]
  · rfl

section Member

variable {h : Header} {body rest : ByteArray} {name : Option ByteArray} {result : Except Fault (List Entry)}

theorem bodyAt_toBytes (hf : h.Fits) (hsize : h.size = body.size) (written : ByteArray) :
    bodyAt (written ++ (h.toBytes ++ (body ++ rest))) written.size h = body := by
  have hblock := Header.size_toBytes hf
  have := Bytes.extract_between (written ++ h.toBytes) body rest
  rwa [ByteArray.size_append, hblock, ByteArray.append_assoc, ← hsize] at this

/-- The reader behind a header goes on behind its body. -/
theorem nextHeader_eq (hf : h.Fits) (hsize : h.size = body.size) (written : ByteArray) :
    nextHeader written.size h = (written ++ (h.toBytes ++ (body ++ filling body.size))).size := by
  simp only [nextHeader, ByteArray.size_append, Header.size_toBytes hf, size_filling, hsize, Nat.add_assoc]

theorem lt_size_member (hf : h.Fits) (written : ByteArray) :
    written.size < (written ++ (h.toBytes ++ (body ++ (filling body.size ++ rest)))).size := by
  have hpos : 0 < blockSize := by decide
  simp only [ByteArray.size_append, Header.size_toBytes hf]
  omega

/-- An entry of a file. -/
theorem Reads.member (hr : Reads rest none result) (hf : h.Fits) (htype : h.type ≠ longNameType)
    (hsize : h.size = body.size) : Reads (h.toBytes ++ (body ++ (filling body.size ++ rest))) name
      (result.map (⟨name.getD h.name, h, body⟩ :: ·)) := by
  intro written
  have hnext := hr (written ++ (h.toBytes ++ (body ++ filling body.size)))
  simp only [ByteArray.append_assoc] at hnext
  rw [entriesFrom, dif_pos (lt_size_member hf written), headerAt_toBytes hf]
  simp only [bodyAt_toBytes hf hsize, if_neg htype, nextHeader_eq hf hsize, hnext]

/-- An entry that holds the name of the next one. -/
theorem Reads.named (hr : Reads rest (some (longNameOf body)) result) (hf : h.Fits) (htype : h.type = longNameType)
    (hsize : h.size = body.size) : Reads (h.toBytes ++ (body ++ (filling body.size ++ rest))) name result := by
  intro written
  have hnext := hr (written ++ (h.toBytes ++ (body ++ filling body.size)))
  simp only [ByteArray.append_assoc] at hnext
  rw [entriesFrom, dif_pos (lt_size_member hf written), headerAt_toBytes hf]
  simp only [bodyAt_toBytes hf hsize, if_pos htype, nextHeader_eq hf hsize, hnext]

end Member

theorem fits_fileHeader {name : ByteArray} {size : Nat} (hname : name.size ≤ maxNameLength)
    (hzero : 0 ∉ name.toList) (hsize : size < 2 ^ 64) : (fileHeader name size).Fits where
  name := ⟨hname, hzero⟩
  mode := show 0o644 < 8 ^ 7 by decide
  uid := Nat.pow_pos (by decide)
  gid := Nat.pow_pos (by decide)
  size := hsize
  mtime := Nat.pow_pos (by decide)

/-- The header in front of a name of some length. -/
def nameHeader (length : Nat) : Header := ⟨"././@LongLink".toUTF8, 0o644, 0, 0, length + 1, 0, longNameType⟩

theorem fits_nameHeader {length : Nat} (h : length + 1 < 2 ^ 64) : (nameHeader length).Fits where
  name := show "././@LongLink".toUTF8.size ≤ maxNameLength ∧ 0 ∉ "././@LongLink".toUTF8.toList by
    rw [Bytes.toList_eq]
    decide
  mode := show 0o644 < 8 ^ 7 by decide
  uid := Nat.pow_pos (by decide)
  gid := Nat.pow_pos (by decide)
  size := h
  mtime := Nat.pow_pos (by decide)

theorem longNameOf_append_zeros {name : ByteArray} (hzero : 0 ∉ name.toList) :
    longNameOf (name ++ zeros 1) = name := by
  have hfit : (name ++ zeros 1).toList = fit (name.size + 1) name.toList := by
    rw [Bytes.toList_append, toList_zeros, fit, Bytes.length_toList, Nat.add_sub_cancel_left,
      List.take_of_length_le]
    simp
  rw [longNameOf, hfit, untilZero_fit (Nat.le_succ _) hzero]

theorem Reads.longName {name rest : ByteArray} {old : Option ByteArray} {result : Except Fault (List Entry)}
    (hr : Reads rest (some name) result) (hzero : 0 ∉ name.toList) (hsize : name.size + 1 < 2 ^ 64) :
    Reads (longName name ++ rest) old result := by
  have hbody : (name ++ zeros 1).size = name.size + 1 := by rw [ByteArray.size_append, size_zeros]
  rw [← longNameOf_append_zeros hzero] at hr
  have hnamed := @Reads.named (nameHeader name.size) _ _ old _ hr (fits_nameHeader hsize) rfl hbody.symm
  rw [hbody] at hnamed
  have heq : Archive.longName name ++ rest = (nameHeader name.size).toBytes ++
      ((name ++ zeros 1) ++ (filling (name.size + 1) ++ rest)) := by
    rw [Archive.longName]
    simp only [ByteArray.append_assoc]
    rfl
  rwa [heq]

/-- An entry is read as its name, its header and its body, be its name short or long. -/
theorem Reads.record {rest : ByteArray} {e : String × ByteArray} {result : Except Fault (List Entry)}
    (hr : Reads rest none result) (he : Writable e) :
    Reads (record e.1 e.2 ++ rest) none (result.map (entryOf e :: ·)) := by
  obtain ⟨name, body⟩ := e
  have hcut : (name.toUTF8.extract 0 maxNameLength).size ≤ maxNameLength := by
    rw [ByteArray.size_extract]
    omega
  have hzero : 0 ∉ (name.toUTF8.extract 0 maxNameLength).toList := by
    rw [Bytes.toList_extract]
    exact fun h => he.name (List.mem_of_mem_drop (List.mem_of_mem_take h))
  have hfits := fits_fileHeader hcut hzero he.size
  have htype : regularType ≠ longNameType := by decide
  rw [Archive.record, opening]
  split_ifs with hlong
  · have hmember := @Reads.member _ _ _ (some name.toUTF8) _ hr hfits htype rfl
    have hnamed := @Reads.longName _ _ none _ hmember he.name he.nameSize
    simp only [List.foldl_cons, List.foldl_nil, ByteArray.empty_append, ByteArray.append_assoc]
    exact hnamed
  · have hwhole : name.toUTF8.extract 0 maxNameLength = name.toUTF8 := by
      refine Bytes.toList_inj ?_
      rw [Bytes.toList_extract, List.drop_zero, List.take_of_length_le]
      rw [Bytes.length_toList]
      exact Nat.le_of_not_lt hlong
    rw [hwhole] at hfits
    have hmember := @Reads.member _ _ _ none _ hr hfits htype rfl
    rw [entryOf, hwhole]
    simp only [List.foldl_cons, List.foldl_nil, ByteArray.empty_append, ByteArray.append_assoc]
    exact hmember

/-- An archive is read back entry by entry. -/
theorem entries_archive {es : List (String × ByteArray)} (h : ∀ e ∈ es, Writable e) :
    entries (archive es) = .ok (es.map entryOf) := by
  have hreads : Reads (archive es) none (.ok (es.map entryOf)) := by
    induction es with
    | nil =>
      rw [archive, records_nil, ByteArray.empty_append]
      exact reads_ending none
    | cons e es ih =>
      rw [archive, records_cons, ByteArray.append_assoc]
      exact (ih fun k hk => h k (by simp [hk])).record (h e (by simp))
  have := hreads .empty
  rwa [ByteArray.empty_append] at this

/-- An archive that is no longer than a number of 64 bits tells has only entries that can be told. -/
theorem writable_of_size {es : List (String × ByteArray)} (hnames : ∀ e ∈ es, 0 ∉ e.1.toUTF8.toList)
    (hsize : (archive es).size < 2 ^ 64) : ∀ e ∈ es, Writable e := by
  intro e he
  have hrecord : (record e.1 e.2).size ≤ (archive es).size := by
    obtain ⟨before, after, rfl⟩ := List.append_of_mem he
    rw [archive, records_append, records_cons]
    simp only [ByteArray.size_append]
    omega
  have hbody : e.2.size ≤ (record e.1 e.2).size := by
    rw [record]
    simp only [ByteArray.size_append]
    omega
  refine ⟨hnames e he, ?_, by omega⟩
  by_cases hlong : maxNameLength < e.1.toUTF8.size
  · have hname : e.1.toUTF8.size + 1 ≤ (record e.1 e.2).size := by
      rw [record, opening, if_pos hlong, longName]
      simp only [List.foldl_cons, List.foldl_nil, ByteArray.size_append, size_zeros]
      omega
    omega
  · rw [maxNameLength] at hlong
    omega

/-! ### Entries by name -/

/-- The bodies of the entries that have a name. -/
def bodiesNamed (es : List Entry) (name : String) : List ByteArray :=
  (es.filter fun e => decide (e.name.data = name.toUTF8.data)).map (·.body)

theorem bodiesNamed_map_entryOf (es : List (String × ByteArray)) (name : String) :
    bodiesNamed (es.map entryOf) name = (es.filter fun e => decide (e.1 = name)).map (·.2) := by
  rw [bodiesNamed, List.filter_map, List.map_map]
  refine congrArg (List.map _) (List.filter_congr fun e _ => ?_)
  exact decide_eq_decide.2 (ByteArray.ext_iff.symm.trans Bytes.toUTF8_inj)

/-- Where no two entries have one name, a body is the only one with a name just if they belong together. -/
theorem bodiesNamed_eq_singleton_iff {es : List (String × ByteArray)} (h : (es.map Prod.fst).Nodup) {name : String}
    {body : ByteArray} : bodiesNamed (es.map entryOf) name = [body] ↔ (name, body) ∈ es := by
  rw [bodiesNamed_map_entryOf]
  induction es with
  | nil => simp
  | cons e es ih =>
    rw [List.map_cons, List.nodup_cons] at h
    rw [List.filter_cons, List.mem_cons]
    split_ifs with he
    · have he : e.1 = name := of_decide_eq_true he
      have hnone : es.filter (fun e => decide (e.1 = name)) = [] := by
        rw [List.filter_eq_nil_iff]
        intro x hx heq
        exact h.1 (he ▸ of_decide_eq_true heq ▸ List.mem_map_of_mem hx)
      have hnot : (name, body) ∉ es := fun hx => h.1 (he ▸ List.mem_map_of_mem hx)
      rw [hnone, List.map_cons, List.map_nil]
      constructor
      · intro heq
        exact .inl (Prod.ext he.symm (List.cons.inj heq).1.symm)
      · rintro (rfl | hx)
        · rfl
        · exact absurd hx hnot
    · rw [ih h.2]
      constructor
      · exact .inr
      · rintro (rfl | hx)
        · exact absurd (decide_eq_true rfl) he
        · exact hx

end ImageAssembly.Archive
