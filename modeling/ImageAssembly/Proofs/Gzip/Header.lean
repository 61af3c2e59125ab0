import ImageAssembly.Gzip.Member
import ImageAssembly.Proofs.Gzip.Bits

/-! Headers. Ten bytes stand in front, one of them with flags that tell which parts follow: a field with its length, a
name and a comment that zero bytes end, and a checksum of what stands before it. -/

namespace ImageAssembly.Gzip

variable {data : ByteArray} {i j n v length : Nat} {bytes : List UInt8}

/-! ### Numbers -/

/-- The number that bytes write, lowest first. -/
def number : List UInt8 → Nat
  | [] => 0
  | b :: r => b.toNat + 256 * number r

theorem length_littleEndian (n v : Nat) : (littleEndian n v).length = n := by
  induction n generalizing v with
  | zero => rfl
  | succ n ih => rw [littleEndian, List.length_cons, ih]

theorem number_littleEndian (n v : Nat) : number (littleEndian n v) = v % 256 ^ n := by
  induction n generalizing v with
  | zero => rw [littleEndian, number, pow_zero, Nat.mod_one]
  | succ n ih =>
    have hbyte : v.toUInt8.toNat = v % 256 := UInt8.toNat_ofNat
    rw [littleEndian, number, ih, hbyte, pow_succ', Nat.mod_mul]

theorem littleEndian_number (bytes : List UInt8) : littleEndian bytes.length (number bytes) = bytes := by
  induction bytes with
  | nil => rfl
  | cons b bytes ih =>
    have hlt := b.toNat_lt
    have hbyte : (b.toNat + 256 * number bytes).toUInt8 = b :=
      UInt8.toNat_inj.1 (show (b.toNat + 256 * number bytes) % 2 ^ 8 = b.toNat by omega)
    have hrest : (b.toNat + 256 * number bytes) / 256 = number bytes := by omega
    rw [List.length_cons, number, littleEndian, hbyte, hrest, ih]

theorem littleEndian_mod (n v : Nat) : littleEndian n (v % 256 ^ n) = littleEndian n v := by
  have h := littleEndian_number (littleEndian n v)
  rwa [length_littleEndian, number_littleEndian] at h

/-- Bytes of a number are known by how many they are and which number they write. -/
theorem eq_littleEndian_iff : bytes = littleEndian n v ↔ bytes.length = n ∧ number bytes = v % 256 ^ n := by
  constructor
  · rintro rfl
    exact ⟨length_littleEndian n v, number_littleEndian n v⟩
  · rintro ⟨rfl, h⟩
    rw [← littleEndian_mod, ← h, littleEndian_number]

theorem numberAt_eq_number (h : Within data.toList i j bytes) : numberAt data i bytes.length = number bytes := by
  induction bytes generalizing i with
  | nil => rfl
  | cons b bytes ih =>
    obtain ⟨hb, hrest⟩ := Within.cons_iff.1 h
    obtain ⟨hlt, -⟩ := List.getElem?_eq_some_iff.1 hb
    rw [Bytes.length_toList] at hlt
    obtain rfl := Option.some.inj (hb.symm.trans (getElem?_toList hlt))
    rw [List.length_cons, numberAt, number, ih hrest]

theorem readNumber_eq_ok : readNumber data n i = .ok (v, j) ↔
    ∃ bytes, Within data.toList i j bytes ∧ bytes.length = n ∧ v = number bytes := by
  rw [readNumber, ← Bytes.length_toList]
  constructor
  · intro h
    split_ifs at h with hle
    obtain ⟨rfl, rfl⟩ := Prod.mk.inj (Except.ok.inj h)
    obtain ⟨bytes, hbytes, rfl⟩ := exists_within hle
    exact ⟨bytes, hbytes, rfl, numberAt_eq_number hbytes⟩
  · rintro ⟨bytes, hbytes, rfl, rfl⟩
    have hle := hbytes.le_length
    rw [hbytes.next_eq] at hle
    rw [if_pos hle, numberAt_eq_number hbytes, hbytes.next_eq]

/-! ### Texts -/

/-- Whether bytes are a text of at most so many others with a zero byte behind it. -/
def IsText (most : Nat) (bytes : List UInt8) : Prop := ∃ text, bytes = text ++ [0] ∧ 0 ∉ text ∧ text.length ≤ most

theorem isText_cons_iff {most : Nat} {b : UInt8} : IsText most (b :: bytes) ↔
    b = 0 ∧ bytes = [] ∨ b ≠ 0 ∧ ∃ n, most = n + 1 ∧ IsText n bytes := by
  constructor
  · rintro ⟨text, heq, hzero, hlength⟩
    cases text with
    | nil =>
      obtain ⟨rfl, rfl⟩ := List.cons.inj heq
      exact .inl ⟨rfl, rfl⟩
    | cons c text =>
      obtain ⟨rfl, rfl⟩ := List.cons.inj heq
      rw [List.mem_cons, not_or] at hzero
      rw [List.length_cons] at hlength
      exact .inr ⟨Ne.symm hzero.1, most - 1, by omega, text, rfl, hzero.2, by omega⟩
  · rintro (⟨rfl, rfl⟩ | ⟨hb, n, rfl, text, rfl, hzero, hlength⟩)
    · exact ⟨[], rfl, by simp, Nat.zero_le _⟩
    · exact ⟨b :: text, rfl, by simp [hzero, Ne.symm hb], Nat.succ_le_succ hlength⟩

theorem IsText.ne_nil {most : Nat} (h : IsText most bytes) : bytes ≠ [] := by
  obtain ⟨text, rfl, -, -⟩ := h
  simp

/-- A text begins with the next byte. -/
theorem exists_text_iff {most : Nat} (hlt : i < data.size) :
    (∃ bytes, Within data.toList i j bytes ∧ IsText most bytes) ↔ data.get! i = 0 ∧ i + 1 = j ∨
      data.get! i ≠ 0 ∧ ∃ n, most = n + 1 ∧ ∃ bytes, Within data.toList (i + 1) j bytes ∧ IsText n bytes := by
  have hget := getElem?_toList hlt
  constructor
  · rintro ⟨bytes, hbytes, htext⟩
    obtain ⟨b, bytes, rfl⟩ := List.exists_cons_of_ne_nil htext.ne_nil
    obtain ⟨hb, hrest⟩ := Within.cons_iff.1 hbytes
    obtain rfl := Option.some.inj (hb.symm.trans hget)
    rcases isText_cons_iff.1 htext with ⟨hzero, rfl⟩ | ⟨hzero, n, hn, htext⟩
    · exact .inl ⟨hzero, (Within.nil_iff.1 hrest).1⟩
    · exact .inr ⟨hzero, n, hn, bytes, hrest, htext⟩
  · rintro (⟨hzero, rfl⟩ | ⟨hzero, n, hn, bytes, hrest, htext⟩)
    · refine ⟨[data.get! i], Within.singleton_iff.2 ⟨hget, rfl⟩, isText_cons_iff.2 (.inl ⟨hzero, rfl⟩)⟩
    · exact ⟨data.get! i :: bytes, Within.cons_iff.2 ⟨hget, hrest⟩, isText_cons_iff.2 (.inr ⟨hzero, n, hn, htext⟩)⟩

theorem skipText_eq_ok (hlength : length ≤ maxFieldLength) : skipText data i length = .ok j ↔
    ∃ bytes, Within data.toList i j bytes ∧ IsText (maxFieldLength - length) bytes := by
  fun_induction skipText data i length with
  | case1 i length hlt hzero => simp [exists_text_iff hlt, hzero]
  | case2 i length hlt hzero hlong =>
    have hmost : maxFieldLength - length = 0 := by omega
    simp [exists_text_iff hlt, hzero, hmost]
  | case3 i length hlt hzero hshort ih =>
    have hmost : maxFieldLength - length = maxFieldLength - (length + 1) + 1 := by omega
    rw [ih (by omega), exists_text_iff hlt, hmost]
    simp [hzero]
  | case4 i length hge =>
    refine ⟨nofun, fun ⟨bytes, hbytes, htext⟩ => ?_⟩
    have hpos := List.length_pos_of_ne_nil htext.ne_nil
    have hle := hbytes.le_length
    rw [hbytes.next_eq, Bytes.length_toList] at hle
    omega

/-! ### Parts -/

/-- Whether bytes are a part of a header that is there just if the flag for it is. -/
def IsPart (flag : Bool) (P : List UInt8 → Prop) (bytes : List UInt8) : Prop := if flag then P bytes else bytes = []

/-- Whether bytes are a field with its length in front. -/
inductive IsField : List UInt8 → Prop
  | intro {length field : List UInt8} (htwo : length.length = 2) (hlength : number length = field.length) :
    IsField (length ++ field)

/-- Whether bytes are the checksum of a header that has others in front. -/
def IsCheck (before bytes : List UInt8) : Prop :=
  bytes.length = 2 ∧ number bytes = (crc32 before.toByteArray).toNat % 65536

/-- Whether bytes are a header: the ten in front, then the parts that the flags announce. -/
inductive IsHeader : List UInt8 → Prop
  | intro {flags : UInt8} {rest field name comment check : List UInt8} (hflags : flags.toNat < 0x20)
    (hrest : rest.length = 6) (hfield : IsPart (hasFlag flags.toNat 2) IsField field)
    (hname : IsPart (hasFlag flags.toNat 3) (IsText maxFieldLength) name)
    (hcomment : IsPart (hasFlag flags.toNat 4) (IsText maxFieldLength) comment)
    (hcheck : IsPart (hasFlag flags.toNat 1)
      (IsCheck (0x1F :: 0x8B :: 8 :: flags :: rest ++ (field ++ (name ++ comment)))) check) :
    IsHeader (0x1F :: 0x8B :: 8 :: flags :: rest ++ (field ++ (name ++ (comment ++ check))))

/-- The position behind a field. -/
def skipField (data : ByteArray) (i : Nat) : Except Fault Nat := do
  let (length, i) ← readNumber data 2 i
  if i + length ≤ data.size then pure (i + length) else throw .unexpectedEnd

/-- The position behind the checksum of a header. -/
def skipCheck (data : ByteArray) (i : Nat) : Except Fault Nat := do
  let (check, next) ← readNumber data 2 i
  if check = (crc32 (data.extract 0 i)).toNat % 65536 then pure next else throw .checksum

/-- The position behind a part that a flag announces. -/
def skipPart (flag : Bool) (skip : Nat → Except Fault Nat) (i : Nat) : Except Fault Nat :=
  if flag then skip i else pure i

theorem skipField_bind {α : Type} (f : Nat → Except Fault α) : (skipField data i >>= f) =
    (readNumber data 2 i >>= fun (length, i) =>
      if i + length ≤ data.size then pure (i + length) >>= f else throw .unexpectedEnd >>= f) := by
  rw [skipField]
  rcases readNumber data 2 i with _ | ⟨length, i⟩
  · rfl
  · simp only [bind, Except.bind]
    split_ifs <;> rfl

theorem skipPart_bind {α : Type} (flag : Bool) (skip : Nat → Except Fault Nat) (f : Nat → Except Fault α) :
    (skipPart flag skip i >>= f) = if flag then skip i >>= f else pure i >>= f := by
  rw [skipPart]
  split_ifs <;> rfl

theorem readHeader_eq (data : ByteArray) : readHeader data = (do
    let (magic, i) ← readNumber data 10 0
    let flags := magic / 0x1000000 % 256
    if magic % 0x1000000 ≠ 0x088B1F ∨ 0x20 ≤ flags then throw .invalidHeader
    let i ← skipPart (hasFlag flags 2) (skipField data) i
    let i ← skipPart (hasFlag flags 3) (skipText data · 0) i
    let i ← skipPart (hasFlag flags 4) (skipText data · 0) i
    skipPart (hasFlag flags 1) (skipCheck data) i) := by
  simp only [readHeader, skipPart_bind, skipField_bind]
  rfl

theorem skipField_eq_ok : skipField data i = .ok j ↔ ∃ bytes, Within data.toList i j bytes ∧ IsField bytes := by
  simp only [skipField, bind_eq_ok, Prod.exists, readNumber_eq_ok]
  constructor
  · rintro ⟨_, mid, ⟨length, hlength, htwo, rfl⟩, h⟩
    split_ifs at h with hle
    cases h
    rw [← Bytes.length_toList] at hle
    obtain ⟨field, hfield, hcount⟩ := exists_within hle
    exact ⟨length ++ field, hlength.append hfield, .intro htwo hcount.symm⟩
  · rintro ⟨_, hbytes, @⟨length, field, htwo, hcount⟩⟩
    obtain ⟨mid, hlength, hfield⟩ := Within.append_iff.1 hbytes
    have hle := hfield.le_length
    rw [hfield.next_eq, ← hcount, Bytes.length_toList] at hle
    refine ⟨number length, mid, ⟨length, hlength, htwo, rfl⟩, ?_⟩
    rw [if_pos hle, hcount, ← hfield.next_eq]
    rfl

theorem skipCheck_eq_ok {before : List UInt8} (hbefore : Within data.toList 0 i before) :
    skipCheck data i = .ok j ↔ ∃ bytes, Within data.toList i j bytes ∧ IsCheck before bytes := by
  have hextract : data.extract 0 i = before.toByteArray :=
    Bytes.toList_inj (by rw [toList_extract_of_within hbefore, Bytes.toList_toByteArray])
  simp only [skipCheck, bind_eq_ok, Prod.exists, readNumber_eq_ok, hextract]
  constructor
  · rintro ⟨_, mid, ⟨bytes, hbytes, htwo, rfl⟩, h⟩
    split_ifs at h with hcheck
    cases h
    exact ⟨bytes, hbytes, htwo, hcheck⟩
  · rintro ⟨bytes, hbytes, htwo, hcheck⟩
    exact ⟨number bytes, j, ⟨bytes, hbytes, htwo, rfl⟩, by rw [if_pos hcheck]; rfl⟩

/-- A part is passed just if it stands there. -/
theorem skipPart_eq_ok {flag : Bool} {skip : Nat → Except Fault Nat} {P : List UInt8 → Prop}
    (hi : i ≤ data.toList.length) (hskip : skip i = .ok j ↔ ∃ bytes, Within data.toList i j bytes ∧ P bytes) :
    skipPart flag skip i = .ok j ↔ ∃ bytes, Within data.toList i j bytes ∧ IsPart flag P bytes := by
  cases flag with
  | true => exact hskip
  | false =>
    constructor
    · intro h
      cases h
      exact ⟨[], Within.nil_iff.2 ⟨rfl, hi⟩, rfl⟩
    · rintro ⟨bytes, hbytes, hpart⟩
      obtain rfl : bytes = [] := hpart
      rw [← (Within.nil_iff.1 hbytes).1]
      rfl

theorem skipTextPart_eq_ok {flag : Bool} (hi : i ≤ data.toList.length) : skipPart flag (skipText data · 0) i = .ok j ↔
    ∃ bytes, Within data.toList i j bytes ∧ IsPart flag (IsText maxFieldLength) bytes :=
  skipPart_eq_ok hi (skipText_eq_ok (Nat.zero_le _))

/-! ### Headers -/

/-- The first bytes of a header and its flags, in the number that the ten bytes in front make. -/
theorem magic_iff {a b c flags : UInt8} {rest : List UInt8} :
    ¬(number (a :: b :: c :: flags :: rest) % 0x1000000 ≠ 0x088B1F ∨
      0x20 ≤ number (a :: b :: c :: flags :: rest) / 0x1000000 % 256) ↔
      (a = 0x1F ∧ b = 0x8B ∧ c = 8) ∧ flags.toNat < 0x20 := by
  have ha := a.toNat_lt
  have hb := b.toNat_lt
  have hc := c.toNat_lt
  have hflags := flags.toNat_lt
  simp only [number, ← UInt8.toNat_inj]
  have h1 : (0x1F : UInt8).toNat = 0x1F := rfl
  have h2 : (0x8B : UInt8).toNat = 0x8B := rfl
  have h3 : (8 : UInt8).toNat = 8 := rfl
  omega

theorem flags_eq {a b c flags : UInt8} {rest : List UInt8} :
    number (a :: b :: c :: flags :: rest) / 0x1000000 % 256 = flags.toNat := by
  have ha := a.toNat_lt
  have hb := b.toNat_lt
  have hc := c.toNat_lt
  have hflags := flags.toNat_lt
  simp only [number]
  omega

/-- The position behind a header is found just where one stands in front. -/
theorem readHeader_eq_ok : readHeader data = .ok i ↔ ∃ header, Within data.toList 0 i header ∧ IsHeader header := by
  rw [readHeader_eq]
  simp only [bind_eq_ok, Prod.exists, readNumber_eq_ok, guard_eq_ok]
  constructor
  · rintro ⟨_, i₁, ⟨front, hfront, hten, rfl⟩, hmagic, i₂, h₂, i₃, h₃, i₄, h₄, h⟩
    match front, hten with
    | a :: b :: c :: flags :: rest, hten =>
      obtain ⟨⟨rfl, rfl, rfl⟩, hflags⟩ := magic_iff.1 hmagic
      rw [flags_eq] at h₂ h₃ h₄ h
      obtain ⟨field, hfield, hisfield⟩ := (skipPart_eq_ok hfront.le_length skipField_eq_ok).1 h₂
      obtain ⟨name, hname, hisname⟩ := (skipTextPart_eq_ok hfield.le_length).1 h₃
      obtain ⟨comment, hcomment, hiscomment⟩ := (skipTextPart_eq_ok hname.le_length).1 h₄
      have hbefore := hfront.append (hfield.append (hname.append hcomment))
      obtain ⟨check, hcheck, hischeck⟩ := (skipPart_eq_ok hbefore.le_length (skipCheck_eq_ok hbefore)).1 h
      exact ⟨_, hfront.append (hfield.append (hname.append (hcomment.append hcheck))),
        .intro hflags (by simpa using hten) hisfield hisname hiscomment hischeck⟩
  · rintro ⟨_, hheader, @⟨flags, rest, field, name, comment, check, hflags, hrest, hisfield, hisname, hiscomment,
      hischeck⟩⟩
    obtain ⟨i₁, hfront, h⟩ := Within.append_iff.1 hheader
    obtain ⟨i₂, hfield, h⟩ := Within.append_iff.1 h
    obtain ⟨i₃, hname, h⟩ := Within.append_iff.1 h
    obtain ⟨i₄, hcomment, hcheck⟩ := Within.append_iff.1 h
    have hbefore := hfront.append (hfield.append (hname.append hcomment))
    refine ⟨_, i₁, ⟨_, hfront, by simp [hrest], rfl⟩, magic_iff.2 ⟨⟨rfl, rfl, rfl⟩, hflags⟩, ?_⟩
    rw [flags_eq]
    exact ⟨i₂, (skipPart_eq_ok hfront.le_length skipField_eq_ok).2 ⟨field, hfield, hisfield⟩,
      i₃, (skipTextPart_eq_ok hfield.le_length).2 ⟨name, hname, hisname⟩,
      i₄, (skipTextPart_eq_ok hname.le_length).2 ⟨comment, hcomment, hiscomment⟩,
      (skipPart_eq_ok hbefore.le_length (skipCheck_eq_ok hbefore)).2 ⟨check, hcheck, hischeck⟩⟩

/-! ### The first bytes -/

/-- The first two bytes decide. -/
theorem hasMagic_iff : hasMagic data = true ↔ ∃ rest, data.toList = 0x1F :: 0x8B :: rest := by
  have hget (k : Nat) (hk : k < data.size) := getElem?_toList hk
  have hlength := Bytes.length_toList data
  rw [hasMagic, Bool.and_eq_true, Bool.and_eq_true, decide_eq_true_eq, beq_iff_eq, beq_iff_eq]
  generalize data.toList = l at hget hlength
  constructor
  · rintro ⟨⟨hsize, h0⟩, h1⟩
    have hfirst := hget 0 (by omega)
    have hsecond := hget 1 (by omega)
    rw [h0] at hfirst
    rw [h1] at hsecond
    match l, hfirst, hsecond with
    | a :: b :: rest, hfirst, hsecond =>
      obtain rfl := Option.some.inj hfirst
      obtain rfl := Option.some.inj hsecond
      exact ⟨rest, rfl⟩
  · rintro ⟨rest, rfl⟩
    rw [List.length_cons, List.length_cons] at hlength
    exact ⟨⟨by omega, (Option.some.inj (hget 0 (by omega))).symm⟩, (Option.some.inj (hget 1 (by omega))).symm⟩

theorem hasMagic_extract (data : ByteArray) : hasMagic (data.extract 0 2) = hasMagic data := by
  rw [Bool.eq_iff_iff, hasMagic_iff, hasMagic_iff, Bytes.toList_extract, List.drop_zero]
  match data.toList with
  | [] => simp
  | [a] => simp
  | a :: b :: rest => simp

/-- Only what begins like a member has a header. -/
theorem hasMagic_of_readHeader (h : readHeader data = .ok i) : hasMagic data = true := by
  obtain ⟨_, hwithin, hheader⟩ := readHeader_eq_ok.1 h
  obtain ⟨before, after, hdata, hlength, -⟩ := hwithin
  obtain rfl := List.length_eq_zero_iff.1 hlength
  cases hheader
  exact hasMagic_iff.2 ⟨_, hdata⟩

end ImageAssembly.Gzip
