import ImageAssembly.Proofs.Gzip.Coded

/-! Codes that a block carries. The lengths of the words of its two codes are themselves written by words of a third
code, whose lengths stand in front of them as numbers of three bits. -/

namespace ImageAssembly.Gzip

variable {data : ByteArray} {pos next wanted left n : Nat} {xs : List Bool} {code before after all ls : List Nat}

/-! ### Numbers of three bits -/

/-- Whether bits are numbers of three bits each. -/
inductive IsTriples : List Bool → List Nat → Prop
  | nil : IsTriples [] []
  | cons {x xs : List Bool} {ls : List Nat} (hlength : x.length = 3) (hrest : IsTriples xs ls) :
    IsTriples (x ++ xs) (value x :: ls)

theorem readTriples_eq_ok (hpos : pos ≤ bitSize data) : readTriples data n pos = .ok (ls, next) ↔
    ∃ xs, Within (dataBits data) pos next xs ∧ IsTriples xs ls ∧ ls.length = n := by
  induction n generalizing pos ls with
  | zero =>
    rw [readTriples]
    constructor
    · intro h
      obtain ⟨rfl, rfl⟩ := Prod.mk.inj (Except.ok.inj h)
      exact ⟨[], Within.nil_iff.2 ⟨rfl, by rwa [length_dataBits]⟩, .nil, rfl⟩
    · rintro ⟨xs, hxs, htriples, hlength⟩
      obtain rfl := List.length_eq_zero_iff.1 hlength
      cases htriples
      rw [(Within.nil_iff.1 hxs).1]
  | succ n ih =>
    simp only [readTriples, bind_eq_ok, Prod.exists, readBits_eq_ok]
    constructor
    · rintro ⟨_, mid, ⟨x, hx, hthree, rfl⟩, ls, _, hrest, heq⟩
      obtain ⟨rfl, rfl⟩ := Prod.mk.inj (Except.ok.inj heq)
      obtain ⟨xs, hxs, htriples, rfl⟩ := (ih (le_bitSize hx)).1 hrest
      exact ⟨x ++ xs, hx.append hxs, .cons hthree htriples, rfl⟩
    · rintro ⟨_, hbits, htriples, hlength⟩
      cases htriples with
      | nil => cases hlength
      | @cons x xs ls hthree htriples =>
        obtain ⟨mid, hx, hxs⟩ := Within.append_iff.1 hbits
        exact ⟨value x, mid, ⟨x, hx, hthree, rfl⟩, ls, next,
          (ih (le_bitSize hx)).2 ⟨xs, hxs, htriples, Nat.succ.inj hlength⟩, rfl⟩

/-! ### Lengths -/

/-- How often a symbol repeats a length at the least, how many bits tell how much more often, and the length. The
lengths before it stand with the last in front. -/
def repetition (before : List Nat) (symbol : Nat) : Option (Nat × Nat × Nat) :=
  if symbol = 16 then before.head?.map (3, 2, ·)
  else if symbol = 17 then some (3, 3, 0)
  else some (11, 7, 0)

/-- Whether bits write lengths behind others, which stand with the last in front. -/
inductive IsLengths (code : List Nat) : List Nat → List Bool → List Nat → Prop
  | nil {before : List Nat} : IsLengths code before [] []
  | length {before after : List Nat} {w xs : List Bool} {symbol : Nat} (hword : IsWord code w symbol)
    (hlt : symbol < 16) (hrest : IsLengths code (symbol :: before) xs after) :
    IsLengths code before (w ++ xs) (symbol :: after)
  | again {before after : List Nat} {w x xs : List Bool} {symbol base l : Nat} (hword : IsWord code w symbol)
    (hge : 16 ≤ symbol) (hrepetition : repetition before symbol = some (base, x.length, l))
    (hrest : IsLengths code (List.replicate (base + value x) l ++ before) xs after) :
    IsLengths code before (w ++ (x ++ xs)) (List.replicate (base + value x) l ++ after)

theorem repetition_pos {symbol base extra l : Nat} (h : repetition before symbol = some (base, extra, l)) :
    0 < base := by
  rw [repetition] at h
  split_ifs at h with h16 h17
  · obtain ⟨l, -, heq⟩ := Option.map_eq_some_iff.1 h
    cases heq
    decide
  · cases h
    decide
  · cases h
    decide

/-- Only no bits write no lengths. -/
theorem IsLengths.eq_nil (h : IsLengths code before xs []) : xs = [] := by
  generalize hafter : ([] : List Nat) = after at h
  cases h with
  | nil => rfl
  | length => cases hafter
  | again _ _ hrepetition =>
    have hpos := repetition_pos hrepetition
    have hlength := congrArg List.length hafter
    rw [List.length_nil, List.length_append, List.length_replicate] at hlength
    omega

/-- A reader of lengths takes a symbol while lengths are wanted. -/
theorem readLengths_succ (c : Code) (data : ByteArray) (wanted left : Nat) (acc : List Nat) (pos : Nat) :
    readLengths c data wanted (left + 1) acc pos =
      if wanted ≤ acc.length then if acc.length = wanted then .ok (acc.reverse, pos) else .error .corrupt
      else c.decode data pos >>= fun (symbol, pos) =>
        if symbol < 16 then readLengths c data wanted left (symbol :: acc) pos
        else match repetition acc symbol with
          | none => .error .corrupt
          | some (base, extra, l) => readBits data extra pos >>= fun (n, pos) =>
            readLengths c data wanted left (List.replicate (base + n) l ++ acc) pos := by
  rw [readLengths]
  congr 2
  funext ⟨symbol, pos⟩
  dsimp only [repetition]
  split_ifs with h h16 h17
  · rfl
  · cases acc <;> rfl
  · rfl
  · rfl

theorem stopLengths_eq_ok (hpos : pos ≤ bitSize data) (hle : wanted ≤ before.length) :
    (if before.length = wanted then Except.ok (before.reverse, pos) else .error Fault.corrupt) = .ok (all, next) ↔
      ∃ xs after, Within (dataBits data) pos next xs ∧ IsLengths code before xs after ∧
        all = before.reverse ++ after ∧ all.length = wanted := by
  constructor
  · intro h
    split_ifs at h with heq
    obtain ⟨rfl, rfl⟩ := Prod.mk.inj (Except.ok.inj h)
    exact ⟨[], [], Within.nil_iff.2 ⟨rfl, by rwa [length_dataBits]⟩, .nil, by rw [List.append_nil],
      by rw [List.length_reverse, heq]⟩
  · rintro ⟨xs, after, hxs, hlengths, rfl, hlength⟩
    rw [List.length_append, List.length_reverse] at hlength
    obtain rfl : after = [] := List.length_eq_zero_iff.1 (by omega)
    obtain rfl := hlengths.eq_nil
    rw [List.length_nil, Nat.add_zero] at hlength
    rw [if_pos hlength, (Within.nil_iff.1 hxs).1, List.append_nil]

theorem readLengths_eq_ok (hpos : pos ≤ bitSize data) (hleft : wanted ≤ left + before.length) :
    readLengths (.ofLengths code) data wanted left before pos = .ok (all, next) ↔
      ∃ xs after, Within (dataBits data) pos next xs ∧ IsLengths code before xs after ∧
        all = before.reverse ++ after ∧ all.length = wanted := by
  induction left generalizing before pos with
  | zero => rw [readLengths, stopLengths_eq_ok hpos (by omega)]
  | succ left ih =>
    rw [readLengths_succ]
    by_cases hle : wanted ≤ before.length
    · rw [if_pos hle]
      exact stopLengths_eq_ok hpos hle
    · rw [if_neg hle]
      simp only [bind_eq_ok, Prod.exists, decode_eq_ok]
      constructor
      · rintro ⟨symbol, mid, ⟨w, hw, hword⟩, h⟩
        split_ifs at h with hlt
        · obtain ⟨xs, after, hxs, hrest, rfl, hlength⟩ := (ih (le_bitSize hw) (by rw [List.length_cons]; omega)).1 h
          exact ⟨w ++ xs, symbol :: after, hw.append hxs, .length hword hlt hrest, by simp, hlength⟩
        · cases hrepetition : repetition before symbol with
          | none => simp [hrepetition] at h
          | some run =>
            obtain ⟨base, extra, l⟩ := run
            have hbase := repetition_pos hrepetition
            simp only [hrepetition] at h
            obtain ⟨⟨_, behind⟩, hread, hbehind⟩ := bind_eq_ok.1 h
            obtain ⟨x, hx, rfl, rfl⟩ := readBits_eq_ok.1 hread
            obtain ⟨xs, after, hxs, hrest, rfl, hlength⟩ := (ih (le_bitSize hx) (by simp; omega)).1 hbehind
            exact ⟨w ++ (x ++ xs), _, hw.append (hx.append hxs), .again hword (Nat.not_lt.1 hlt) hrepetition hrest,
              by simp, hlength⟩
      · rintro ⟨_, _, hbits, hlengths, rfl, hlength⟩
        cases hlengths with
        | nil => simp at hlength; omega
        | @length _ after w xs symbol hword hlt hrest =>
          obtain ⟨mid, hw, hxs⟩ := Within.append_iff.1 hbits
          refine ⟨symbol, mid, ⟨w, hw, hword⟩, ?_⟩
          rw [if_pos hlt]
          exact (ih (le_bitSize hw) (by rw [List.length_cons]; omega)).2 ⟨xs, after, hxs, hrest, by simp, hlength⟩
        | @again _ after w x xs symbol base l hword hge hrepetition hrest =>
          obtain ⟨mid, hw, hbits⟩ := Within.append_iff.1 hbits
          obtain ⟨behind, hx, hxs⟩ := Within.append_iff.1 hbits
          have hbase := repetition_pos hrepetition
          refine ⟨symbol, mid, ⟨w, hw, hword⟩, ?_⟩
          rw [if_neg (Nat.not_lt.2 hge), hrepetition]
          refine bind_eq_ok.2 ⟨(value x, behind), readBits_eq_ok.2 ⟨x, hx, rfl, rfl⟩, ?_⟩
          exact (ih (le_bitSize hx) (by simp; omega)).2 ⟨xs, after, hxs, hrest, by simp, hlength⟩

/-! ### Codes -/

/-- Whether lengths make a code: its words cover all texts, or there is no word, or a single bit as the only one. -/
def IsCode (lengths : List Nat) : Prop := Code.isComplete lengths ∨ Code.isSparse lengths

/-- The lengths of the words for lengths, given in the order in which they are written. -/
def ordered (ls : List Nat) : List Nat := (List.range 19).map fun s => ((lengthOrder.zip ls).lookup s).getD 0

/-- Whether bits tell the lengths of the words of two codes: how many there are, then those of the third code, then
what is written by its words. -/
inductive IsTables : List Bool → List Nat → List Nat → Prop
  | intro {a b c xs ys : List Bool} {ls literals distances : List Nat} (ha : a.length = 5) (hb : b.length = 5)
    (hc : c.length = 4) (hliterals : literals.length = value a + 257) (hdistances : distances.length = value b + 1)
    (hmost : literals.length ≤ 286 ∧ distances.length ≤ 30) (htriples : IsTriples xs ls)
    (hls : ls.length = value c + 4) (hcomplete : Code.isComplete (ordered ls))
    (hlengths : IsLengths (ordered ls) [] ys (literals ++ distances)) (hcodes : IsCode literals ∧ IsCode distances) :
    IsTables (a ++ (b ++ (c ++ (xs ++ ys)))) literals distances

theorem checkedCode_eq_ok {lengths : List Nat} {c : Code} :
    checkedCode lengths = .ok c ↔ IsCode lengths ∧ .ofLengths lengths = c := by
  rw [checkedCode, IsCode]
  split_ifs with h <;> simp [h]

theorem readCodes_eq_ok {codes : Code × Code} : readCodes data pos = .ok (codes, next) ↔
    ∃ xs literals distances, Within (dataBits data) pos next xs ∧ IsTables xs literals distances ∧
      codes = (.ofLengths literals, .ofLengths distances) := by
  simp only [readCodes, bind_eq_ok, Prod.exists, readBits_eq_ok, guard_eq_ok, checkedCode_eq_ok]
  constructor
  · rintro ⟨_, _, ⟨a, ha, ha5, rfl⟩, _, _, ⟨b, hb, hb5, rfl⟩, _, _, ⟨c, hc, hc4, rfl⟩, hmost, ls, _, hls, hcomplete,
      all, _, hall, _, ⟨hliterals, rfl⟩, _, ⟨hdistances, rfl⟩, heq⟩
    obtain ⟨xs, hxs, htriples, hcount⟩ := (readTriples_eq_ok (le_bitSize hc)).1 hls
    obtain ⟨ys, _, hys, hlengths, rfl, hlength⟩ := (readLengths_eq_ok (le_bitSize hxs) (by simp)).1 hall
    obtain ⟨rfl, rfl⟩ := Prod.mk.inj (Except.ok.inj heq)
    have hsplit := List.take_append_drop (value a + 257) all
    refine ⟨_, _, _, ha.append (hb.append (hc.append (hxs.append hys))),
      .intro ha5 hb5 hc4 ?_ ?_ ⟨?_, ?_⟩ htriples hcount (by simpa [ordered] using hcomplete) (hsplit.symm ▸ hlengths)
        ⟨hliterals, hdistances⟩, rfl⟩
    all_goals simp only [List.length_take, List.length_drop]; omega
  · rintro ⟨_, literals, distances, hbits, htables, rfl⟩
    obtain ⟨ha5, hb5, hc4, hliterals, hdistances, hmost, htriples, hcount, hcomplete, hlengths, hcodes⟩ := htables
    obtain ⟨_, ha, hbits⟩ := Within.append_iff.1 hbits
    obtain ⟨_, hb, hbits⟩ := Within.append_iff.1 hbits
    obtain ⟨_, hc, hbits⟩ := Within.append_iff.1 hbits
    obtain ⟨_, hxs, hys⟩ := Within.append_iff.1 hbits
    have hls := (readTriples_eq_ok (le_bitSize hc)).2 ⟨_, hxs, htriples, hcount⟩
    refine ⟨_, _, ⟨_, ha, ha5, rfl⟩, _, _, ⟨_, hb, hb5, rfl⟩, _, _, ⟨_, hc, hc4, rfl⟩, by omega, _, _, hls,
      by simpa [ordered] using hcomplete, literals ++ distances, next, ?_, ?_⟩
    · exact (readLengths_eq_ok (le_bitSize hxs) (by simp)).2 ⟨_, _, hys, hlengths, rfl, by simp; omega⟩
    · rw [← hliterals, List.take_left, List.drop_left]
      exact ⟨_, ⟨hcodes.1, rfl⟩, _, ⟨hcodes.2, rfl⟩, rfl⟩

end ImageAssembly.Gzip
