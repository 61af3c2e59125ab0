import ImageAssembly.Gzip.Huffman
import ImageAssembly.Proofs.Gzip.Bits

/-! Words of canonical codes. A code is given by the lengths of its words alone: words of one length are consecutive
numbers in the order of their symbols, and behind the last word of a length the words of the next begin with a bit
more. A reader that takes bit after bit knows only whether the number so far is below the last word of its length; it
finds just the symbol whose word stands there. -/

namespace ImageAssembly.Gzip

variable {lengths : List Nat} {data : ByteArray} {pos next symbol : Nat} {w : List Bool}

/-! ### Words -/

/-- The first word of `n + 1` bits. -/
def firstWord (lengths : List Nat) : Nat → Nat
  | 0 => 0
  | n + 1 => 2 * (firstWord lengths n + lengths.count (n + 1))

/-- How many symbols before a symbol have words of `n` bits. -/
def rank (lengths : List Nat) (n symbol : Nat) : Nat := (lengths.take symbol).count n

/-- The number that bits write behind another number, the highest first. -/
def numberOn (number : Nat) (w : List Bool) : Nat := w.foldl (fun n b => 2 * n + b.toNat) number

/-- Whether bits complete the word of a symbol of which `n` bits are known as a number. -/
structure Completes (lengths : List Nat) (n number : Nat) (w : List Bool) (symbol : Nat) : Prop where
  ne_nil : w ≠ []
  short : n + w.length ≤ maxWordLength
  length : lengths[symbol]? = some (n + w.length)
  number : numberOn number w = firstWord lengths (n + w.length - 1) + rank lengths (n + w.length) symbol

/-- Whether bits are the word of a symbol. -/
def IsWord (lengths : List Nat) (w : List Bool) (symbol : Nat) : Prop := Completes lengths 0 0 w symbol

theorem IsWord.ne_nil (h : IsWord lengths w symbol) : w ≠ [] := Completes.ne_nil h

theorem rank_lt {n : Nat} (h : lengths[symbol]? = some n) : rank lengths n symbol < lengths.count n := by
  obtain ⟨hlt, rfl⟩ := List.getElem?_eq_some_iff.1 h
  have hcount := congrArg (List.count lengths[symbol]) (List.take_append_drop symbol lengths)
  rw [List.count_append, List.drop_eq_getElem_cons hlt, List.count_cons_self] at hcount
  rw [rank]
  omega

/-- A number below the last word of its length stays below the first word of every greater length. -/
theorem numberOn_lt {n number : Nat} (h : number < firstWord lengths n + lengths.count (n + 1)) (hw : w ≠ []) :
    numberOn number w < firstWord lengths (n + w.length) := by
  induction w generalizing n number with
  | nil => exact absurd rfl hw
  | cons b w ih =>
    have hbit : b.toNat ≤ 1 := by cases b <;> decide
    have hnext : 2 * number + b.toNat < firstWord lengths (n + 1) := by
      rw [firstWord]
      omega
    cases w with
    | nil => exact hnext
    | cons b' w =>
      have hlater := ih (Nat.lt_add_right (lengths.count (n + 2)) hnext) (by simp)
      rwa [Nat.add_assoc, Nat.add_comm 1] at hlater

/-! ### Tables -/

/-- How many symbols have words of at most `n` bits. -/
def shorter (lengths : List Nat) (n : Nat) : Nat := ((List.range n).map fun k => lengths.count (k + 1)).sum

theorem shorter_succ (lengths : List Nat) (n : Nat) :
    shorter lengths (n + 1) = shorter lengths n + lengths.count (n + 1) := by
  simp [shorter, List.range_succ]

theorem length_symbolsFrom (lengths : List Nat) (n k : Nat) :
    (((lengths.zipIdx k).filter fun (l, _) => l == n).map (·.2)).length = lengths.count n := by
  induction lengths generalizing k with
  | nil => rfl
  | cons l lengths ih =>
    rw [List.zipIdx_cons, List.count_cons, ← ih (k + 1), List.filter_cons]
    split_ifs with h
    · rfl
    · simp

theorem length_symbolsOfLength (lengths : List Nat) (n : Nat) :
    (Code.symbolsOfLength lengths n).length = lengths.count n :=
  length_symbolsFrom lengths n 0

theorem getElem?_symbols_append (before after : List Nat) (n : Nat) :
    (Code.symbolsOfLength (before ++ n :: after) n)[before.count n]? = some before.length := by
  rw [Code.symbolsOfLength, List.zipIdx_append, List.filter_append, List.map_append, List.zipIdx_cons,
    ← length_symbolsFrom before n 0]
  simp

/-- The symbols of a length stand in their order. -/
theorem getElem?_symbolsOfLength {n : Nat} (h : lengths[symbol]? = some n) :
    (Code.symbolsOfLength lengths n)[rank lengths n symbol]? = some symbol := by
  obtain ⟨hlt, rfl⟩ := List.getElem?_eq_some_iff.1 h
  have hget := getElem?_symbols_append (lengths.take symbol) (lengths.drop (symbol + 1)) lengths[symbol]
  rwa [← List.drop_eq_getElem_cons hlt, List.take_append_drop, List.length_take_of_le (Nat.le_of_lt hlt)] at hget

/-- Every number below that of the symbols of a length is the rank of one of them. -/
theorem exists_rank_eq {n r : Nat} (h : r < lengths.count n) :
    ∃ symbol, lengths[symbol]? = some n ∧ rank lengths n symbol = r := by
  induction lengths generalizing r with
  | nil => simp at h
  | cons l lengths ih =>
    have hrank : ∀ symbol, rank (l :: lengths) n (symbol + 1) = rank lengths n symbol + if l = n then 1 else 0 := by
      intro symbol
      rw [rank, List.take_succ_cons, List.count_cons]
      simp [rank]
    by_cases hl : l = n
    · cases r with
      | zero => exact ⟨0, by simp [hl], by simp [rank]⟩
      | succ r =>
        obtain ⟨symbol, hsymbol, rfl⟩ := ih (r := r) (by simpa [hl] using h)
        exact ⟨symbol + 1, by simpa using hsymbol, by rw [hrank, if_pos hl]⟩
    · obtain ⟨symbol, hsymbol, rfl⟩ := ih (by simpa [hl] using h)
      exact ⟨symbol + 1, by simpa using hsymbol, by rw [hrank, if_neg hl, Nat.add_zero]⟩

theorem getElem?_flatten_range (f : Nat → List Nat) {k m r : Nat} (hk : k < m) (hr : r < (f k).length) :
    ((List.range m).map f).flatten[((List.range k).map fun j => (f j).length).sum + r]? = (f k)[r]? := by
  have hlength (n : Nat) :
      (((List.range n).map f).flatten).length = ((List.range n).map fun j => (f j).length).sum := by
    simp [List.length_flatten, Function.comp_def]
  induction m with
  | zero => exact absurd hk (Nat.not_lt_zero k)
  | succ m ih =>
    rw [List.range_succ, List.map_append, List.flatten_append]
    rcases Nat.lt_or_eq_of_le (Nat.le_of_lt_succ hk) with hlt | rfl
    · rw [List.getElem?_append_left, ih hlt]
      exact (List.getElem?_eq_some_iff.1 ((ih hlt).trans (List.getElem?_eq_getElem hr))).1
    · rw [← hlength, List.getElem?_append_right (Nat.le_add_right _ _), Nat.add_sub_cancel_left]
      simp

/-- The table lists the symbols by the lengths of their words, and those of a length in their order. -/
theorem symbols_ofLengths {n : Nat} (hn : n < maxWordLength) (h : lengths[symbol]? = some (n + 1)) :
    shorter lengths n + rank lengths (n + 1) symbol < (Code.ofLengths lengths).symbols.size ∧
      (Code.ofLengths lengths).symbols[shorter lengths n + rank lengths (n + 1) symbol]! = symbol := by
  have hrank : rank lengths (n + 1) symbol < (Code.symbolsOfLength lengths (n + 1)).length := by
    rw [length_symbolsOfLength]
    exact rank_lt h
  have hget := getElem?_flatten_range (fun k => Code.symbolsOfLength lengths (k + 1)) hn hrank
  simp only [length_symbolsOfLength] at hget
  rw [getElem?_symbolsOfLength h, ← shorter] at hget
  obtain ⟨hlt, heq⟩ := List.getElem?_eq_some_iff.1 hget
  have hlt' : shorter lengths n + rank lengths (n + 1) symbol < (Code.ofLengths lengths).symbols.size := hlt
  refine ⟨hlt', ?_⟩
  rw [getElem!_pos (Code.ofLengths lengths).symbols _ hlt']
  exact heq

theorem counts_ofLengths {n : Nat} (hn : n < maxWordLength) :
    (Code.ofLengths lengths).counts[n + 1]! = lengths.count (n + 1) := by
  have hget : (0 :: ((List.range maxWordLength).map fun n =>
      Code.symbolsOfLength lengths (n + 1)).map List.length)[n + 1]? = some (lengths.count (n + 1)) := by
    simp [hn, length_symbolsOfLength]
  obtain ⟨hlt, heq⟩ := List.getElem?_eq_some_iff.1 hget
  have hlt' : n + 1 < (Code.ofLengths lengths).counts.size := hlt
  rw [getElem!_pos (Code.ofLengths lengths).counts _ hlt']
  exact heq

/-! ### One bit -/

theorem completes_singleton_iff {n number : Nat} {b : Bool} : Completes lengths n number [b] symbol ↔
    n < maxWordLength ∧ lengths[symbol]? = some (n + 1) ∧
      2 * number + b.toNat = firstWord lengths n + rank lengths (n + 1) symbol :=
  ⟨fun h => ⟨h.short, h.length, h.number⟩, fun ⟨hshort, hlength, hnumber⟩ => ⟨by simp, hshort, hlength, hnumber⟩⟩

theorem completes_cons_iff {n number : Nat} {b : Bool} (hw : w ≠ []) :
    Completes lengths n number (b :: w) symbol ↔ Completes lengths (n + 1) (2 * number + b.toNat) w symbol := by
  have hlength : n + (b :: w).length = n + 1 + w.length := by
    rw [List.length_cons]
    omega
  constructor
  · rintro ⟨-, hshort, hsymbol, hnumber⟩
    rw [hlength] at hshort hsymbol hnumber
    exact ⟨hw, hshort, hsymbol, hnumber⟩
  · rintro ⟨-, hshort, hsymbol, hnumber⟩
    rw [← hlength] at hshort hsymbol hnumber
    exact ⟨by simp, hshort, hsymbol, hnumber⟩

/-- Behind the last word of a length stands no word of the length. -/
theorem Completes.lt {n number : Nat} {b : Bool} (h : Completes lengths n number [b] symbol) :
    2 * number + b.toNat < firstWord lengths n + lengths.count (n + 1) := by
  obtain ⟨-, hsymbol, hnumber⟩ := completes_singleton_iff.1 h
  have := rank_lt hsymbol
  omega

/-- A number up to the last word of its length is the word of the symbol that stands in its place. -/
theorem completes_singleton_iff_symbols {n number : Nat} {b : Bool} (hn : n < maxWordLength)
    (hfirst : firstWord lengths n ≤ 2 * number + b.toNat)
    (hlast : 2 * number + b.toNat < firstWord lengths n + lengths.count (n + 1)) :
    Completes lengths n number [b] symbol ↔ (Code.ofLengths lengths).symbols[shorter lengths n +
      (2 * number + b.toNat - firstWord lengths n)]! = symbol := by
  have hbelow : 2 * number + b.toNat - firstWord lengths n < lengths.count (n + 1) := by omega
  obtain ⟨found, hfound, hrank⟩ := exists_rank_eq hbelow
  rw [completes_singleton_iff, ← hrank, (symbols_ofLengths hn hfound).2]
  constructor
  · rintro ⟨-, hsymbol, hnumber⟩
    have heq : rank lengths (n + 1) found = rank lengths (n + 1) symbol := by omega
    rw [← (symbols_ofLengths hn hfound).2, heq, (symbols_ofLengths hn hsymbol).2]
  · rintro rfl
    exact ⟨hn, hfound, by omega⟩

/-- A number that is the end of no word so far is not below the last word of its length. -/
theorem Completes.le {n number : Nat} (h : Completes lengths (n + 1) number w symbol) :
    firstWord lengths n + lengths.count (n + 1) ≤ number := by
  by_contra hlt
  have hbelow := numberOn_lt (Nat.lt_of_not_le hlt) h.ne_nil
  have hnumber := h.number
  have hlength : n + 1 + w.length - 1 = n + w.length := by omega
  rw [hlength] at hnumber
  omega

/-- Where a word is still to be completed, the table goes on behind the words that are shorter. -/
theorem Completes.shorter_lt {n number : Nat} (h : Completes lengths n number w symbol) :
    shorter lengths n < (Code.ofLengths lengths).symbols.size := by
  have hpos := List.length_pos_of_ne_nil h.ne_nil
  have hshort := h.short
  obtain ⟨k, hk⟩ : ∃ k, n + w.length = n + k + 1 := ⟨w.length - 1, by omega⟩
  have hlt := (symbols_ofLengths (n := n + k) (by omega) (hk ▸ h.length)).1
  have hmono : ∀ j, shorter lengths n ≤ shorter lengths (n + j) := by
    intro j
    induction j with
    | zero => exact Nat.le_refl _
    | succ j ih =>
      rw [← Nat.add_assoc, shorter_succ]
      omega
  have := hmono k
  omega

/-! ### Reading words -/

/-- Where no bit can be read, no word begins. -/
theorem eq_nil_of_readBit {fault : Fault} (h : readBit data pos = .error fault)
    (hw : Within (dataBits data) pos next w) : w = [] := by
  cases w with
  | nil => rfl
  | cons b w =>
    obtain ⟨mid, hb, -⟩ := Within.append_iff.1 (List.singleton_append ▸ hw)
    rw [readBit_eq_ok.2 ⟨b, hb, rfl⟩] at h
    cases h

/-- A word that goes on with a bit is that bit, or the bit and the rest of the word. -/
theorem exists_completes_iff {n number mid : Nat} {b : Bool} (hb : Within (dataBits data) pos mid [b]) :
    (∃ w, Within (dataBits data) pos next w ∧ Completes lengths n number w symbol) ↔
      (next = mid ∧ Completes lengths n number [b] symbol) ∨
      ∃ w, Within (dataBits data) mid next w ∧ Completes lengths (n + 1) (2 * number + b.toNat) w symbol := by
  constructor
  · rintro ⟨w, hwithin, hw⟩
    obtain ⟨c, w, rfl⟩ := List.exists_cons_of_ne_nil hw.ne_nil
    obtain ⟨mid', hc, hrest⟩ := Within.append_iff.1 (List.singleton_append ▸ hwithin)
    obtain rfl : mid' = mid := hc.next_eq.trans hb.next_eq.symm
    obtain ⟨rfl, -⟩ := List.cons.inj (hc.unique hb)
    rcases eq_or_ne w [] with rfl | hne
    · exact .inl ⟨(Within.nil_iff.1 hrest).1.symm, hw⟩
    · exact .inr ⟨w, hrest, (completes_cons_iff hne).1 hw⟩
  · rintro (⟨rfl, hw⟩ | ⟨w, hrest, hw⟩)
    · exact ⟨[b], hb, hw⟩
    · exact ⟨b :: w, hb.append hrest, (completes_cons_iff hw.ne_nil).2 hw⟩

/-- The reader finds a symbol just if the bits that it takes complete the symbol's word. -/
theorem decodeFrom_eq_ok {left n number : Nat} (hn : n + left = maxWordLength)
    (hnumber : firstWord lengths n ≤ 2 * number) :
    (Code.ofLengths lengths).decodeFrom data number (firstWord lengths n) (shorter lengths n) left pos =
        .ok (symbol, next) ↔
      ∃ w, Within (dataBits data) pos next w ∧ Completes lengths n number w symbol := by
  induction left generalizing n number pos with
  | zero =>
    rw [Code.decodeFrom]
    refine ⟨nofun, fun ⟨w, _, hw⟩ => ?_⟩
    have hpos := List.length_pos_of_ne_nil hw.ne_nil
    have hshort := hw.short
    omega
  | succ left ih =>
    rw [Code.decodeFrom]
    cases hbit : readBit data pos with
    | error fault => exact ⟨nofun, fun ⟨w, hwithin, hw⟩ => absurd (eq_nil_of_readBit hbit hwithin) hw.ne_nil⟩
    | ok read =>
      obtain ⟨bit, mid⟩ := read
      obtain ⟨b, hb, rfl⟩ := readBit_eq_ok.1 hbit
      have hleft : maxWordLength - left = n + 1 := by omega
      have hshort : n < maxWordLength := by omega
      have hcount : (Code.ofLengths lengths).counts[maxWordLength - left]! = lengths.count (n + 1) := by
        rw [hleft, counts_ofLengths hshort]
      rw [exists_completes_iff hb]
      simp only [hcount, ← shorter_succ]
      split_ifs with hword hend
      · -- the number is a word, so that no longer word begins with it
        rw [completes_singleton_iff_symbols hshort (by omega) hword, Except.ok.injEq, Prod.mk.injEq]
        constructor
        · rintro ⟨hsymbol, rfl⟩
          exact .inl ⟨rfl, hsymbol⟩
        · rintro (⟨rfl, hsymbol⟩ | ⟨w, -, hw⟩)
          · exact ⟨hsymbol, rfl⟩
          · exact absurd hword (Nat.not_lt_of_le hw.le)
      · -- no word is left that the number could begin
        refine ⟨nofun, ?_⟩
        rintro (⟨-, hw⟩ | ⟨w, -, hw⟩)
        · exact absurd hw.lt hword
        · exact absurd hw.shorter_lt (Nat.not_lt_of_le hend)
      · rw [← firstWord, ih (by omega) (by rw [firstWord]; omega)]
        refine ⟨.inr, ?_⟩
        rintro (⟨-, hw⟩ | hw)
        · exact absurd hw.lt hword
        · exact hw

/-- A code of given lengths reads the words of the lengths. -/
theorem decode_eq_ok : (Code.ofLengths lengths).decode data pos = .ok (symbol, next) ↔
    ∃ w, Within (dataBits data) pos next w ∧ IsWord lengths w symbol :=
  decodeFrom_eq_ok (Nat.zero_add _) (Nat.zero_le _)

end ImageAssembly.Gzip
