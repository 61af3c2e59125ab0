import ImageAssembly.Text.Cut
import ImageAssembly.Text.Hexadecimal
import Mathlib.Computability.RegularExpressions

/-! Regular expressions for names that are cut at separators. A name is made of words with single separators
between them just if each of its pieces is a word. -/

namespace ImageAssembly

open RegularExpression

namespace Text

/-! ### Expressions -/

/-- One of some characters. -/
def oneOf (cs : List Char) : RegularExpression Char := (cs.map char).foldr (· + ·) 0

def oneOrMore (r : RegularExpression Char) : RegularExpression Char := r * r.star

/-- Items with a separator between every two. -/
def separated (item sep : RegularExpression Char) : RegularExpression Char := item * (sep * item).star

theorem mem_oneOf {cs s : List Char} : s ∈ (oneOf cs).matches' ↔ ∃ c ∈ cs, s = [c] := by
  induction cs with
  | nil => simp [oneOf]
  | cons c cs ih =>
    have hcons : oneOf (c :: cs) = char c + oneOf cs := rfl
    rw [hcons, matches'_add, Language.mem_add, ih, matches'_char, List.exists_mem_cons_iff]
    exact or_congr Set.mem_singleton_iff Iff.rfl

theorem mem_oneOrMore_oneOf {cs s : List Char} :
    s ∈ (oneOrMore (oneOf cs)).matches' ↔ s ≠ [] ∧ ∀ c ∈ s, c ∈ cs := by
  rw [oneOrMore, matches'_mul, matches'_star, Language.mem_mul]
  constructor
  · rintro ⟨a, ha, b, hb, rfl⟩
    obtain ⟨c, hc, rfl⟩ := mem_oneOf.1 ha
    obtain ⟨words, rfl, hwords⟩ := Language.mem_kstar.1 hb
    refine ⟨by simp, fun d hd => ?_⟩
    rcases List.mem_cons.1 hd with rfl | hd
    · exact hc
    · obtain ⟨word, hword, hd⟩ := List.mem_flatten.1 hd
      obtain ⟨e, he, rfl⟩ := mem_oneOf.1 (hwords word hword)
      rwa [List.mem_singleton.1 hd]
  · rintro ⟨hne, hall⟩
    obtain ⟨c, s, rfl⟩ := List.exists_cons_of_ne_nil hne
    refine ⟨[c], mem_oneOf.2 ⟨c, hall c (by simp), rfl⟩, s, Language.mem_kstar.2 ⟨s.map ([·]), ?_, ?_⟩, rfl⟩
    · rw [← List.flatMap_def, List.flatMap_singleton']
    · intro word hword
      obtain ⟨d, hd, rfl⟩ := List.mem_map.1 hword
      exact mem_oneOf.2 ⟨d, hall d (by simp [hd]), rfl⟩

/-! ### Pieces -/

variable {isSep : Char → Bool}

/-- A text is put together again from its pieces and the separators before all but the first. -/
theorem exists_pieces_eq (isSep : Char → Bool) (s : List Char) : ∃ (p : List Char) (ws : List (Char × List Char)),
    pieces isSep s = p :: ws.map (·.2) ∧ s = p ++ (ws.map fun w => w.1 :: w.2).flatten ∧
      ∀ w ∈ ws, isSep w.1 = true := by
  induction s with
  | nil => exact ⟨[], [], rfl, rfl, by simp⟩
  | cons c s ih =>
    obtain ⟨p, ws, hpieces, hs, hseps⟩ := ih
    by_cases hc : isSep c = true
    · refine ⟨[], (c, p) :: ws, by rw [pieces, if_pos hc, hpieces]; rfl, ?_, by simpa [hc] using hseps⟩
      rw [hs]
      rfl
    · exact ⟨c :: p, ws, by rw [pieces, if_neg hc, hpieces], by rw [hs]; rfl, hseps⟩

theorem pieces_append_cons {sep : Char} (hsep : isSep sep = true) (a b : List Char) :
    pieces isSep (a ++ sep :: b) = pieces isSep a ++ pieces isSep b := by
  induction a with
  | nil => simp [pieces, hsep]
  | cons c a ih =>
    obtain ⟨p, ws, hpieces, -⟩ := exists_pieces_eq isSep a
    rw [List.cons_append, pieces, pieces, ih, hpieces]
    split_ifs <;> rfl

theorem pieces_of_forall {s : List Char} (h : ∀ c ∈ s, isSep c = false) : pieces isSep s = [s] := by
  induction s with
  | nil => rfl
  | cons c s ih => rw [pieces, if_neg (by simp [h c]), ih fun d hd => h d (by simp [hd])]

theorem mem_pieces {c : Char} {s : List Char} (h : c ∈ s) (hsep : isSep c = false) :
    ∃ p ∈ pieces isSep s, c ∈ p := by
  obtain ⟨p, ws, hpieces, rfl, hseps⟩ := exists_pieces_eq isSep s
  rw [hpieces]
  rcases List.mem_append.1 h with h | h
  · exact ⟨p, by simp, h⟩
  · obtain ⟨part, hpart, hc⟩ := List.mem_flatten.1 h
    obtain ⟨w, hw, rfl⟩ := List.mem_map.1 hpart
    rcases List.mem_cons.1 hc with rfl | hc
    · exact absurd (hseps w hw) (by simp [hsep])
    · exact ⟨w.2, List.mem_cons_of_mem _ (List.mem_map_of_mem hw), hc⟩

/-- A text is made of items with single separators between them just if its pieces are items. -/
theorem mem_separated {item : RegularExpression Char} {seps s : List Char} (hsep : ∀ c, isSep c = true ↔ c ∈ seps)
    (hitem : ∀ p ∈ item.matches', ∀ c ∈ p, isSep c = false) :
    s ∈ (separated item (oneOf seps)).matches' ↔ ∀ p ∈ pieces isSep s, p ∈ item.matches' := by
  rw [separated, matches'_mul, matches'_star, matches'_mul, Language.mem_mul]
  constructor
  · rintro ⟨a, ha, b, hb, rfl⟩
    obtain ⟨words, rfl, hwords⟩ := Language.mem_kstar.1 hb
    clear hb
    -- each word is a separator with the next item, so that one piece ends before it
    induction words generalizing a with
    | nil => simpa [pieces_of_forall (hitem a ha)] using ha
    | cons word words ih =>
      obtain ⟨x, hx, q, hq, rfl⟩ := Language.mem_mul.1 (hwords word (by simp))
      obtain ⟨c, hc, rfl⟩ := mem_oneOf.1 hx
      rw [List.flatten_cons, List.singleton_append, List.cons_append, pieces_append_cons ((hsep c).2 hc),
        pieces_of_forall (hitem a ha)]
      have hrest := ih q hq fun word hword => hwords word (by simp [hword])
      simpa [ha] using hrest
  · intro h
    obtain ⟨p, ws, hpieces, rfl, hseps⟩ := exists_pieces_eq isSep s
    rw [hpieces, List.forall_mem_cons, List.forall_mem_map] at h
    refine ⟨p, h.1, _, Language.mem_kstar.2 ⟨_, rfl, fun word hword => ?_⟩, rfl⟩
    obtain ⟨w, hw, rfl⟩ := List.mem_map.1 hword
    exact Language.mem_mul.2 ⟨[w.1], mem_oneOf.2 ⟨w.1, (hsep _).1 (hseps w hw), rfl⟩, w.2, h.2 w hw, rfl⟩

end Text

/-! ### Characters -/

/-- A list has just the characters of a class that is made of ranges if it has all characters of these and no others. -/
theorem mem_iff_of_ranges {p : Char → Bool} {cs : List Char} (ranges : List (Char × Char))
    (hp : ∀ c, p c = true → ∃ r ∈ ranges, r.1 ≤ c ∧ c ≤ r.2) (all : cs.all p = true)
    (table : ∀ r ∈ ranges, ∀ n < r.2.toNat + 1, r.1.toNat ≤ n → Char.ofNat n ∈ cs) {c : Char} :
    c ∈ cs ↔ p c = true :=
  ⟨List.all_eq_true.1 all c, fun h => Text.of_ranges ranges table (hp c h)⟩

theorem inRange_of_isLower {c : Char} (h : c.isLower = true) : 'a' ≤ c ∧ c ≤ 'z' := by
  have hlower : c.isLower = (decide ('a' ≤ c) && decide (c ≤ 'z')) := rfl
  simpa [hlower] using h

theorem inRange_of_isDigit {c : Char} (h : c.isDigit = true) : '0' ≤ c ∧ c ≤ '9' := by
  have hdigit : c.isDigit = (decide ('0' ≤ c) && decide (c ≤ '9')) := rfl
  simpa [hdigit] using h

def lowerAlphanumerics : List Char := "abcdefghijklmnopqrstuvwxyz0123456789".toList

theorem mem_lowerAlphanumerics {c : Char} : c ∈ lowerAlphanumerics ↔ c.isLower = true ∨ c.isDigit = true := by
  rw [← Bool.or_eq_true]
  refine mem_iff_of_ranges (p := fun c => c.isLower || c.isDigit) [('a', 'z'), ('0', '9')] (fun c h => ?_) (by decide)
    (by decide)
  rcases Bool.or_eq_true_iff.1 h with hc | hc
  · exact ⟨('a', 'z'), by simp, inRange_of_isLower hc⟩
  · exact ⟨('0', '9'), by simp, inRange_of_isDigit hc⟩

end ImageAssembly
