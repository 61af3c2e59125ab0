import ImageAssembly.Proofs.Text.Bytes
import ImageAssembly.Proofs.Text.Grammar
import ImageAssembly.Tag

/-! Regular expressions for the parts of image names. Tags, registries and the components of repositories are
accepted just if they match them. -/

namespace ImageAssembly

open RegularExpression

/-! ### Reading an expression character by character -/

namespace Text

variable {cs s : List Char} {c d : Char} {l : Language Char}

theorem mem_char_mul : s ∈ (char d).matches' * l ↔ ∃ r, s = d :: r ∧ r ∈ l := by
  rw [matches'_char, Language.mem_mul]
  constructor
  · rintro ⟨_, rfl, b, hb, rfl⟩
    exact ⟨b, rfl, hb⟩
  · rintro ⟨r, rfl, hr⟩
    exact ⟨[d], rfl, r, hr, rfl⟩

theorem mem_oneOf_mul : s ∈ (oneOf cs).matches' * l ↔ ∃ c r, s = c :: r ∧ c ∈ cs ∧ r ∈ l := by
  rw [Language.mem_mul]
  constructor
  · rintro ⟨a, ha, b, hb, rfl⟩
    obtain ⟨c, hc, rfl⟩ := mem_oneOf.1 ha
    exact ⟨c, b, rfl, hc, hb⟩
  · rintro ⟨c, r, rfl, hc, hr⟩
    exact ⟨[c], mem_oneOf.2 ⟨c, hc, rfl⟩, r, hr, rfl⟩

theorem cons_mem_oneOf_mul : c :: s ∈ (oneOf cs).matches' * l ↔ c ∈ cs ∧ s ∈ l := by
  simp [mem_oneOf_mul]

/-- Up to a number of some characters. -/
theorem mem_atMost {n : Nat} : s ∈ ((1 + oneOf cs) ^ n).matches' ↔ s.length ≤ n ∧ ∀ c ∈ s, c ∈ cs := by
  induction n generalizing s with
  | zero =>
    rw [matches'_pow, pow_zero, Language.mem_one]
    cases s <;> simp
  | succ n ih =>
    have hstep : ((1 + oneOf cs) ^ (n + 1)).matches' =
        ((1 + oneOf cs) ^ n).matches' + (oneOf cs).matches' * ((1 + oneOf cs) ^ n).matches' := by
      simp only [matches'_pow, matches'_add, matches'_epsilon, pow_succ', add_mul, one_mul]
    rw [hstep, Language.mem_add, ih, mem_oneOf_mul]
    cases s with
    | nil => simp
    | cons c s =>
      simp only [List.cons.injEq, List.length_cons, List.forall_mem_cons]
      constructor
      · rintro (⟨hlen, hall⟩ | ⟨_, _, ⟨rfl, rfl⟩, hc, hs⟩)
        · exact ⟨by omega, hall⟩
        · exact ⟨by have := (ih.1 hs).1; omega, hc, (ih.1 hs).2⟩
      · rintro ⟨hlen, hc, hall⟩
        exact .inr ⟨c, s, ⟨rfl, rfl⟩, hc, ih.2 ⟨by omega, hall⟩⟩

end Text

/-! ### Characters -/

def digits : List Char := "0123456789".toList

def upperLetters : List Char := "ABCDEFGHIJKLMNOPQRSTUVWXYZ".toList

def alphanumerics : List Char := upperLetters ++ lowerAlphanumerics

theorem isAlphanum_eq (c : Char) : c.isAlphanum = (c.isUpper || c.isLower || c.isDigit) := rfl

theorem mem_digits {c : Char} : c ∈ digits ↔ c.isDigit = true :=
  mem_iff_of_ranges [('0', '9')] (fun _ h => ⟨_, List.mem_singleton_self _, inRange_of_isDigit h⟩) (by decide)
    (by decide)

theorem inRange_of_isUpper {c : Char} (h : c.isUpper = true) : 'A' ≤ c ∧ c ≤ 'Z' := by
  have hupper : c.isUpper = decide ('A' ≤ c ∧ c ≤ 'Z') := rfl
  simpa [hupper] using h

theorem mem_upperLetters {c : Char} : c ∈ upperLetters ↔ c.isUpper = true :=
  mem_iff_of_ranges [('A', 'Z')] (fun _ h => ⟨_, List.mem_singleton_self _, inRange_of_isUpper h⟩) (by decide)
    (by decide)

theorem mem_alphanumerics {c : Char} : c ∈ alphanumerics ↔ c.isAlphanum = true := by
  rw [alphanumerics, List.mem_append, mem_upperLetters, mem_lowerAlphanumerics, isAlphanum_eq]
  simp [or_assoc]

namespace Tag

/-! ### Tags -/

def tagChars : List Char := alphanumerics ++ ['_', '.', '-']

/-- A letter, a digit or an underscore, and up to 127 more characters, among them points and hyphens. -/
def tagExpression : RegularExpression Char :=
  Text.oneOf (alphanumerics ++ ['_']) * (1 + Text.oneOf tagChars) ^ 127

theorem mem_tagChars {c : Char} : c ∈ tagChars ↔ isTagChar c = true := by
  simp [tagChars, isTagChar, mem_alphanumerics, or_assoc]

theorem toNat_of_mem_tagChars {c : Char} (h : c ∈ tagChars) : c.toNat < 128 := by
  have all : ∀ c ∈ tagChars, c.toNat < 128 := List.forall_iff_forall_mem.1 (by decide)
  exact all c h

/-- The bytes of a tag are as many as its characters. -/
theorem utf8ByteSize_of_tagChars {tag : List Char} (h : ∀ c ∈ tag, c ∈ tagChars) :
    (String.ofList tag).utf8ByteSize = tag.length := by
  have hbytes : (String.ofList tag).toUTF8.toList.length = tag.length := by
    rw [Bytes.toList_toUTF8_ofList, List.length_flatMap,
      List.map_congr_left fun c hc => by rw [Bytes.utf8EncodeChar_of_lt (toNat_of_mem_tagChars (h c hc))]]
    simp
  rw [← hbytes, Bytes.length_toList]
  rfl

theorem mem_tagExpression {c : Char} {r : List Char} : c :: r ∈ tagExpression.matches' ↔
    c ≠ '.' ∧ c ≠ '-' ∧ r.length ≤ 127 ∧ ∀ d ∈ c :: r, d ∈ tagChars := by
  have hfirst : c ∈ alphanumerics ++ ['_'] ↔ c ≠ '.' ∧ c ≠ '-' ∧ c ∈ tagChars := by
    have hdot : '.' ∉ alphanumerics := fun h => absurd (mem_alphanumerics.1 h) (by decide)
    have hhyphen : '-' ∉ alphanumerics := fun h => absurd (mem_alphanumerics.1 h) (by decide)
    rw [tagChars, List.mem_append, List.mem_append]
    by_cases h1 : c = '.'
    · simp [h1, hdot]
    · by_cases h2 : c = '-'
      · simp [h2, hhyphen]
      · simp [h1, h2]
  rw [tagExpression, matches'_mul, Text.cons_mem_oneOf_mul, Text.mem_atMost, hfirst, List.forall_mem_cons]
  tauto

theorem checkTag_eq_ok {tag : List Char} : checkTag tag = .ok () ↔ tag ∈ tagExpression.matches' := by
  cases tag with
  | nil => simp [checkTag, tagExpression, matches'_mul, Text.mem_oneOf_mul]
  | cons c r =>
    have hall : (c :: r).all isTagChar = true ↔ ∀ d ∈ c :: r, d ∈ tagChars := by
      simp [List.all_eq_true, mem_tagChars]
    have hmax : maxLength = 128 := rfl
    rw [mem_tagExpression, ← hall, checkTag]
    by_cases hstart : c = '.' ∨ c = '-'
    · rw [if_pos hstart]
      exact iff_of_false (by simp) (by tauto)
    · rw [if_neg hstart]
      rw [not_or] at hstart
      by_cases hchars : (c :: r).all isTagChar = true
      · rw [utf8ByteSize_of_tagChars (hall.1 hchars), List.length_cons, if_pos hchars]
        by_cases hlong : r.length + 1 > maxLength
        · rw [if_pos hlong]
          exact iff_of_false (by simp) fun h => by omega
        · rw [if_neg hlong]
          exact iff_of_true rfl ⟨hstart.1, hstart.2, by omega, hchars⟩
      · rw [if_neg hchars]
        refine iff_of_false ?_ fun h => hchars h.2.2.2
        split_ifs
        · exact nofun
        · exact nofun

/-! ### Registries -/

def hostChars : List Char := alphanumerics ++ ['.', '-']

/-- A host and perhaps the number of a port. -/
def registryExpression : RegularExpression Char :=
  Text.oneOrMore (Text.oneOf hostChars) * (1 + char ':' * Text.oneOrMore (Text.oneOf digits))

theorem mem_hostChars {c : Char} : c ∈ hostChars ↔ isHostChar c = true := by
  simp [hostChars, isHostChar, mem_alphanumerics, or_assoc]

theorem mem_registryExpression {s : List Char} : s ∈ registryExpression.matches' ↔
    ∃ host, (host ≠ [] ∧ ∀ c ∈ host, c ∈ hostChars) ∧
      (s = host ∨ ∃ port, (port ≠ [] ∧ ∀ c ∈ port, c ∈ digits) ∧ s = host ++ ':' :: port) := by
  rw [registryExpression, matches'_mul, Language.mem_mul]
  simp only [Text.mem_oneOrMore_oneOf, matches'_add, matches'_epsilon, matches'_mul, Language.mem_add,
    Language.mem_one]
  simp only [Text.mem_char_mul, Text.mem_oneOrMore_oneOf]
  refine exists_congr fun host => and_congr_right fun _ => ?_
  constructor
  · rintro ⟨_, rfl | ⟨port, rfl, hport⟩, rfl⟩
    · exact .inl (List.append_nil host)
    · exact .inr ⟨port, hport, rfl⟩
  · rintro (rfl | ⟨port, hport, rfl⟩)
    · exact ⟨[], .inl rfl, List.append_nil s⟩
    · exact ⟨':' :: port, .inr ⟨port, rfl, hport⟩, rfl⟩

theorem colon_not_mem_of_hostChars {host : List Char} (h : ∀ c ∈ host, c ∈ hostChars) : ':' ∉ host :=
  fun hc => absurd (mem_hostChars.1 (h _ hc)) (by decide)

theorem colon_not_mem_of_digits {port : List Char} (h : ∀ c ∈ port, c ∈ digits) : ':' ∉ port :=
  fun hc => absurd (mem_digits.1 (h _ hc)) (by decide)

/-- Whether a host and perhaps a port are well formed, once they have been told apart. -/
theorem checkRegistry_eq_ok {registry : List Char} :
    checkRegistry registry = .ok () ↔ registry ∈ registryExpression.matches' := by
  have hhost : ∀ host : List Char, (host.isEmpty || !host.all isHostChar) = false ↔
      host ≠ [] ∧ ∀ c ∈ host, c ∈ hostChars := by
    simp [mem_hostChars]
  have hport : ∀ port : List Char, (port.isEmpty || !port.all Char.isDigit) = false ↔
      port ≠ [] ∧ ∀ c ∈ port, c ∈ digits := by
    simp [mem_digits]
  rw [mem_registryExpression, checkRegistry]
  cases hcut : Text.cutLast ':' registry with
  | none =>
    have hcolon := Text.cutLast_eq_none.1 hcut
    dsimp only
    constructor
    · intro h
      refine ⟨registry, (hhost registry).1 ?_, .inl rfl⟩
      split_ifs at h with hbad
      simpa using hbad
    · rintro ⟨host, hwell, rfl | ⟨port, -, rfl⟩⟩
      · simp [(hhost registry).2 hwell]
      · simp at hcolon
  | some parts =>
    obtain ⟨host, port⟩ := parts
    obtain ⟨rfl, hlast⟩ := Text.cutLast_eq_some hcut
    dsimp only
    constructor
    · intro h
      split_ifs at h with hbad hbad'
      exact ⟨host, (hhost host).1 (by simpa using hbad), .inr ⟨port, (hport port).1 (by simpa using hbad'), rfl⟩⟩
    · rintro ⟨host', hwell, h | ⟨port', hwell', h⟩⟩
      · exact absurd (by simp [← h]) (colon_not_mem_of_hostChars hwell.2)
      · have hsame := Text.cutLast_append host' (colon_not_mem_of_digits hwell'.2)
        rw [← h, hcut, Option.some.injEq, Prod.mk.injEq] at hsame
        obtain ⟨rfl, rfl⟩ := hsame
        simp [(hhost host).2 hwell, (hport port).2 hwell']

/-! ### Components -/

/-- What stands between two runs. -/
def separators : RegularExpression Char := char '.' + char '_' + char '_' * char '_' + char '-'

/-- Runs of lower-case letters and digits with single separators between them. -/
def componentExpression : RegularExpression Char :=
  Text.separated (Text.oneOrMore (Text.oneOf lowerAlphanumerics)) separators

/-- What may follow a letter or a digit of a component. -/
def componentTail : RegularExpression Char :=
  (Text.oneOf lowerAlphanumerics).star * (separators * Text.oneOrMore (Text.oneOf lowerAlphanumerics)).star

theorem matches'_componentExpression : componentExpression.matches' =
    (Text.oneOf lowerAlphanumerics).matches' * componentTail.matches' := by
  simp only [componentExpression, componentTail, Text.separated, Text.oneOrMore, matches'_mul, matches'_star,
    mul_assoc]

/-- The tail of a component is empty, goes on with the run or begins another one. -/
theorem matches'_componentTail : componentTail.matches' =
    1 + (Text.oneOf lowerAlphanumerics).matches' * componentTail.matches' +
      separators.matches' * componentExpression.matches' := by
  simp only [componentExpression, componentTail, Text.separated, Text.oneOrMore, matches'_mul, matches'_star]
  set l := (Text.oneOf lowerAlphanumerics).matches'
  set r := separators.matches' * (l * KStar.kstar l) with hr
  calc KStar.kstar l * KStar.kstar r
      = (1 + l * KStar.kstar l) * KStar.kstar r := by rw [Language.one_add_self_mul_kstar_eq_kstar]
    _ = KStar.kstar r + l * (KStar.kstar l * KStar.kstar r) := by rw [add_mul, one_mul, mul_assoc]
    _ = 1 + r * KStar.kstar r + l * (KStar.kstar l * KStar.kstar r) := by
      rw [Language.one_add_self_mul_kstar_eq_kstar]
    _ = _ := by rw [add_right_comm, hr, mul_assoc]

theorem mem_separators_mul {s : List Char} {l : Language Char} : s ∈ separators.matches' * l ↔
    ∃ r, r ∈ l ∧ (s = '.' :: r ∨ s = '-' :: r ∨ s = '_' :: r ∨ s = '_' :: '_' :: r) := by
  simp only [separators, matches'_add, matches'_mul, add_mul, mul_assoc, Language.mem_add, Text.mem_char_mul]
  constructor
  · rintro (((⟨r, rfl, hr⟩ | ⟨r, rfl, hr⟩) | ⟨_, rfl, r, rfl, hr⟩) | ⟨r, rfl, hr⟩) <;> exact ⟨r, hr, by simp⟩
  · rintro ⟨r, hr, rfl | rfl | rfl | rfl⟩
    · exact .inl (.inl (.inl ⟨r, rfl, hr⟩))
    · exact .inr ⟨r, rfl, hr⟩
    · exact .inl (.inl (.inr ⟨r, rfl, hr⟩))
    · exact .inl (.inr ⟨'_' :: r, rfl, r, rfl, hr⟩)

theorem nil_not_mem_componentExpression : [] ∉ componentExpression.matches' := by
  simp [matches'_componentExpression, Text.mem_oneOf_mul]

theorem cons_mem_componentExpression {c : Char} {r : List Char} :
    c :: r ∈ componentExpression.matches' ↔ c ∈ lowerAlphanumerics ∧ r ∈ componentTail.matches' := by
  rw [matches'_componentExpression, Text.cons_mem_oneOf_mul]

theorem nil_mem_componentTail : [] ∈ componentTail.matches' := by
  rw [matches'_componentTail]
  exact .inl (.inl rfl)

theorem cons_mem_componentTail {c : Char} {r : List Char} : c :: r ∈ componentTail.matches' ↔
    (c ∈ lowerAlphanumerics ∧ r ∈ componentTail.matches') ∨
      (c = '.' ∨ c = '-' ∨ c = '_') ∧ r ∈ componentExpression.matches' ∨
      c = '_' ∧ ∃ q, r = '_' :: q ∧ q ∈ componentExpression.matches' := by
  conv_lhs => rw [matches'_componentTail, Language.mem_add, Language.mem_add, Language.mem_one,
    Text.cons_mem_oneOf_mul, mem_separators_mul]
  simp only [reduceCtorEq, false_or, List.cons.injEq]
  refine or_congr_right ⟨?_, ?_⟩
  · rintro ⟨q, hq, ⟨rfl, rfl⟩ | ⟨rfl, rfl⟩ | ⟨rfl, rfl⟩ | ⟨rfl, rfl⟩⟩ <;> simp [hq]
  · rintro (⟨rfl | rfl | rfl, hr⟩ | ⟨rfl, q, rfl, hq⟩)
    · exact ⟨r, hr, by simp⟩
    · exact ⟨r, hr, by simp⟩
    · exact ⟨r, hr, by simp⟩
    · exact ⟨q, hq, by simp⟩

/-- Behind a separator a component has to begin anew, so that no other separator than a second underscore can
follow it. -/
theorem componentFrom_iff (afterSeparator : Bool) (s : List Char) : componentFrom afterSeparator s = true ↔
    s ∈ (if afterSeparator then componentExpression else componentTail).matches' := by
  have hlower : ∀ c, isLowerAlphanumeric c = true ↔ c ∈ lowerAlphanumerics := by
    simp [mem_lowerAlphanumerics, isLowerAlphanumeric]
  have hseparators : ∀ d ∈ ['.', '-', '_'], isLowerAlphanumeric d = false :=
    List.forall_iff_forall_mem.1 (by decide)
  fun_induction componentFrom afterSeparator s with
  | case1 b => cases b <;> simp [nil_not_mem_componentExpression, nil_mem_componentTail]
  | case2 b c r hc ih =>
    have hne : ¬(c = '.' ∨ c = '-' ∨ c = '_') := by
      intro hsep
      have := hseparators c (by simpa using hsep)
      simp [hc] at this
    have hu : ¬c = '_' := fun hu => hne (.inr (.inr hu))
    have hsep : ¬(c = '.' ∨ c = '-') := fun hsep => hne (hsep.imp_right .inl)
    have hmem := (hlower c).1 hc
    refine ih.trans ?_
    cases b
    · simp only [Bool.false_eq_true, if_false, cons_mem_componentTail, hmem, hu, hsep, true_and, false_and, or_false]
    · simp only [if_true, Bool.false_eq_true, if_false, cons_mem_componentExpression, hmem, true_and]
  | case3 c r hc =>
    simp [cons_mem_componentExpression, ← hlower, hc]
  | case4 b hb r hc ih =>
    simp only [Bool.not_eq_true] at hb
    subst hb
    refine ih.trans ?_
    simp [cons_mem_componentTail, cons_mem_componentExpression, ← hlower, hc]
  | case5 b hb r hr hc ih =>
    simp only [Bool.not_eq_true] at hb
    subst hb
    refine ih.trans ?_
    have hnone : ¬∃ q, r = '_' :: q ∧ q ∈ componentExpression.matches' := fun ⟨q, hq, _⟩ => hr q hq
    simp only [Bool.false_eq_true, if_false, if_true, cons_mem_componentTail, ← hlower, hc, hnone, or_true, true_and,
      false_and, false_or, or_false]
  | case6 b c r hc hb hu hsep ih =>
    simp only [Bool.not_eq_true] at hb
    subst hb
    refine ih.trans ?_
    simp only [Bool.false_eq_true, if_false, if_true, cons_mem_componentTail, ← hlower, hc, hu, hsep, true_and,
      false_and, false_or, or_false]
  | case7 b c r hc hb hu hsep =>
    simp only [Bool.not_eq_true] at hb
    subst hb
    simp only [Bool.false_eq_true, if_false, cons_mem_componentTail, ← hlower, hc, hu, hsep, false_and, or_false]

theorem isComponent_iff {component : List Char} :
    isComponent component = true ↔ component ∈ componentExpression.matches' := componentFrom_iff true component

theorem forall_of_componentFrom {afterSeparator : Bool} {s : List Char} (h : componentFrom afterSeparator s = true) :
    ∀ c ∈ s, isLowerAlphanumeric c = true ∨ c ∈ ['.', '_', '-'] := by
  fun_induction componentFrom afterSeparator s with
  | case1 b => simp
  | case2 b c r hc ih => simpa [hc] using ih h
  | case3 c r hc => cases h
  | case4 b hb r hc ih => simpa using ih h
  | case5 b hb r hr hc ih => simpa using ih h
  | case6 b c r hc hb hu hsep ih =>
    rw [List.forall_mem_cons]
    exact ⟨.inr (by simp; tauto), ih h⟩
  | case7 b c r hc hb hu hsep => cases h

/-! ### What stands between the parts -/

theorem not_mem_of_componentExpression {s : List Char} (h : s ∈ componentExpression.matches') :
    ∀ c ∈ ['/', ':', '@'], c ∉ s := by
  have hnone : ∀ c ∈ ['/', ':', '@'], ¬(isLowerAlphanumeric c = true ∨ c ∈ ['.', '_', '-']) :=
    List.forall_iff_forall_mem.1 (by decide)
  exact fun c hc hmem => hnone c hc (forall_of_componentFrom (isComponent_iff.2 h) c hmem)

theorem not_mem_of_tagExpression {s : List Char} (h : s ∈ tagExpression.matches') : ∀ c ∈ ['/', ':', '@'], c ∉ s := by
  have hnone : ∀ c ∈ ['/', ':', '@'], ¬isTagChar c = true :=
    List.forall_iff_forall_mem.1 (by decide)
  intro c hc hmem
  obtain ⟨d, r, rfl⟩ := List.exists_cons_of_ne_nil (List.ne_nil_of_mem hmem)
  exact hnone c hc (mem_tagChars.1 ((mem_tagExpression.1 h).2.2.2 c hmem))

theorem not_mem_of_registryExpression {s : List Char} (h : s ∈ registryExpression.matches') :
    ∀ c ∈ ['/', '@'], c ∉ s := by
  have hnone : ∀ c ∈ ['/', '@'], ¬(isHostChar c = true ∨ c = ':' ∨ c.isDigit = true) :=
    List.forall_iff_forall_mem.1 (by decide)
  obtain ⟨host, ⟨-, hhost⟩, hs⟩ := mem_registryExpression.1 h
  intro c hc hmem
  refine hnone c hc ?_
  rcases hs with rfl | ⟨port, ⟨-, hport⟩, rfl⟩
  · exact .inl (mem_hostChars.1 (hhost c hmem))
  · rcases List.mem_append.1 hmem with hmem | hmem
    · exact .inl (mem_hostChars.1 (hhost c hmem))
    · rcases List.mem_cons.1 hmem with rfl | hmem
      · exact .inr (.inl rfl)
      · exact .inr (.inr (mem_digits.1 (hport c hmem)))

end Tag

end ImageAssembly
