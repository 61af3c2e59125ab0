import ImageAssembly.Digest
import ImageAssembly.Proofs.Text.Grammar

/-! The texts of digests. A text is read as a digest just if it is the name of an algorithm, a colon and hexadecimal
digits. The digits may be of either case, so that a digest has several texts, one of which it is written as. -/

namespace ImageAssembly

/-! ### Names of algorithms -/

section Algorithms

variable {name : List Char} {c : Char}

/-- A character of an algorithm separates runs or stands in one. -/
theorem mem_of_isAlgorithm (h : isAlgorithm name = true) (hc : c ∈ name) :
    c ∈ ['+', '.', '_', '-'] ∨ c ∈ lowerAlphanumerics := by
  refine or_iff_not_imp_left.2 fun hsep => ?_
  obtain ⟨p, hp, hm⟩ := @Text.mem_pieces (fun c => c == '+' || c == '.' || c == '_' || c == '-') c name hc
    (Bool.eq_false_iff.2 fun h => hsep (by simpa [or_assoc] using h))
  rw [isAlgorithm, List.all_eq_true] at h
  have hrun := h p hp
  rw [Bool.and_eq_true, List.all_eq_true] at hrun
  exact mem_lowerAlphanumerics.2 (by simpa using hrun.2 c hm)

theorem colon_not_mem_of_isAlgorithm (h : isAlgorithm name = true) : ':' ∉ name :=
  fun hc => absurd (mem_of_isAlgorithm h hc) (by decide)

theorem ne_nil_of_isAlgorithm (h : isAlgorithm name = true) : name ≠ [] := by
  rintro rfl
  exact absurd h (by decide)

end Algorithms

namespace Digest

variable {s t : String} {d e : Digest} {algorithm hex name digits : List Char}

/-- The names of hash algorithms: runs of lower-case letters and digits with single separators between them. -/
def algorithmExpression : RegularExpression Char :=
  Text.separated (Text.oneOrMore (Text.oneOf lowerAlphanumerics)) (Text.oneOf ['+', '.', '_', '-'])

theorem isAlgorithm_iff : isAlgorithm name = true ↔ name ∈ algorithmExpression.matches' := by
  have hsep : ∀ c, (c == '+' || c == '.' || c == '_' || c == '-') = true ↔ c ∈ ['+', '.', '_', '-'] := by
    simp [or_assoc]
  have hnone : ∀ c ∈ lowerAlphanumerics, (c == '+' || c == '.' || c == '_' || c == '-') = false :=
    List.forall_iff_forall_mem.1 (by decide)
  rw [isAlgorithm, algorithmExpression, Text.mem_separated hsep
    fun p hp c hc => hnone c ((Text.mem_oneOrMore_oneOf.1 hp).2 c hc), List.all_eq_true]
  simp [Text.mem_oneOrMore_oneOf, mem_lowerAlphanumerics]

/-- An algorithm that leads upwards is none. -/
example : "../..".toList ∉ algorithmExpression.matches' := fun h => absurd (isAlgorithm_iff.2 h) (by decide)

/-! ### Hexadecimal digits -/

def lowerHexDigits : List Char := "0123456789abcdef".toList

/-- Hashes in lower-case hexadecimal. -/
def hexExpression : RegularExpression Char := Text.oneOrMore (Text.oneOf lowerHexDigits)

theorem mem_lowerHexDigits {c : Char} : c ∈ lowerHexDigits ↔ isLowerHexDigit c = true :=
  mem_iff_of_ranges [('0', '9'), ('a', 'f')] (fun c h => by simpa [isLowerHexDigit] using h) (by decide) (by decide)

theorem mem_lowerHexDigits_of_mem_hex {c : Char} (h : c ∈ d.hex.toList) : c ∈ lowerHexDigits :=
  mem_lowerHexDigits.2 (List.all_eq_true.1 d.hex_ok.2 c h)

def hexDigits : List Char := "0123456789abcdefABCDEF".toList

theorem mem_hexDigits {c : Char} : c ∈ hexDigits ↔ Text.Hexadecimal.isDigit c = true :=
  mem_iff_of_ranges _ (fun _ => Text.Hexadecimal.inRanges_of_isDigit) (by decide) (by decide)

/-- Hashes in hexadecimal digits of either case. -/
def eitherCaseExpression : RegularExpression Char := Text.oneOrMore (Text.oneOf hexDigits)

theorem mem_eitherCaseExpression :
    hex ∈ eitherCaseExpression.matches' ↔ hex ≠ [] ∧ hex.all Text.Hexadecimal.isDigit = true := by
  rw [eitherCaseExpression, Text.mem_oneOrMore_oneOf, List.all_eq_true]
  simp only [mem_hexDigits]

/-- Both parts of every digest match their expressions. -/
theorem matches_parts (d : Digest) :
    d.algorithm.toList ∈ algorithmExpression.matches' ∧ d.hex.toList ∈ hexExpression.matches' := by
  refine ⟨isAlgorithm_iff.1 d.algorithm_ok, Text.mem_oneOrMore_oneOf.2 ⟨?_, fun c => mem_lowerHexDigits_of_mem_hex⟩⟩
  exact fun h => d.hex_ok.1 (String.toList_inj.1 h)

theorem map_toLower_hex (d : Digest) : d.hex.toList.map Char.toLower = d.hex.toList := by
  have hlower : ∀ c ∈ lowerHexDigits, c.toLower = c := List.forall_iff_forall_mem.1 (by decide)
  rw [List.map_congr_left fun c hc => hlower c (mem_lowerHexDigits_of_mem_hex hc), List.map_id']

/-! ### Texts -/

/-- Whether a text is the name of an algorithm and hexadecimal digits with a colon between them. A hash of the
algorithm that is computed here has 64 digits. -/
structure Spells (s : String) (algorithm hex : List Char) : Prop where
  text : s.toList = algorithm ++ ':' :: hex
  algorithm_mem : algorithm ∈ algorithmExpression.matches'
  hex_mem : hex ∈ eitherCaseExpression.matches'
  length_hex : algorithm = "sha256".toList → hex.length = 64

theorem cutFirst_text (htext : s.toList = algorithm ++ ':' :: hex) (hcolon : ':' ∉ algorithm) :
    Text.cutFirst ':' s.toList = some (algorithm, hex) := by
  rw [htext]
  exact Text.cutFirst_append hex hcolon

theorem Spells.cut (h : Spells s algorithm hex) : Text.cutFirst ':' s.toList = some (algorithm, hex) :=
  cutFirst_text h.text (colon_not_mem_of_isAlgorithm (isAlgorithm_iff.2 h.algorithm_mem))

/-- A text is put together at its first colon, in no other way. -/
theorem Spells.unique (h : Spells s algorithm hex) (htext : s.toList = name ++ ':' :: digits) (hcolon : ':' ∉ name) :
    algorithm = name ∧ hex = digits := by
  have hparts := h.cut.symm.trans (cutFirst_text htext hcolon)
  rw [Option.some.injEq, Prod.mk.injEq] at hparts
  exact hparts

theorem Spells.exists_parse (h : Spells s algorithm hex) :
    ∃ d, parse s = .ok d ∧ d.algorithm.toList = algorithm ∧ d.hex.toList = hex.map Char.toLower := by
  have halgorithm := isAlgorithm_iff.2 h.algorithm_mem
  obtain ⟨hne, hhex⟩ := mem_eitherCaseExpression.1 h.hex_mem
  have hparts : ¬(algorithm = [] ∨ hex = []) := by
    rintro (hnil | hnil)
    · exact ne_nil_of_isAlgorithm halgorithm hnil
    · exact hne hnil
  have hlength : ¬(String.ofList algorithm = "sha256" ∧ hex.length ≠ 64) := by
    rintro ⟨hname, hlength⟩
    apply hlength
    apply h.length_hex
    rw [← hname, String.toList_ofList]
  unfold parse
  rw [h.cut]
  simp only [hparts, halgorithm, hhex, hlength, dif_pos, dif_neg, not_false_iff]
  exact ⟨_, rfl, String.toList_ofList, String.toList_ofList⟩

theorem exists_spells_of_parse (h : parse s = .ok d) : ∃ algorithm hex, Spells s algorithm hex := by
  unfold parse at h
  cases hcut : Text.cutFirst ':' s.toList with
  | none => simp [hcut] at h
  | some parts =>
    obtain ⟨algorithm, hex⟩ := parts
    simp only [hcut] at h
    split_ifs at h with hparts halgorithm hhex hlength
    rw [not_or] at hparts
    refine ⟨algorithm, hex, (Text.cutFirst_eq_some hcut).1, isAlgorithm_iff.1 halgorithm,
      mem_eitherCaseExpression.2 ⟨hparts.2, hhex⟩, ?_⟩
    rintro rfl
    by_contra hne
    exact hlength ⟨String.ofList_toList, hne⟩

theorem ext_parts {a b : Digest} (h1 : a.algorithm = b.algorithm) (h2 : a.hex = b.hex) : a = b := by
  cases a
  cases b
  simp_all

/-- A text is read as the digest that has its algorithm and its digits in lower case. -/
theorem parse_eq_ok :
    parse s = .ok d ↔ ∃ hex, Spells s d.algorithm.toList hex ∧ d.hex.toList = hex.map Char.toLower := by
  constructor
  · intro h
    obtain ⟨algorithm, hex, hspells⟩ := exists_spells_of_parse h
    obtain ⟨e, he, halgorithm, hhex⟩ := hspells.exists_parse
    obtain rfl : d = e := Except.ok.inj (h.symm.trans he)
    exact ⟨hex, halgorithm ▸ hspells, hhex⟩
  · rintro ⟨hex, hspells, hhex⟩
    obtain ⟨e, he, halgorithm, hlower⟩ := hspells.exists_parse
    rw [he, ext_parts (String.toList_inj.1 halgorithm) (String.toList_inj.1 (hlower.trans hhex.symm))]

/-! ### Written digests -/

theorem spells_toText (d : Digest) : Spells d.toText d.algorithm.toList d.hex.toList where
  text := by simp [toText, String.toList_append]
  algorithm_mem := d.matches_parts.1
  hex_mem := by
    have hdigits : ∀ c ∈ lowerHexDigits, c ∈ hexDigits := List.forall_iff_forall_mem.1 (by decide)
    refine Text.mem_oneOrMore_oneOf.2 ⟨fun h => d.hex_ok.1 (String.toList_inj.1 h), fun c hc => ?_⟩
    exact hdigits c (mem_lowerHexDigits_of_mem_hex hc)
  length_hex h := d.length_ok (String.toList_inj.1 h)

/-- A written digest is read back. -/
theorem parse_toText (d : Digest) : parse d.toText = .ok d :=
  parse_eq_ok.2 ⟨d.hex.toList, d.spells_toText, d.map_toLower_hex.symm⟩

theorem toText_injective : Function.Injective toText := by
  intro a b h
  have := (parse_toText a).symm.trans ((congrArg parse h).trans (parse_toText b))
  exact Except.ok.inj this

theorem toNat_of_mem_hex {c : Char} (h : c ∈ d.hex.toList) : 0 < c.toNat ∧ c.toNat < 128 := by
  have hbounds : ∀ c ∈ lowerHexDigits, 0 < c.toNat ∧ c.toNat < 128 := List.forall_iff_forall_mem.1 (by decide)
  exact hbounds c (mem_lowerHexDigits_of_mem_hex h)

/-- A written digest is made of characters other than zero and below 128. -/
theorem toNat_of_mem_toText {c : Char} (h : c ∈ d.toText.toList) : 0 < c.toNat ∧ c.toNat < 128 := by
  have hbounds : ∀ c ∈ ['+', '.', '_', '-'] ++ lowerAlphanumerics, 0 < c.toNat ∧ c.toNat < 128 :=
    List.forall_iff_forall_mem.1 (by decide)
  rw [d.spells_toText.text, List.mem_append, List.mem_cons] at h
  rcases h with h | rfl | h
  · exact hbounds c (List.mem_append.2 (mem_of_isAlgorithm d.algorithm_ok h))
  · decide
  · exact toNat_of_mem_hex h

/-! ### Texts of one digest -/

/-- Whether two texts differ at most in the case of what stands behind their first colons. -/
def SameButCase (s t : String) : Prop := ∃ name digits digits', s.toList = name ++ ':' :: digits ∧
  t.toList = name ++ ':' :: digits' ∧ ':' ∉ name ∧ digits.map Char.toLower = digits'.map Char.toLower

theorem eq_iff_sameButCase (hs : parse s = .ok d) (ht : parse t = .ok e) : d = e ↔ SameButCase s t := by
  obtain ⟨hex, hspells, hhex⟩ := parse_eq_ok.1 hs
  obtain ⟨hex', hspells', hhex'⟩ := parse_eq_ok.1 ht
  constructor
  · rintro rfl
    exact ⟨d.algorithm.toList, hex, hex', hspells.text, hspells'.text, colon_not_mem_of_isAlgorithm d.algorithm_ok,
      hhex.symm.trans hhex'⟩
  · rintro ⟨name, digits, digits', htext, htext', hcolon, hlower⟩
    obtain ⟨hname, rfl⟩ := hspells.unique htext hcolon
    obtain ⟨hname', rfl⟩ := hspells'.unique htext' hcolon
    apply ext_parts
    · exact String.toList_inj.1 (hname.trans hname'.symm)
    · exact String.toList_inj.1 (hhex.trans (hlower.trans hhex'.symm))

/-- A text is read as a digest just if it is a name of an algorithm, a colon and hexadecimal digits, and the digest has
these parts with the digits in lower case. Every digest is read back from what it is written as, and two texts are
read as the same digest just if they differ in nothing but the case of their digits. -/
theorem parse_iff_spells :
    (∀ s, (∃ d, parse s = .ok d) ↔ ∃ algorithm hex, Spells s algorithm hex) ∧
      (∀ s d, parse s = .ok d ↔ ∃ hex, Spells s d.algorithm.toList hex ∧ d.hex.toList = hex.map Char.toLower) ∧
      (∀ d, parse d.toText = .ok d) ∧
      ∀ s t d e, parse s = .ok d → parse t = .ok e → (d = e ↔ SameButCase s t) := by
  refine ⟨fun s => ⟨?_, ?_⟩, fun s d => parse_eq_ok, parse_toText, fun s t d e => eq_iff_sameButCase⟩
  · rintro ⟨d, h⟩
    exact exists_spells_of_parse h
  · rintro ⟨algorithm, hex, h⟩
    obtain ⟨d, hd, -⟩ := h.exists_parse
    exact ⟨d, hd⟩

/-- Two texts of a digest whose algorithm has a separator in its name. -/
theorem parse_iff_spells_two_cases :
    let d : Digest := ⟨"sha512+b64u", "ab0f", by decide, by decide, by decide⟩
    parse "sha512+b64u:aB0f" = .ok d ∧ parse "sha512+b64u:Ab0F" = .ok d ∧ parse "sha512+b64u:ab0f" = .ok d ∧
      SameButCase "sha512+b64u:aB0f" "sha512+b64u:Ab0F" := by
  intro d
  have hs : parse "sha512+b64u:aB0f" = .ok d := by decide +kernel
  have ht : parse "sha512+b64u:Ab0F" = .ok d := by decide +kernel
  obtain ⟨-, -, hwritten, hsame⟩ := parse_iff_spells
  exact ⟨hs, ht, hwritten d, (hsame _ _ d d hs ht).1 rfl⟩

end Digest

end ImageAssembly
