import ImageAssembly.Json.Value
import ImageAssembly.Proofs.Json.Numeral
import Mathlib.Tactic.IntervalCases

/-! The tokens of written values. A number ends where a byte follows that may end it, all other tokens by
themselves; so the bytes of a written value, followed by the end of the text or by a byte that can follow a
value, are read as the tokens of the value, and reading goes on between tokens. -/

namespace ImageAssembly.Json

open Bytes

/-! ### Bytes of a written form -/

/-- The bytes of characters. -/
def bytesOf (cs : List Char) : List UInt8 := cs.flatMap String.utf8EncodeChar

@[simp] theorem bytesOf_nil : bytesOf [] = [] := rfl

theorem bytesOf_cons (c : Char) (cs : List Char) :
    bytesOf (c :: cs) = String.utf8EncodeChar c ++ bytesOf cs := rfl

@[simp] theorem bytesOf_append (a b : List Char) : bytesOf (a ++ b) = bytesOf a ++ bytesOf b :=
  List.flatMap_append

/-- A character below 128 is one byte. -/
theorem bytesOf_ascii {c : Char} (cs : List Char) (h : c.toNat < 128) :
    bytesOf (c :: cs) = c.toNat.toUInt8 :: bytesOf cs := by
  rw [bytesOf_cons, utf8EncodeChar_of_lt h]
  rfl

/-- The byte of a decimal digit. -/
def digitByte (d : Nat) : UInt8 := (0x30 + d).toUInt8

theorem bytesOf_digits {ds : List Nat} (h : ∀ d ∈ ds, d < 10) :
    bytesOf (ds.map Nat.digitChar) = ds.map digitByte := by
  have key : ∀ d < 10, (Nat.digitChar d).toNat < 128 ∧ (Nat.digitChar d).toNat.toUInt8 = digitByte d := by
    decide
  induction ds with
  | nil => rfl
  | cons d ds ih =>
    obtain ⟨h1, h2⟩ := key d (h d (by simp))
    rw [List.map_cons, bytesOf_ascii _ h1, h2, ih fun e he => h e (by simp [he])]
    rfl

theorem digit?_digitByte : ∀ d < 10, digit? (digitByte d) = some d := by decide

theorem begin_digitByte {d : Nat} (h : d < 10) : State.begin (digitByte d) =
    ([], some (.number ⟨if d = 0 then .zero else .whole, ⟨false, [d], [], none⟩⟩)) := by
  interval_cases d <;> rfl

/-! ### Numbers -/

/-- What may follow a value: nothing, or a comma or the end of a container. -/
def EndsValue : List UInt8 → Prop
  | [] => True
  | b :: _ => b = 0x2C ∨ b = 0x5D ∨ b = 0x7D

/-- The number is complete where a value ends. -/
theorem tokensFrom_number_end {acc : List Token} {p : Partial} {rest : List UInt8}
    (hp : p.part.mayEnd = true) (hr : EndsValue rest) :
    tokensFrom acc (.number p) rest = tokensFrom (p.numeralToken :: acc) .between rest := by
  obtain ⟨part, n⟩ := p
  cases rest with
  | nil => simp [tokensFrom, State.finish]
  | cons b r =>
    have hover : (Partial.mk part n).advance b = .over := by
      rcases hr with rfl | rfl | rfl <;> cases part <;> simp_all [Part.mayEnd] <;> rfl
    simp only [tokensFrom, State.step, hover]
    rcases State.begin b with ⟨ts, _ | s⟩ <;> simp

theorem tokensFrom_whole {acc : List Token} {n : Numeral} {ds : List Nat} {rest : List UInt8}
    (h : ∀ d ∈ ds, d < 10) :
    tokensFrom acc (.number ⟨.whole, n⟩) (ds.map digitByte ++ rest) =
      tokensFrom acc (.number ⟨.whole, { n with whole := ds.reverse ++ n.whole }⟩) rest := by
  induction ds generalizing n with
  | nil => rfl
  | cons d ds ih =>
    have hd := digit?_digitByte d (h d (by simp))
    rw [List.map_cons, List.cons_append, tokensFrom]
    simp only [State.step, Partial.advance, hd]
    rw [List.reverse_nil, List.nil_append, ih fun e he => h e (by simp [he])]
    simp

theorem tokensFrom_fraction {acc : List Token} {n : Numeral} {ds : List Nat} {rest : List UInt8}
    (h : ∀ d ∈ ds, d < 10) :
    tokensFrom acc (.number ⟨.fraction, n⟩) (ds.map digitByte ++ rest) =
      tokensFrom acc (.number ⟨.fraction, { n with fraction := ds.reverse ++ n.fraction }⟩) rest := by
  induction ds generalizing n with
  | nil => rfl
  | cons d ds ih =>
    have hd := digit?_digitByte d (h d (by simp))
    rw [List.map_cons, List.cons_append, tokensFrom]
    simp only [State.step, Partial.advance, hd]
    rw [List.reverse_nil, List.nil_append, ih fun e he => h e (by simp [he])]
    simp

theorem tokensFrom_exponent {acc : List Token} {n : Numeral} {negative : Bool} {es ds : List Nat}
    {rest : List UInt8} (h : ∀ d ∈ ds, d < 10) :
    tokensFrom acc (.number ⟨.exponent, { n with exponent := some (negative, es) }⟩)
        (ds.map digitByte ++ rest) =
      tokensFrom acc (.number ⟨.exponent, { n with exponent := some (negative, ds.reverse ++ es) }⟩)
        rest := by
  induction ds generalizing es with
  | nil => rfl
  | cons d ds ih =>
    have hd := digit?_digitByte d (h d (by simp))
    rw [List.map_cons, List.cons_append, tokensFrom]
    simp only [State.step, Partial.advance, hd, Numeral.pushExponent]
    rw [List.reverse_nil, List.nil_append, ih fun e he => h e (by simp [he])]
    simp

/-- The sign and the digits before the point. -/
theorem tokensFrom_integer (acc : List Token) (negative : Bool) {ds : List Nat} {rest : List UInt8}
    (h0 : ds ≠ []) (hh : ds.head? = some 0 → ds = [0]) (h : ∀ d ∈ ds, d < 10) :
    ∃ part, (part = .zero ∨ part = .whole) ∧
      tokensFrom acc .between (bytesOf (if negative then ['-'] else []) ++ (ds.map digitByte ++ rest)) =
        tokensFrom acc (.number ⟨part, ⟨negative, ds.reverse, [], none⟩⟩) rest := by
  obtain ⟨d, ds, rfl⟩ := List.exists_cons_of_ne_nil h0
  have hd10 : d < 10 := h d (by simp)
  have hd := digit?_digitByte d hd10
  -- the first digit opens the number, with or without a sign before it
  have hfirst : ∀ rest, tokensFrom acc .between
      (bytesOf (if negative then ['-'] else []) ++ (digitByte d :: rest)) =
      tokensFrom acc (.number ⟨if d = 0 then .zero else .whole, ⟨negative, [d], [], none⟩⟩) rest := by
    intro rest
    cases negative with
    | true =>
      have hb : bytesOf ['-'] = [0x2D] := by decide
      rw [if_pos rfl, hb, List.singleton_append, tokensFrom]
      simp [State.step, State.begin, tokensFrom, Partial.advance, hd]
    | false => simp [tokensFrom, State.step, begin_digitByte hd10]
  rw [List.map_cons, List.cons_append, hfirst]
  by_cases hz : d = 0
  · subst hz
    have := hh rfl
    simp only [List.cons.injEq, true_and] at this
    subst this
    exact ⟨.zero, .inl rfl, rfl⟩
  · rw [if_neg hz, tokensFrom_whole fun e he => h e (by simp [he])]
    exact ⟨.whole, .inr rfl, by simp⟩

/-- The point and the digits behind it. -/
theorem tokensFrom_fractionPart {acc : List Token} {part : Part} {n : Numeral} {ds : List Nat}
    {rest : List UInt8} (hp : part = .zero ∨ part = .whole) (hn : n.fraction = [])
    (h : ∀ d ∈ ds, d < 10) :
    ∃ part', (part' = .zero ∨ part' = .whole ∨ part' = .fraction) ∧
      tokensFrom acc (.number ⟨part, n⟩)
          (bytesOf (if ds = [] then [] else '.' :: ds.map Nat.digitChar) ++ rest) =
        tokensFrom acc (.number ⟨part', { n with fraction := ds.reverse }⟩) rest := by
  rcases eq_or_ne ds [] with rfl | hne
  · obtain ⟨negative, whole, fraction, exponent⟩ := n
    subst hn
    exact ⟨part, by tauto, rfl⟩
  obtain ⟨d, ds, rfl⟩ := List.exists_cons_of_ne_nil hne
  have hd := digit?_digitByte d (h d (by simp))
  refine ⟨.fraction, by simp, ?_⟩
  rw [if_neg hne, bytesOf_ascii _ (by decide), bytesOf_digits h, List.cons_append, tokensFrom]
  have hpoint : (Partial.mk part n).advance '.'.toNat.toUInt8 = .more ⟨.point, n⟩ := by
    rcases hp with rfl | rfl <;> rfl
  simp only [State.step, hpoint]
  rw [List.map_cons, List.cons_append, tokensFrom]
  simp only [State.step, Partial.advance, hd, List.reverse_nil, List.nil_append]
  rw [tokensFrom_fraction fun e he => h e (by simp [he])]
  simp [hn]

/-- The exponent with its sign. -/
theorem tokensFrom_exponentPart {acc : List Token} {part : Part} {n : Numeral} {negative : Bool}
    {ds : List Nat} {rest : List UInt8} (hp : part = .zero ∨ part = .whole ∨ part = .fraction)
    (hne : ds ≠ []) (h : ∀ d ∈ ds, d < 10) :
    tokensFrom acc (.number ⟨part, n⟩)
        (bytesOf ('e' :: (if negative then '-' else '+') :: ds.map Nat.digitChar) ++ rest) =
      tokensFrom acc (.number ⟨.exponent, { n with exponent := some (negative, ds.reverse) }⟩) rest := by
  obtain ⟨d, ds, rfl⟩ := List.exists_cons_of_ne_nil hne
  have hd := digit?_digitByte d (h d (by simp))
  have hmark : (Partial.mk part n).advance 'e'.toNat.toUInt8 =
      .more ⟨.mark, { n with exponent := some (false, []) }⟩ := by
    rcases hp with rfl | rfl | rfl <;> rfl
  have hs : (if negative then '-' else '+').toNat < 128 := by cases negative <;> decide
  have hsign : (Partial.mk .mark { n with exponent := some (false, []) }).advance
      (if negative then '-' else '+').toNat.toUInt8 =
      .more ⟨.exponentSign, { n with exponent := some (negative, []) }⟩ := by
    cases negative <;> rfl
  rw [bytesOf_ascii _ (by decide), bytesOf_ascii _ hs, bytesOf_digits h, List.cons_append, tokensFrom]
  simp only [State.step, hmark, List.reverse_nil, List.nil_append]
  rw [List.cons_append, tokensFrom]
  simp only [State.step, hsign, List.reverse_nil, List.nil_append]
  rw [List.map_cons, List.cons_append, tokensFrom]
  simp only [State.step, Partial.advance, hd, Numeral.pushExponent, List.reverse_nil, List.nil_append]
  rw [tokensFrom_exponent fun e he => h e (by simp [he])]
  simp

/-- A proper numeral is read as itself. -/
theorem tokensFrom_numeral {acc : List Token} {n : Numeral} {rest : List UInt8} (h : n.IsProper)
    (hr : EndsValue rest) :
    tokensFrom acc .between (bytesOf n.render ++ rest) =
      tokensFrom (.number n :: acc) .between rest := by
  obtain ⟨negative, whole, fraction, exponent⟩ := n
  rw [Numeral.render, bytesOf_append, bytesOf_append, bytesOf_append, bytesOf_digits h.whole_lt]
  simp only [List.append_assoc]
  obtain ⟨p, hp, h1⟩ := tokensFrom_integer acc negative h.whole_ne_nil h.whole_head h.whole_lt
  rw [h1]
  obtain ⟨q, hq, h2⟩ := tokensFrom_fractionPart (n := ⟨negative, whole.reverse, [], none⟩) hp rfl
    h.fraction_lt
  rw [h2]
  cases exponent with
  | none =>
    have hend : q.mayEnd = true := by rcases hq with rfl | rfl | rfl <;> rfl
    rw [bytesOf_nil, List.nil_append, tokensFrom_number_end hend hr]
    simp [Partial.numeralToken, hend]
  | some e =>
    rw [tokensFrom_exponentPart hq (h.exponent_ne_nil e rfl) (h.exponent_lt e rfl),
      tokensFrom_number_end rfl hr]
    simp [Partial.numeralToken, Part.mayEnd]

end ImageAssembly.Json
