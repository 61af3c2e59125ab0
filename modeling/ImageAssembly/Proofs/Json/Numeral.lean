import ImageAssembly.Json.Number
import ImageAssembly.Proofs.Text.Bytes
import ImageAssembly.Proofs.Text.Digits

/-! Numerals and their written form. Every number is written as a numeral with at least one digit before
the point and no leading zero, so the reader of tokens finds the numeral again, whatever follows it that
ends a number. -/

namespace ImageAssembly.Json

open Decimal Digits

/-! ### Numerals as text -/

/-- The written form of a numeral. A fraction without digits has no point, an exponent always a sign. -/
def Numeral.render (n : Numeral) : List Char :=
  (if n.negative then ['-'] else []) ++ (n.whole.map Nat.digitChar
    ++ ((if n.fraction = [] then [] else '.' :: n.fraction.map Nat.digitChar)
    ++ match n.exponent with
      | none => []
      | some (negative, ds) => 'e' :: (if negative then '-' else '+') :: ds.map Nat.digitChar))

/-- What the reader of tokens asks of a numeral: digits, with no leading zero. -/
structure Numeral.IsProper (n : Numeral) : Prop where
  whole_ne_nil : n.whole ≠ []
  whole_head : n.whole.head? = some 0 → n.whole = [0]
  whole_lt : ∀ d ∈ n.whole, d < 10
  fraction_lt : ∀ d ∈ n.fraction, d < 10
  exponent_ne_nil : ∀ e ∈ n.exponent, e.2 ≠ []
  exponent_lt : ∀ e ∈ n.exponent, ∀ d ∈ e.2, d < 10

/-- The numeral of an integer. -/
def integerNumeral (n : Int) : Numeral := ⟨decide (n < 0), decimalDigits n.natAbs, [], none⟩

theorem isProper_integerNumeral (n : Int) : (integerNumeral n).IsProper where
  whole_ne_nil := decimalDigits_ne_nil _
  whole_head h := by
    rcases Nat.eq_zero_or_pos n.natAbs with h0 | h0
    · simp [integerNumeral, h0, decimalDigits_zero]
    · exact absurd h (head?_decimalDigits h0)
  whole_lt d h := lt_of_mem_decimalDigits h
  fraction_lt d h := by simp [integerNumeral] at h
  exponent_ne_nil e h := by simp [integerNumeral] at h
  exponent_lt e h := by simp [integerNumeral] at h

theorem render_integerNumeral (n : Int) : (integerNumeral n).render = renderInteger n := by
  by_cases h : n < 0
  · simp [Numeral.render, renderInteger, integerNumeral, h, toDigits_eq_map]
  · have : n.natAbs = n.toNat := by omega
    simp [Numeral.render, renderInteger, integerNumeral, h, toDigits_eq_map, this]

end ImageAssembly.Json
