/-! Hexadecimal digits: the text of bytes, and the value of a digit of either case. -/

namespace ImageAssembly.Text

/-- What all characters of some ranges have by a table of them, every character has that stands in one. -/
theorem of_ranges {P : Char → Prop} (ranges : List (Char × Char))
    (table : ∀ r ∈ ranges, ∀ n < r.2.toNat + 1, r.1.toNat ≤ n → P (Char.ofNat n)) {c : Char}
    (h : ∃ r ∈ ranges, r.1 ≤ c ∧ c ≤ r.2) : P c := by
  obtain ⟨r, hr, hlow, hhigh⟩ := h
  have hc := table r hr c.toNat (Nat.lt_succ_of_le hhigh) hlow
  rwa [Char.ofNat_toNat] at hc

namespace Hexadecimal

/-- The lower-case digit of a value below sixteen. -/
def digit (n : Nat) : Char :=
  if n < 10 then Char.ofNat (48 + n) else Char.ofNat (87 + n)

/-- The value of a digit of either case. -/
def value? (c : Char) : Option Nat :=
  if '0' ≤ c ∧ c ≤ '9' then some (c.toNat - 48)
  else if 'a' ≤ c ∧ c ≤ 'f' then some (c.toNat - 87)
  else if 'A' ≤ c ∧ c ≤ 'F' then some (c.toNat - 55)
  else none

/-- Whether a character is a hexadecimal digit of either case. -/
def isDigit (c : Char) : Bool :=
  ('0' ≤ c && c ≤ '9') || ('a' ≤ c && c ≤ 'f') || ('A' ≤ c && c ≤ 'F')

theorem inRanges_of_isDigit {c : Char} (h : isDigit c = true) :
    ∃ r ∈ [('0', '9'), ('a', 'f'), ('A', 'F')], r.1 ≤ c ∧ c ≤ r.2 := by
  simpa [isDigit, or_assoc] using h

theorem value?_digit : ∀ n < 16, value? (digit n) = some n := by decide

/-- The number that a run of digits writes. -/
def number? (cs : List Char) : Option Nat :=
  cs.foldlM (fun n c => (value? c).map (16 * n + ·)) 0

/-- The two digits of a byte. -/
def ofByte (b : UInt8) : List Char := [digit (b.toNat / 16), digit (b.toNat % 16)]

/-- Two digits for each byte. -/
def ofBytes (bytes : ByteArray) : String :=
  String.ofList (bytes.foldl (fun acc b => digit (b.toNat % 16) :: digit (b.toNat / 16) :: acc) []).reverse

/-- The digits of a number, none leading zero. -/
def ofNat (n : Nat) : List Char := (Nat.toDigits 16 n)

end Hexadecimal

end ImageAssembly.Text
