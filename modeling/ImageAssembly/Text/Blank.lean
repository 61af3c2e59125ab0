/-! The blank characters of Unicode's `White_Space` property, and the removal of blanks from both
ends of a text. -/

namespace ImageAssembly.Text

/-- Membership in the `White_Space` property. -/
def isBlank (c : Char) : Bool :=
  let n := c.toNat
  (9 ≤ n && n ≤ 13) || n == 0x20 || n == 0x85 || n == 0xA0 || n == 0x1680
    || (0x2000 ≤ n && n ≤ 0x200A) || n == 0x2028 || n == 0x2029 || n == 0x202F || n == 0x205F
    || n == 0x3000

/-- Every blank that core knows is one. -/
theorem isBlank_of_isWhitespace {c : Char} (h : c.isWhitespace = true) : isBlank c = true := by
  simp only [Char.isWhitespace, Bool.or_eq_true, decide_eq_true_eq] at h
  rcases h with ((h | h) | h) | h <;> subst h <;> decide

/-- Drops trailing blanks. -/
def trimEnd : List Char → List Char
  | [] => []
  | c :: r => match trimEnd r with
    | [] => if isBlank c then [] else [c]
    | d :: t => c :: d :: t

/-- Drops blanks at both ends. -/
def trim (s : String) : String :=
  String.ofList (trimEnd (s.toList.dropWhile isBlank))

end ImageAssembly.Text
