import ImageAssembly.Proofs.Json.Lexing

/-! Written strings are read as themselves. Controls are escaped, all other characters stand as their bytes,
and none of these bytes ends the string early. -/

namespace ImageAssembly.Json

open Bytes

/-! ### Characters inside a string -/

/-- What the reader takes a written character for. -/
def charPieces (c : Char) : List Piece :=
  if c.toNat < 0x20 ∧ c.toNat ∉ [8, 9, 10, 12, 13] then [.unit c.toNat]
  else (String.utf8EncodeChar c).map .byte

/-- No byte of a character beyond 127 is one of a character below. -/
theorem le_of_mem_utf8EncodeChar {c : Char} (hc : 128 ≤ c.toNat) {b : UInt8}
    (h : b ∈ String.utf8EncodeChar c) : 128 ≤ b.toNat := by
  have hv : c.val.toNat = c.toNat := rfl
  have hmax : c.val.toNat < 0x110000 := by
    rcases c.valid with h | h
    · exact lt_trans h (by decide)
    · exact h.2
  have key : ∀ n : Nat, 128 ≤ n → n < 256 → 128 ≤ (UInt8.ofNat n).toNat := by
    intro n h1 h2
    rw [UInt8.toNat_ofNat_of_lt' h2]
    exact h1
  rw [String.utf8EncodeChar] at h
  rw [hv] at h
  split_ifs at h with h1 h2 h3
  · omega
  · simp only [List.mem_cons, List.not_mem_nil, or_false] at h
    rcases h with rfl | rfl <;> exact key _ (by omega) (by omega)
  · simp only [List.mem_cons, List.not_mem_nil, or_false] at h
    rcases h with rfl | rfl | rfl <;> exact key _ (by omega) (by omega)
  · simp only [List.mem_cons, List.not_mem_nil, or_false] at h
    rcases h with rfl | rfl | rfl | rfl <;> exact key _ (by omega) (by omega)

/-- Bytes that neither end a string nor begin an escape are taken as they are. -/
theorem tokensFrom_plain {acc : List Token} {pieces : List Piece} {bs rest : List UInt8}
    (h : ∀ b ∈ bs, b ≠ 0x22 ∧ b ≠ 0x5C ∧ ¬b < 0x20) :
    tokensFrom acc (.string pieces) (bs ++ rest) =
      tokensFrom acc (.string ((bs.map .byte).reverse ++ pieces)) rest := by
  induction bs generalizing pieces with
  | nil => rfl
  | cons b bs ih =>
    obtain ⟨h1, h2, h3⟩ := h b (by simp)
    rw [List.cons_append, tokensFrom]
    simp only [State.step, h1, h2, h3, if_false, List.reverse_nil, List.nil_append]
    rw [ih fun c hc => h c (by simp [hc])]
    simp

/-- The escape of a control is read as the control. -/
theorem tokensFrom_control (acc : List Token) (pieces : List Piece) (rest : List UInt8) :
    ∀ n < 32, tokensFrom acc (.string pieces) (bytesOf (escapeChar (Char.ofNat n)) ++ rest) =
      tokensFrom acc (.string ((charPieces (Char.ofNat n)).reverse ++ pieces)) rest := by
  intro n hn
  interval_cases n <;> rfl

/-- A character is read back, as bytes or as an escaped unit. -/
theorem tokensFrom_char (acc : List Token) (pieces : List Piece) (c : Char) (rest : List UInt8) :
    tokensFrom acc (.string pieces) (bytesOf (escapeChar c) ++ rest) =
      tokensFrom acc (.string ((charPieces c).reverse ++ pieces)) rest := by
  rcases lt_or_ge c.toNat 0x20 with hc | hc
  · have := tokensFrom_control acc pieces rest c.toNat hc
    rwa [Char.ofNat_toNat] at this
  by_cases hq : c = '"'
  · subst hq
    rfl
  by_cases hs : c = '\\'
  · subst hs
    rfl
  have hp : charPieces c = (String.utf8EncodeChar c).map .byte := by
    rw [charPieces, if_neg]
    omega
  rw [escapeChar, if_neg hq, if_neg hs, if_pos hc, hp, bytesOf_cons, bytesOf_nil, List.append_nil]
  refine tokensFrom_plain fun b hb => ?_
  rw [ne_eq, ne_eq, ← UInt8.toNat_inj, ← UInt8.toNat_inj, UInt8.lt_iff_toNat_lt]
  have h1 : (0x22 : UInt8).toNat = 34 := rfl
  have h2 : (0x5C : UInt8).toNat = 92 := rfl
  have h3 : (0x20 : UInt8).toNat = 32 := rfl
  rcases lt_or_ge c.toNat 128 with hlow | hhigh
  · rw [utf8EncodeChar_of_lt hlow, List.mem_singleton] at hb
    have hb' : b.toNat = c.toNat := by
      rw [hb]
      exact UInt8.toNat_ofNat_of_lt' (lt_trans hlow (by decide))
    have hq' : c.toNat ≠ 34 := fun h => hq (Char.toNat_inj.1 h)
    have hs' : c.toNat ≠ 92 := fun h => hs (Char.toNat_inj.1 h)
    omega
  · have := le_of_mem_utf8EncodeChar hhigh hb
    omega

/-! ### Whole strings -/

theorem tokensFrom_chars (acc : List Token) (pieces : List Piece) (cs : List Char) (rest : List UInt8) :
    tokensFrom acc (.string pieces) (bytesOf (cs.flatMap escapeChar) ++ rest) =
      tokensFrom acc (.string ((cs.flatMap charPieces).reverse ++ pieces)) rest := by
  induction cs generalizing pieces with
  | nil => rfl
  | cons c cs ih =>
    rw [List.flatMap_cons, bytesOf_append, List.append_assoc, tokensFrom_char, ih, List.flatMap_cons,
      List.reverse_append, List.append_assoc]

theorem assembleBytes_bytes (acc : ByteArray) (bs : List UInt8) (r : List Piece) :
    assembleBytes acc (bs.map .byte ++ r) = assembleBytes (acc ++ bs.toByteArray) r := by
  induction bs generalizing acc with
  | nil =>
    have : acc ++ ([] : List UInt8).toByteArray = acc := toList_inj (by simp)
    rw [this]
    rfl
  | cons b bs ih =>
    rw [List.map_cons, List.cons_append, assembleBytes, ih]
    congr 1
    exact toList_inj (by simp)

/-- A unit that is no surrogate is a character by itself. -/
theorem assembleBytes_unit (acc : ByteArray) {n : Nat} (h : n < 0x20) (r : List Piece) :
    assembleBytes acc (.unit n :: r) = assembleBytes (pushChar acc n) r := by
  have hhigh : isHighSurrogate n = false := by
    simp only [isHighSurrogate, Bool.and_eq_false_imp, decide_eq_true_eq, decide_eq_false_iff_not]
    omega
  have hlow : isLowSurrogate n = false := by
    simp only [isLowSurrogate, Bool.and_eq_false_imp, decide_eq_true_eq, decide_eq_false_iff_not]
    omega
  rcases r with _ | ⟨b | m, r⟩ <;> simp [assembleBytes, hhigh, hlow]

theorem assembleBytes_char (acc : ByteArray) (c : Char) (r : List Piece) :
    assembleBytes acc (charPieces c ++ r) =
      assembleBytes (acc ++ (String.utf8EncodeChar c).toByteArray) r := by
  rw [charPieces]
  split_ifs with h
  · have hpush : pushChar acc c.toNat = acc ++ (String.utf8EncodeChar c).toByteArray := by
      apply toList_inj
      rw [pushChar, Char.ofNat_toNat, toList_append, toList_append, toList_toUTF8, toList_toByteArray]
      simp
    rw [List.singleton_append, assembleBytes_unit acc h.1, hpush]
  · exact assembleBytes_bytes acc _ r

theorem assembleBytes_chars (acc : ByteArray) (cs : List Char) :
    assembleBytes acc (cs.flatMap charPieces) = some (acc ++ (bytesOf cs).toByteArray) := by
  induction cs generalizing acc with
  | nil =>
    rw [List.flatMap_nil, assembleBytes]
    congr 1
    exact toList_inj (by simp)
  | cons c cs ih =>
    rw [List.flatMap_cons, assembleBytes_char, ih]
    congr 1
    exact toList_inj (by simp [bytesOf_cons])

/-- The pieces of a text are read as the text. -/
theorem pieceText?_chars (s : String) : pieceText? (s.toList.flatMap charPieces) = some s := by
  have hbytes : ByteArray.empty ++ (bytesOf s.toList).toByteArray = s.toUTF8 := by
    apply toList_inj
    rw [toList_toUTF8]
    simp [bytesOf, toList_eq]
  rw [pieceText?, assembleBytes_chars, hbytes, Option.bind_some, fromUTF8?_toUTF8]

/-- A written string is one token. -/
theorem tokensFrom_renderString (acc : List Token) (s : String) (rest : List UInt8) :
    tokensFrom acc .between (bytesOf (renderString s) ++ rest) =
      tokensFrom (.string (some s) :: acc) .between rest := by
  rw [renderString, bytesOf_ascii _ (by decide), bytesOf_append, List.cons_append, List.append_assoc,
    tokensFrom]
  have hopen : State.step .between '"'.toNat.toUInt8 = ([], some (.string [])) := rfl
  simp only [hopen, List.reverse_nil, List.nil_append]
  rw [tokensFrom_chars, List.append_nil, bytesOf_ascii _ (by decide), bytesOf_nil, List.singleton_append,
    tokensFrom]
  have hclose : State.step (.string (s.toList.flatMap charPieces).reverse) '"'.toNat.toUInt8 =
      ([.string (some s)], some .between) := by
    have hq : '"'.toNat.toUInt8 = 0x22 := rfl
    rw [State.step, hq, if_pos rfl, List.reverse_reverse, pieceText?_chars]
  simp only [hclose, List.reverse_singleton, List.singleton_append]

end ImageAssembly.Json
