import ImageAssembly.Json.Decode
import ImageAssembly.Proofs.Json.Rereading
import ImageAssembly.Proofs.Json.Strings

/-! The written form of a value is read as its tree, with nothing left over. First the bytes are read as the
tokens of the value, then the tokens are put together. -/

namespace ImageAssembly.Json

open Bytes

/-! ### Tokens of a value -/

mutual

/-- The tokens that a value is written as. -/
def Value.tokens : Value → List Token
  | .null => [.null]
  | .bool b => [.bool b]
  | .number n => [.number n.numeral]
  | .string s => [.string (some s)]
  | .array items => .openArray :: (itemTokens items ++ [.closeArray])
  | .object members => .openObject :: (memberTokens members ++ [.closeObject])

def itemTokens : List Value → List Token
  | [] => []
  | [v] => v.tokens
  | v :: w :: r => v.tokens ++ .comma :: itemTokens (w :: r)

def memberTokens : List (String × Value) → List Token
  | [] => []
  | [(k, v)] => .string (some k) :: .colon :: v.tokens
  | (k, v) :: e :: r => .string (some k) :: .colon :: (v.tokens ++ .comma :: memberTokens (e :: r))

end

theorem endsValue_comma (rest : List UInt8) : EndsValue (','.toNat.toUInt8 :: rest) := Or.inl rfl

theorem endsValue_closeArray (rest : List UInt8) : EndsValue (']'.toNat.toUInt8 :: rest) :=
  Or.inr (Or.inl rfl)

theorem endsValue_closeObject (rest : List UInt8) : EndsValue ('\x7d'.toNat.toUInt8 :: rest) :=
  Or.inr (Or.inr rfl)

/-- A byte that is a token by itself. -/
theorem tokensFrom_mark {b : UInt8} {t : Token} (h : State.begin b = ([t], some .between))
    (acc : List Token) (rest : List UInt8) :
    tokensFrom acc .between (b :: rest) = tokensFrom (t :: acc) .between rest := by
  rw [tokensFrom, State.step]
  simp only [h, List.reverse_singleton, List.singleton_append]

mutual

/-- A written value is read as its tokens, wherever a value may end. -/
theorem tokensFrom_value : ∀ (v : Value) (acc : List Token) {rest : List UInt8}, EndsValue rest →
    tokensFrom acc .between (bytesOf v.render ++ rest) = tokensFrom (v.tokens.reverse ++ acc) .between rest
  | .null, _, _, _ => rfl
  | .bool true, _, _, _ => rfl
  | .bool false, _, _, _ => rfl
  | .number n, acc, rest, h => by
    rw [Value.render, ← n.render_numeral, tokensFrom_numeral n.isProper_numeral h]
    rfl
  | .string s, acc, rest, _ => by
    rw [Value.render, tokensFrom_renderString]
    rfl
  | .array items, acc, rest, _ => by
    rw [Value.render, bytesOf_ascii _ (by decide), bytesOf_append, List.cons_append, List.append_assoc,
      tokensFrom_mark (t := .openArray) rfl, bytesOf_ascii [] (by decide), bytesOf_nil,
      List.singleton_append, tokensFrom_items items _ (endsValue_closeArray rest),
      tokensFrom_mark (t := .closeArray) rfl]
    simp [Value.tokens]
  | .object members, acc, rest, _ => by
    rw [Value.render, bytesOf_ascii _ (by decide), bytesOf_append, List.cons_append, List.append_assoc,
      tokensFrom_mark (t := .openObject) rfl, bytesOf_ascii [] (by decide), bytesOf_nil,
      List.singleton_append, tokensFrom_members members _ (endsValue_closeObject rest),
      tokensFrom_mark (t := .closeObject) rfl]
    simp [Value.tokens]

theorem tokensFrom_items : ∀ (vs : List Value) (acc : List Token) {rest : List UInt8}, EndsValue rest →
    tokensFrom acc .between (bytesOf (renderItems vs) ++ rest) =
      tokensFrom ((itemTokens vs).reverse ++ acc) .between rest
  | [], _, _, _ => rfl
  | [v], acc, rest, h => by
    rw [renderItems, itemTokens]
    exact tokensFrom_value v acc h
  | v :: w :: r, acc, rest, h => by
    rw [renderItems, bytesOf_append, bytesOf_ascii _ (by decide), List.append_assoc, List.cons_append,
      tokensFrom_value v acc (endsValue_comma _), tokensFrom_mark (t := .comma) rfl,
      tokensFrom_items (w :: r) _ h]
    simp [itemTokens]

theorem tokensFrom_members : ∀ (ms : List (String × Value)) (acc : List Token) {rest : List UInt8},
    EndsValue rest → tokensFrom acc .between (bytesOf (renderMembers ms) ++ rest) =
      tokensFrom ((memberTokens ms).reverse ++ acc) .between rest
  | [], _, _, _ => rfl
  | [(k, v)], acc, rest, h => by
    rw [renderMembers, bytesOf_append, bytesOf_ascii _ (by decide), List.append_assoc, List.cons_append,
      tokensFrom_renderString, tokensFrom_mark (t := .colon) rfl, tokensFrom_value v _ h]
    simp [memberTokens]
  | (k, v) :: e :: r, acc, rest, h => by
    rw [renderMembers, bytesOf_append, bytesOf_ascii _ (by decide), bytesOf_append,
      bytesOf_ascii (renderMembers (e :: r)) (by decide), List.append_assoc, List.cons_append,
      List.append_assoc, List.cons_append, tokensFrom_renderString, tokensFrom_mark (t := .colon) rfl,
      tokensFrom_value v _ (endsValue_comma _), tokensFrom_mark (t := .comma) rfl, tokensFrom_members (e :: r) _ h]
    simp [memberTokens]

end

/-- The text of a value has the tokens of the value. -/
theorem tokens_toBytes (v : Value) : tokens v.toBytes.toList = v.tokens := by
  have h := @tokensFrom_value v [] [] trivial
  rw [List.append_nil] at h
  rw [tokens, Value.toBytes, Value.toText, toList_toUTF8_ofList]
  exact h.trans (by simp [tokensFrom, State.finish])

/-! ### The tree of a value -/

mutual

/-- The tree that a written value has. -/
def Value.tree : Value → Tree
  | .null => .null
  | .bool b => .bool b
  | .number n => .number n.numeral
  | .string s => .string (some s)
  | .array items => .array (itemTrees items) true
  | .object members => .object (memberTrees members) true

def itemTrees : List Value → List Tree
  | [] => []
  | v :: r => v.tree :: itemTrees r

def memberTrees : List (String × Value) → List (Option String × Tree)
  | [] => []
  | (k, v) :: r => (some k, v.tree) :: memberTrees r

end

theorem memberTrees_eq (ms : List (String × Value)) :
    memberTrees ms = ms.map fun m => (some m.1, m.2.tree) := by
  induction ms with
  | nil => rfl
  | cons m r ih => rw [memberTrees, ih, List.map_cons]

/-- What stands when a value is complete: the text, or the container around the value. -/
def after (t : Tree) (stack : List Frame) (rest : List Token) : Document :=
  if stack.isEmpty then ⟨t, rest.isEmpty⟩ else build (plug t stack) .commaOrClose rest

theorem build_of_finish {stack outer : List Frame} {phase : Phase} {token : Token} {t : Tree}
    (h : step stack phase token = finish t outer) (rest : List Token) :
    build stack phase (token :: rest) = after t outer rest := by
  rw [build, h, finish, after]
  by_cases ho : outer.isEmpty = true
  · simp only [if_pos ho]
  · simp only [if_neg ho]

theorem build_of_more {stack stack' : List Frame} {phase phase' : Phase} {token : Token}
    (h : step stack phase token = .more stack' phase') (rest : List Token) :
    build stack phase (token :: rest) = build stack' phase' rest := by
  rw [build, h]

/-- Where a value may begin, one does, unless the container ends. -/
theorem step_of_begins {stack : List Frame} {phase : Phase} {token : Token}
    (hp : phase = .value ∨ phase = .valueOrClose) (ht : token ≠ .closeArray) :
    step stack phase token = beginValue stack token := by
  rcases hp with rfl | rfl
  · rfl
  · rw [step, if_neg ht]

mutual

/-- The tokens of a value make up its tree. -/
theorem build_value : ∀ (v : Value) (stack : List Frame) {phase : Phase} (rest : List Token),
    phase = .value ∨ phase = .valueOrClose → build stack phase (v.tokens ++ rest) = after v.tree stack rest
  | .null, stack, phase, rest, hp => build_of_finish (step_of_begins hp (by simp)) rest
  | .bool b, stack, phase, rest, hp => build_of_finish (step_of_begins hp (by simp)) rest
  | .number n, stack, phase, rest, hp => build_of_finish (step_of_begins hp (by simp)) rest
  | .string s, stack, phase, rest, hp => build_of_finish (step_of_begins hp (by simp)) rest
  | .array items, stack, phase, rest, hp => by
    rw [Value.tokens, List.cons_append, List.append_assoc, List.singleton_append,
      build_of_more (step_of_begins hp (by simp)), build_items items [] stack rest (.inl rfl), Value.tree,
      List.reverse_nil, List.nil_append]
  | .object members, stack, phase, rest, hp => by
    rw [Value.tokens, List.cons_append, List.append_assoc, List.singleton_append,
      build_of_more (step_of_begins hp (by simp)), build_members members [] stack rest (.inl rfl), Value.tree,
      List.reverse_nil, List.nil_append]

/-- The items that are left are put behind those that are there, held last first. -/
theorem build_items : ∀ (vs : List Value) (items : List Tree) (stack : List Frame) {phase : Phase}
    (rest : List Token), phase = .valueOrClose ∨ (phase = .value ∧ vs ≠ []) →
    build (.array items :: stack) phase (itemTokens vs ++ .closeArray :: rest) =
      after (.array (items.reverse ++ itemTrees vs) true) stack rest
  | [], items, stack, phase, rest, hp => by
    obtain rfl : phase = .valueOrClose := by simpa using hp
    rw [itemTokens, List.nil_append, itemTrees, List.append_nil]
    exact build_of_finish rfl rest
  | [v], items, stack, phase, rest, hp => by
    rw [itemTokens, build_value v _ _ (by tauto), after, if_neg (by simp), plug,
      @build_of_finish _ stack _ _ (.array (v.tree :: items).reverse true) rfl]
    simp [itemTrees]
  | v :: w :: r, items, stack, phase, rest, hp => by
    rw [itemTokens, List.append_assoc, List.cons_append, build_value v _ _ (by tauto), after,
      if_neg (by simp), plug, build_of_more rfl, build_items (w :: r) _ stack rest (.inr ⟨rfl, by simp⟩)]
    simp [itemTrees]

theorem build_members : ∀ (ms : List (String × Value)) (members : List (Option String × Tree))
    (stack : List Frame) {phase : Phase} (rest : List Token),
    phase = .keyOrClose ∨ (phase = .key ∧ ms ≠ []) →
    build (.object members :: stack) phase (memberTokens ms ++ .closeObject :: rest) =
      after (.object (members.reverse ++ memberTrees ms) true) stack rest
  | [], members, stack, phase, rest, hp => by
    obtain rfl : phase = .keyOrClose := by simpa using hp
    rw [memberTokens, List.nil_append, memberTrees, List.append_nil]
    exact build_of_finish rfl rest
  | [(k, v)], members, stack, phase, rest, hp => by
    have hkey : step (.object members :: stack) phase (.string (some k)) =
        .more (.member members (some k) :: stack) .colon := by
      rcases hp with rfl | ⟨rfl, _⟩ <;> rfl
    rw [memberTokens, List.cons_append, List.cons_append, build_of_more hkey, build_of_more rfl,
      build_value v _ _ (.inl rfl), after, if_neg (by simp), plug,
      @build_of_finish _ stack _ _ (.object ((some k, v.tree) :: members).reverse true) rfl]
    simp [memberTrees]
  | (k, v) :: e :: r, members, stack, phase, rest, hp => by
    have hkey : step (.object members :: stack) phase (.string (some k)) =
        .more (.member members (some k) :: stack) .colon := by
      rcases hp with rfl | ⟨rfl, _⟩ <;> rfl
    rw [memberTokens, List.cons_append, List.cons_append, List.append_assoc, List.cons_append,
      build_of_more hkey, build_of_more rfl, build_value v _ _ (.inl rfl), after, if_neg (by simp), plug,
      build_of_more rfl, build_members (e :: r) _ stack rest (.inr ⟨rfl, by simp⟩)]
    simp [memberTrees]

end

/-- The text of a value is read as the value's tree, whole and with nothing behind it. -/
theorem ofBytes_toBytes (v : Value) : Document.ofBytes v.toBytes = ⟨v.tree, true⟩ := by
  have h := @build_value v [] .value [] (.inl rfl)
  rw [List.append_nil] at h
  rw [Document.ofBytes, tokens_toBytes, h]
  rfl

/-- Reading a written value is reading its tree. -/
theorem decodeBytes_toBytes {α : Type} (decode : Tree → Decoded α) (v : Value) :
    decodeBytes decode v.toBytes = decode v.tree := by
  rw [decodeBytes, ofBytes_toBytes, Document.decode]
  cases decode v.tree <;> rfl

/-- Values of one text are of one tree. -/
theorem tree_eq_of_toBytes_eq {v v' : Value} (h : v.toBytes = v'.toBytes) : v.tree = v'.tree := by
  have hread (v : Value) : decodeBytes (fun t => .ok t) v.toBytes = .ok v.tree := decodeBytes_toBytes _ v
  exact Except.ok.inj ((hread v).symm.trans ((congrArg _ h).trans (hread v')))

end ImageAssembly.Json
