import ImageAssembly.Json.Encode
import ImageAssembly.Proofs.Text.Bytes

/-! How long written values can get. A character is escaped by six others at most, and takes four bytes. -/

namespace ImageAssembly.Json

mutual

/-- The characters that a value takes at most. -/
def Value.weight : Value → Nat
  | .null => 4
  | .bool _ => 5
  | .number n => n.render.length
  | .string s => 6 * s.length + 2
  | .array items => itemsWeight items + 2
  | .object members => membersWeight members + 2

def itemsWeight : List Value → Nat
  | [] => 0
  | v :: r => v.weight + 1 + itemsWeight r

def membersWeight : List (String × Value) → Nat
  | [] => 0
  | (k, v) :: r => 6 * k.length + v.weight + 4 + membersWeight r

end

theorem length_escapeChar_le (c : Char) : (escapeChar c).length ≤ 6 := by
  rw [escapeChar]
  split_ifs <;> simp

theorem length_renderString_le (s : String) : (renderString s).length ≤ 6 * s.length + 2 := by
  have hflat : ∀ cs : List Char, (cs.flatMap escapeChar).length ≤ 6 * cs.length := by
    intro cs
    induction cs with
    | nil => exact Nat.le_refl 0
    | cons c cs ih =>
      have hc := length_escapeChar_le c
      rw [List.flatMap_cons, List.length_append, List.length_cons]
      omega
  have hs := hflat s.toList
  rw [String.length_toList] at hs
  rw [renderString, List.length_cons, List.length_append, List.length_singleton]
  omega

mutual

theorem length_render_le : ∀ v : Value, v.render.length ≤ v.weight
  | .null => Nat.le_refl 4
  | .bool true => Nat.le_succ 4
  | .bool false => Nat.le_refl 5
  | .number n => Nat.le_refl _
  | .string s => length_renderString_le s
  | .array items => by
    have h := length_renderItems_le items
    rw [Value.render, Value.weight, List.length_cons, List.length_append, List.length_singleton]
    omega
  | .object members => by
    have h := length_renderMembers_le members
    rw [Value.render, Value.weight, List.length_cons, List.length_append, List.length_singleton]
    omega

theorem length_renderItems_le : ∀ vs : List Value, (renderItems vs).length ≤ itemsWeight vs
  | [] => Nat.le_refl 0
  | [v] => by
    have h := length_render_le v
    rw [renderItems, itemsWeight]
    omega
  | v :: w :: r => by
    have h := length_render_le v
    have hr := length_renderItems_le (w :: r)
    rw [renderItems, itemsWeight, List.length_append, List.length_cons]
    omega

theorem length_renderMembers_le : ∀ ms : List (String × Value), (renderMembers ms).length ≤ membersWeight ms
  | [] => Nat.le_refl 0
  | [(k, v)] => by
    have hk := length_renderString_le k
    have hv := length_render_le v
    rw [renderMembers, membersWeight, List.length_append, List.length_cons]
    omega
  | (k, v) :: e :: r => by
    have hk := length_renderString_le k
    have hv := length_render_le v
    have hr := length_renderMembers_le (e :: r)
    rw [renderMembers, membersWeight, List.length_append, List.length_cons, List.length_append, List.length_cons]
    omega

end

theorem size_toBytes_le (v : Value) : v.toBytes.size ≤ 4 * v.weight := by
  have h := length_render_le v
  have hbytes := Bytes.size_toUTF8_le v.toText
  rw [Value.toText, String.length_ofList] at hbytes
  rw [Value.toBytes, Value.toText]
  omega

end ImageAssembly.Json
