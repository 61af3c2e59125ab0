import ImageAssembly.Json.Token

/-! The structure of JSON text up to its first fault. A container that a fault cuts off is kept with
what stands before the fault, so that whoever reads the tree in order meets things in the order of the
text. -/

namespace ImageAssembly.Json

/-- A value as it stands in a text; `closed` tells that the container's end was reached. -/
inductive Tree
  | null
  | bool (b : Bool)
  | number (n : Numeral)
  | string (text : Option String)
  | array (items : List Tree) (closed : Bool)
  | object (members : List (Option String × Tree)) (closed : Bool)
  | broken
  deriving Inhabited

/-- A text: its value, and whether nothing stands behind it. -/
structure Document where
  root : Tree
  complete : Bool
  deriving Inhabited

/-- A container whose end has not been reached; its parts are held last first. -/
inductive Frame
  | array (items : List Tree)
  | object (members : List (Option String × Tree))
  | member (members : List (Option String × Tree)) (key : Option String)

/-- What may follow. -/
inductive Phase
  | value
  | valueOrClose
  | keyOrClose
  | key
  | colon
  | commaOrClose
  deriving DecidableEq, Repr

/-- The tree of a text that breaks off: `t` is the last thing in the innermost container. -/
def abandon : Tree → List Frame → Tree
  | t, [] => t
  | t, .array items :: fs => abandon (.array (t :: items).reverse false) fs
  | _, .object members :: fs => abandon (.object members.reverse false) fs
  | t, .member members key :: fs => abandon (.object ((key, t) :: members).reverse false) fs

/-- Puts a value into the innermost container. -/
def plug (t : Tree) : List Frame → List Frame
  | [] => []
  | .array items :: fs => .array (t :: items) :: fs
  | .object members :: fs => .object members :: fs
  | .member members key :: fs => .object ((key, t) :: members) :: fs

/-- The value that a token is by itself. -/
def Token.scalar? : Token → Option Tree
  | .null => some .null
  | .bool b => some (.bool b)
  | .number n => some (.number n)
  | .string s => some (.string s)
  | .openArray | .closeArray | .openObject | .closeObject | .comma | .colon | .bad => none

/-- The container that the innermost frame has become. -/
def closeArray? : List Frame → Option (Tree × List Frame)
  | .array items :: fs => some (.array items.reverse true, fs)
  | _ => none

def closeObject? : List Frame → Option (Tree × List Frame)
  | .object members :: fs => some (.object members.reverse true, fs)
  | _ => none

/-- What a token does. -/
inductive Step
  | more (stack : List Frame) (phase : Phase)
  | done (root : Tree)
  | bad

/-- A value is complete: it is the whole text, or a part of the container around it. -/
def finish (v : Tree) (outer : List Frame) : Step :=
  if outer.isEmpty then .done v else .more (plug v outer) .commaOrClose

/-- A token where a value begins. -/
def beginValue (stack : List Frame) : Token → Step
  | .openArray => .more (.array [] :: stack) .valueOrClose
  | .openObject => .more (.object [] :: stack) .keyOrClose
  | t => match t.scalar? with
    | some v => finish v stack
    | none => .bad

/-- A token where the innermost container may end. -/
def close (stack : List Frame) : Token → Step
  | .closeArray => match closeArray? stack with
    | some (v, outer) => finish v outer
    | none => .bad
  | .closeObject => match closeObject? stack with
    | some (v, outer) => finish v outer
    | none => .bad
  | _ => .bad

/-- A token where a member begins. -/
def beginMember : List Frame → Token → Step
  | .object members :: outer, .string key => .more (.member members key :: outer) .colon
  | _, _ => .bad

/-- A comma after a part of the innermost container. -/
def nextPart : List Frame → Step
  | .array items :: outer => .more (.array items :: outer) .value
  | stack => .more stack .key

def step (stack : List Frame) (phase : Phase) (t : Token) : Step :=
  match phase with
  | .value => beginValue stack t
  | .valueOrClose => if t = .closeArray then close stack t else beginValue stack t
  | .keyOrClose => if t = .closeObject then close stack t else beginMember stack t
  | .key => beginMember stack t
  | .colon => if t = .colon then .more stack .value else .bad
  | .commaOrClose => if t = .comma then nextPart stack else close stack t

/-- Builds the tree of the tokens inside the containers of `stack`. -/
def build (stack : List Frame) (phase : Phase) : List Token → Document
  | [] => ⟨abandon .broken stack, true⟩
  | t :: r => match step stack phase t with
    | .more stack phase => build stack phase r
    | .done root => ⟨root, r.isEmpty⟩
    | .bad => ⟨abandon .broken stack, true⟩

/-- The structure of a text. -/
def Document.ofBytes (text : ByteArray) : Document := build [] .value (tokens text.toList)

/-- Whether nothing in a value is cut off. -/
def Tree.isWhole : Tree → Bool
  | .null | .bool _ | .number _ | .string _ => true
  | .array items closed => wholeItems items && closed
  | .object members closed => wholeMembers members && closed
  | .broken => false
where
  wholeItems : List Tree → Bool
    | [] => true
    | t :: r => t.isWhole && wholeItems r
  wholeMembers : List (Option String × Tree) → Bool
    | [] => true
    | (_, t) :: r => t.isWhole && wholeMembers r

end ImageAssembly.Json
