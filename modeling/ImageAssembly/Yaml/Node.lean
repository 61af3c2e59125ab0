import ImageAssembly.Yaml.Token

/-! The nodes of a YAML document, as its tokens nest. What a fault cuts off is kept up to the fault, so
that whoever reads the nodes in order meets things in the order of the text. -/

namespace ImageAssembly.Yaml

/-- What stands in front of a node: the number of its anchor, and its tag. -/
structure Properties where
  anchor : Option Nat := none
  tag : Option Tag := none
  deriving Inhabited

/-- A node; `closed` tells that the collection's end was reached. -/
inductive Node
  | scalar (properties : Properties) (text : String) (plain : Bool)
  | sequence (properties : Properties) (items : List Node) (closed : Bool)
  | mapping (properties : Properties) (entries : List (Node × Node)) (closed : Bool)
  | alias (anchor : Nat)
  | broken
  deriving Inhabited

/-- A text: its first document, and whether it is the only one and whole. -/
structure Document where
  root : Option Node
  whole : Bool
  deriving Inhabited

namespace Node

def properties : Node → Properties
  | .scalar p _ _ | .sequence p _ _ | .mapping p _ _ => p
  | .alias _ | .broken => {}

/-- A scalar that is not written. -/
def absent : Node := .scalar {} "" true

end Node

/-! ### Reading the tokens -/

/-- The tokens still to come, and what the ones before have declared. -/
structure Parser where
  tokens : List Token
  /-- The anchors by name, with their numbers. -/
  anchors : List (String × Nat)
  /-- The handles of tags, with what they stand for. -/
  handles : List (String × Tag)

/-- A step of reading nodes. After a fault no tokens are left. -/
abbrev Parse (α : Type) := StateM Parser α

namespace Parser

def peek : Parse (Option Token) := do return (← get).tokens.head?

def skip : Parse Unit := modify fun s => { s with tokens := s.tokens.tail }

/-- A fault: nothing behind it is read. -/
def breakOff : Parse Unit := modify fun s => { s with tokens := [] }

/-- Gives an anchor its number: as many names as are known so far. -/
def declare (name : String) : Parse Nat := do
  let s ← get
  let number := (s.anchors.map (·.1)).eraseDups.length
  set { s with anchors := (name, number) :: s.anchors }
  pure number

/-- What a tag with a handle stands for; an unknown handle is a fault. -/
def expandTag (handle : String) (suffix : Tag) : Parse (Option (Option Tag)) := do
  if handle = "" then pure (some (some suffix))
  else match (← get).handles.lookup handle with
    | some start => pure (some (some (start ++ suffix)))
    | none => pure none

/-- The anchor's name and the tag in front of a node, in either order. -/
def readProperties : Parse (Option String × Option (String × Tag)) := do
  match ← peek with
  | some (.anchor name) =>
    skip
    match ← peek with
    | some (.tag handle suffix) => skip; pure (some name, some (handle, suffix))
    | _ => pure (some name, none)
  | some (.tag handle suffix) =>
    skip
    match ← peek with
    | some (.anchor name) => skip; pure (some name, some (handle, suffix))
    | _ => pure (none, some (handle, suffix))
  | _ => pure (none, none)

/-- The number for an anchor's name, given when its node begins. -/
def declare? (name : Option String) : Parse (Option Nat) :=
  match name with
  | some name => do return some (← declare name)
  | none => pure none

def isOneOf (t : Token) (ts : List Token) : Bool := ts.contains t

mutual

/-- A node; `block` tells whether it may be a block collection, `indentless` whether entries of a
sequence may stand at the column of the mapping around them. -/
def node (fuel : Nat) (block indentless : Bool) : Parse Node :=
  match fuel with
  | 0 => do breakOff; pure .broken
  | fuel + 1 => do
    match ← peek with
    | some (.alias name) =>
      match (← get).anchors.lookup name with
      | some number => skip; pure (.alias number)
      | none => breakOff; pure .broken
    | _ =>
      let (anchor, tag) ← readProperties
      let expanded ← match tag with
        | some (handle, suffix) => expandTag handle suffix
        | none => pure (some none)
      match expanded, ← peek with
      | none, _ | _, none => breakOff; pure .broken
      | some tag, some token =>
        let bare := anchor.isNone && tag.isNone
        if indentless && token == .blockEntry then do
          let number ← declare? anchor
          indentlessItems fuel ⟨number, tag⟩ []
        else match token with
          | .scalar text plain =>
            let number ← declare? anchor
            skip
            pure (.scalar ⟨number, tag⟩ text plain)
          | .flowSequenceStart =>
            let number ← declare? anchor
            skip
            flowItems fuel ⟨number, tag⟩ []
          | .flowMappingStart =>
            let number ← declare? anchor
            skip
            flowEntries fuel ⟨number, tag⟩ []
          | .blockSequenceStart =>
            if block then
              let number ← declare? anchor
              skip
              blockItems fuel ⟨number, tag⟩ []
            else if bare then breakOff; pure .broken
            else return .scalar ⟨← declare? anchor, tag⟩ "" true
          | .blockMappingStart =>
            if block then
              let number ← declare? anchor
              skip
              blockEntries fuel ⟨number, tag⟩ []
            else if bare then breakOff; pure .broken
            else return .scalar ⟨← declare? anchor, tag⟩ "" true
          | _ =>
            if bare then breakOff; pure .broken
            else return .scalar ⟨← declare? anchor, tag⟩ "" true

/-- A node, or an absent scalar if one of `ends` comes next. -/
def nodeUnless (fuel : Nat) (block indentless : Bool) (ends : List Token) : Parse Node :=
  match fuel with
  | 0 => do breakOff; pure .broken
  | fuel + 1 => do
    match ← peek with
    | some t => if isOneOf t ends then pure .absent else node fuel block indentless
    | none => pure .broken

/-- The items of a block sequence; those read so far are held last first. -/
def blockItems (fuel : Nat) (p : Properties) (items : List Node) : Parse Node :=
  match fuel with
  | 0 => do breakOff; pure .broken
  | fuel + 1 => do
    match ← peek with
    | some .blockEntry =>
      skip
      let item ← nodeUnless fuel true false [.blockEntry, .blockEnd]
      blockItems fuel p (item :: items)
    | some .blockEnd => skip; pure (.sequence p items.reverse true)
    | _ => breakOff; pure (.sequence p items.reverse false)

def indentlessItems (fuel : Nat) (p : Properties) (items : List Node) : Parse Node :=
  match fuel with
  | 0 => do breakOff; pure .broken
  | fuel + 1 => do
    match ← peek with
    | some .blockEntry =>
      skip
      let item ← nodeUnless fuel true false [.blockEntry, .key, .value, .blockEnd]
      indentlessItems fuel p (item :: items)
    | some _ => pure (.sequence p items.reverse true)
    | none => pure (.sequence p items.reverse false)

def blockEntries (fuel : Nat) (p : Properties) (entries : List (Node × Node)) : Parse Node :=
  match fuel with
  | 0 => do breakOff; pure .broken
  | fuel + 1 => do
    match ← peek with
    | some .key =>
      skip
      let key ← nodeUnless fuel true true [.key, .value, .blockEnd]
      let value ← match ← peek with
        | some .value => do skip; nodeUnless fuel true true [.key, .value, .blockEnd]
        | some _ => pure .absent
        | none => pure .broken
      blockEntries fuel p ((key, value) :: entries)
    | some .blockEnd => skip; pure (.mapping p entries.reverse true)
    | _ => breakOff; pure (.mapping p entries.reverse false)

/-- The items of a sequence in brackets. An item may be a mapping of one entry. -/
def flowItems (fuel : Nat) (p : Properties) (items : List Node) : Parse Node :=
  match fuel with
  | 0 => do breakOff; pure .broken
  | fuel + 1 => do
    let ended := fun closed => (Node.sequence p items.reverse closed)
    match ← peek with
    | some .flowSequenceEnd => skip; pure (ended true)
    | some t =>
      if !items.isEmpty && t != .flowEntry then breakOff; pure (ended false)
      else
        if !items.isEmpty then skip
        match ← peek with
        | some .flowSequenceEnd => skip; pure (ended true)
        | some .key =>
          skip
          let item ← flowPair fuel
          flowItems fuel p (item :: items)
        | some _ =>
          let item ← node fuel false false
          flowItems fuel p (item :: items)
        | none => pure (ended false)
    | none => pure (ended false)

/-- A mapping of one entry in a sequence. Where its key is absent the token behind it is passed over. -/
def flowPair (fuel : Nat) : Parse Node :=
  match fuel with
  | 0 => do breakOff; pure .broken
  | fuel + 1 => do
    let key ← match ← peek with
      | some t =>
        if isOneOf t [.value, .flowEntry, .flowSequenceEnd] then do skip; pure .absent
        else node fuel false false
      | none => pure .broken
    match ← peek with
    | some .value =>
      skip
      let value ← nodeUnless fuel false false [.flowEntry, .flowSequenceEnd]
      pure (.mapping {} [(key, value)] true)
    | some _ => pure (.mapping {} [(key, .absent)] true)
    | none => pure (.mapping {} [(key, .broken)] false)

/-- The entries of a mapping in braces. -/
def flowEntries (fuel : Nat) (p : Properties) (entries : List (Node × Node)) : Parse Node :=
  match fuel with
  | 0 => do breakOff; pure .broken
  | fuel + 1 => do
    let ended := fun closed => (Node.mapping p entries.reverse closed)
    match ← peek with
    | some .flowMappingEnd => skip; pure (ended true)
    | some t =>
      if !entries.isEmpty && t != .flowEntry then breakOff; pure (ended false)
      else
        if !entries.isEmpty then skip
        match ← peek with
        | some .flowMappingEnd => skip; pure (ended true)
        | some .key =>
          skip
          let key ← nodeUnless fuel false false [.value, .flowEntry, .flowMappingEnd]
          let value ← match ← peek with
            | some .value => do skip; nodeUnless fuel false false [.flowEntry, .flowMappingEnd]
            | some _ => pure .absent
            | none => pure .broken
          flowEntries fuel p ((key, value) :: entries)
        | some _ =>
          let key ← node fuel false false
          match ← peek with
          | some _ => flowEntries fuel p ((key, .absent) :: entries)
          | none => pure (.mapping p ((key, .broken) :: entries).reverse false)
        | none => pure (ended false)
    | none => pure (ended false)

end

/-! ### Documents -/

/-- The handles that every document knows. -/
def defaultHandles : List (String × Tag) := [("!", .ofText "!"), ("!!", .ofText "tag:yaml.org,2002:")]

/-- Directives in front of a document: whether they are in order, and the handles they declare. -/
def readDirectives (versioned : Bool) (handles : List (String × Tag)) :
    List Token → Option (List (String × Tag)) × List Token
  | .version major minor :: r =>
    if versioned || major != 1 || (minor != 1 && minor != 2) then (none, r)
    else readDirectives true handles r
  | .handle name start :: r =>
    if (handles.lookup name).isSome then (none, r)
    else readDirectives versioned (handles ++ [(name, start)]) r
  | ts => (some (handles ++ defaultHandles), ts)

/-- The content of an explicit document. -/
def content (fuel : Nat) : Parse Node := do
  match ← peek with
  | some (.version _ _) | some (.handle _ _) | some .documentStart | some .documentEnd
  | some .streamEnd => pure .absent
  | some _ => node fuel true false
  | none => pure .broken

/-- Whether nothing but ends of documents stands in front of the end of the text. -/
def onlyEnds : List Token → Bool
  | [.streamEnd] => true
  | .documentEnd :: r => onlyEnds r
  | _ => false

end Parser

/-- The first document of the tokens of a text. -/
def Document.ofTokens (ts : List Token) : Document :=
  let fuel := 4 * ts.length + 8
  match ts with
  | [] => ⟨some .broken, false⟩
  | .streamEnd :: _ => ⟨none, true⟩
  | t :: _ =>
    let explicit := match t with
      | .version _ _ | .handle _ _ | .documentStart => true
      | _ => false
    if explicit then
      match Parser.readDirectives false [] ts with
      | (some handles, .documentStart :: r) =>
        let (root, s) := (Parser.content fuel).run ⟨r, [], handles⟩
        ⟨some root, Parser.onlyEnds s.tokens⟩
      | _ => ⟨some .broken, false⟩
    else
      let (root, s) := (Parser.node fuel true false).run ⟨ts, [], Parser.defaultHandles⟩
      ⟨some root, Parser.onlyEnds s.tokens⟩

def Document.ofText (text : String) : Document := .ofTokens (tokens text)

end ImageAssembly.Yaml
