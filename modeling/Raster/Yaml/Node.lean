import Raster.Yaml.CoreSchema
import Raster.Yaml.TokenStream

/-!
# YAML documents

A document is a tree in which an alias stands for the node of an anchor. Anchors are numbered by
the count of distinct names so far, so a name that is used again may share its number with the
next new name; the later node then stands for both.
-/

namespace Raster.Yaml

inductive Node where
  /-- The node of the anchor of this number. -/
  | alias (anchor : Nat)
  | scalar (tag : Option String) (style : Style) (text : String)
  | list (tag : Option String) (items : List Node)
  | table (tag : Option String) (entries : List (Node × Node))
  deriving Repr, Inhabited

/-- A document with the nodes that its anchors stand for. -/
structure Tree where
  root : Node
  anchors : List (Nat × Node)

/-- A plain scalar without text. -/
def Node.empty : Node := .scalar none .plain ""

/-! ### Reading nodes off tokens -/

/-- What is left of the tokens, and what is known of tags and anchors. -/
structure Grammar where
  tokens : List Token
  prefixes : List (String × String)
  /-- The numbers of the anchor names in use. -/
  names : List (String × Nat)
  /-- For each number the position of its node among all anchored nodes, the latest first. -/
  positions : List (Nat × Nat)
  /-- The anchored nodes that are complete, by position. -/
  nodes : List (Nat × Node)

namespace Grammar

abbrev Reading := StateT Grammar Option

def peek : Reading Token := do return (← get).tokens.headD .streamEnd

def advance : Reading Unit := modify fun g => { g with tokens := g.tokens.tail }

/-- Takes the next token if it is `t`. -/
def take (t : Token) : Reading Bool := do
  if (← peek) == t then
    advance
    return true
  else
    return false

/-- The whole tag of a handle and a suffix. -/
def resolveTag (handle suffix : String) : Reading String := do
  if handle = "" then return suffix
  else return (← (← get).prefixes.lookup handle) ++ suffix

/-- Numbers an anchor, and answers the position of its node. -/
def openAnchor (name : String) : Reading Nat := do
  let g ← get
  let number := g.names.length
  let position := g.positions.length
  set { g with
    names := (name, number) :: g.names.filter (·.1 != name)
    positions := (number, position) :: g.positions }
  return position

/-- The properties before a node: the position of its anchor, and its tag. -/
def properties : Reading (Option Nat × Option String) := do
  let anchor? : Reading (Option String) := do
    if let .anchor name ← peek then
      advance
      return some name
    else
      return none
  let tag? : Reading (Option String) := do
    if let .tag handle suffix ← peek then
      advance
      return some (← resolveTag handle suffix)
    else
      return none
  let before ← anchor?
  let tag ← tag?
  let anchor ← if before.isSome then pure before else if tag.isSome then anchor? else pure none
  let position ← anchor.mapM openAnchor
  return (position, tag)

/-- The tokens after which a place in a block is empty. -/
def endsBlockPlace : Token → Bool
  | .key | .value | .blockEnd => true
  | _ => false

mutual

/-- One node. `inBlock` allows block collections, `compact` a list at the column of its key. -/
def node (inBlock compact : Bool) : (n : Nat) → Reading Node
  | 0 => failure
  | n + 1 => do
    if let .alias name ← peek then
      advance
      return .alias (← (← get).names.lookup name)
    let (position, tag) ← properties
    let result ← content inBlock compact tag (position.isSome || tag.isSome) n
    if let some position := position then
      modify fun g => { g with nodes := (position, result) :: g.nodes }
    return result

/-- A node after its properties; without content it is empty, if it has properties. -/
def content (inBlock compact : Bool) (tag : Option String) (mayBeEmpty : Bool) :
    (n : Nat) → Reading Node
  | 0 => failure
  | n + 1 => do
    match ← peek with
    | .blockEntry =>
      if compact then return .list tag (← compactItems n)
      else if mayBeEmpty then return .scalar tag .plain "" else failure
    | .scalar style text =>
      advance
      return .scalar (if tag = some "!" then none else tag) style text
    | .flowListStart =>
      advance
      return .list tag (← flowItems true n)
    | .flowTableStart =>
      advance
      return .table tag (← flowEntries true n)
    | t =>
      if inBlock && t == .blockListStart then
        advance
        return .list tag (← blockItems n)
      else if inBlock && t == .blockTableStart then
        advance
        return .table tag (← blockEntries n)
      else if mayBeEmpty then
        return .scalar tag .plain ""
      else
        failure

/-- The items of a block list up to its end. -/
def blockItems : (n : Nat) → Reading (List Node)
  | 0 => failure
  | n + 1 => do
    if ← take .blockEnd then return []
    else if ← take .blockEntry then
      let t ← peek
      let item ← if t == .blockEntry || t == .blockEnd then pure .empty else node true false n
      return item :: (← blockItems n)
    else
      failure

/-- The items of a list at the column of its key. -/
def compactItems : (n : Nat) → Reading (List Node)
  | 0 => failure
  | n + 1 => do
    if ← take .blockEntry then
      let t ← peek
      let item ←
        if t == .blockEntry || endsBlockPlace t then pure .empty else node true false n
      return item :: (← compactItems n)
    else
      return []

/-- The entries of a block table up to its end. -/
def blockEntries : (n : Nat) → Reading (List (Node × Node))
  | 0 => failure
  | n + 1 => do
    if ← take .blockEnd then return []
    else if ← take .key then
      let key ← blockPlace n
      let value ← if ← take .value then blockPlace n else pure .empty
      return (key, value) :: (← blockEntries n)
    else
      failure

/-- A key or value of a block table. -/
def blockPlace : (n : Nat) → Reading Node
  | 0 => failure
  | n + 1 => do
    if endsBlockPlace (← peek) then return .empty else node true true n

/-- The items of a flow list up to its end. An item with a colon is a table of one entry. -/
def flowItems (first : Bool) : (n : Nat) → Reading (List Node)
  | 0 => failure
  | n + 1 => do
    if ← take .flowListEnd then return []
    else if !first && !(← take .flowEntry) then failure
    else if ← take .flowListEnd then return []
    else
      let item ← if ← take .key then flowPair n else node false false n
      return item :: (← flowItems false n)

/-- The table that one entry within a flow list makes. -/
def flowPair : (n : Nat) → Reading Node
  | 0 => failure
  | n + 1 => do
    let t ← peek
    let key ←
      if t == .value || t == .flowEntry || t == .flowListEnd then do
        advance
        pure .empty
      else node false false n
    let value ← if ← take .value then flowPlace .flowListEnd n else pure .empty
    return .table none [(key, value)]

/-- The entries of a flow table up to its end. -/
def flowEntries (first : Bool) : (n : Nat) → Reading (List (Node × Node))
  | 0 => failure
  | n + 1 => do
    if ← take .flowTableEnd then return []
    else if !first && !(← take .flowEntry) then failure
    else if ← take .flowTableEnd then return []
    else if ← take .key then
      let key ← if (← peek) == .value then pure .empty else flowPlace .flowTableEnd n
      let value ← if ← take .value then flowPlace .flowTableEnd n else pure .empty
      return (key, value) :: (← flowEntries false n)
    else
      let key ← node false false n
      return (key, .empty) :: (← flowEntries false n)

/-- A key or value of a flow collection that ends with `close`. -/
def flowPlace (close : Token) : (n : Nat) → Reading Node
  | 0 => failure
  | n + 1 => do
    let t ← peek
    if t == .flowEntry || t == close then return .empty else node false false n

end

/-! ### Documents -/

/-- Reads the directives before a document, and answers whether there are any. -/
def directives (versioned any : Bool) : (n : Nat) → Reading Bool
  | 0 => failure
  | n + 1 => do
    match ← peek with
    | .version major minor =>
      if versioned || major != 1 || (minor != 1 && minor != 2) then failure
      else
        advance
        directives true true n
    | .tagPrefix handle expansion =>
      if ((← get).prefixes.lookup handle).isSome then failure
      else
        advance
        modify fun g => { g with prefixes := (handle, expansion) :: g.prefixes }
        directives versioned true n
    | _ => return any

/-- The only document of the tokens. -/
def document (n : Nat) : Reading Node := do
  let directed ← directives false false n
  let marked ← take .documentStart
  if directed && !marked then failure
  modify fun g => { g with prefixes := g.prefixes ++ [("!", "!"), ("!!", coreTag "")] }
  let root ← match ← peek with
    | .streamEnd => if marked then pure .empty else failure
    | .documentEnd => if marked then pure .empty else failure
    | .documentStart | .version .. | .tagPrefix .. => pure .empty
    | _ => node true false n
  ends n
  return root
where
  /-- Nothing may follow but markers of the end. -/
  ends : (n : Nat) → Reading Unit
    | 0 => failure
    | n + 1 => do
      if ← take .documentEnd then ends n
      else unless (← peek) == .streamEnd do failure

end Grammar

/-- The document that a text spells. -/
def Tree.ofText? (text : String) : Option Tree := do
  let tokens ← tokens? text
  let start : Grammar := ⟨tokens, [], [], [], []⟩
  let (root, g) ← (Grammar.document (4 * tokens.length + 4)).run start
  let anchors := g.positions.filterMap fun (number, position) =>
    (g.nodes.lookup position).map (number, ·)
  return ⟨root, anchors⟩

end Raster.Yaml
