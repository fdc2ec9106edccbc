import Raster.Yaml.Node

/-!
# YAML nodes as documents

Before a tree is read its aliases give way to what they stand for. How often that happens is
limited by the size of the tree, and so is the depth of the result. A scalar that is asked for a
text gives one whatever it denotes; where plain data are asked for, the core schema decides.
-/

namespace Raster.Yaml

/-! ### Aliases -/

mutual

/-- One for a scalar or alias, two for a collection beside what it holds. -/
def Node.weight : Node → Nat
  | .alias _ | .scalar .. => 1
  | .list _ items => 2 + itemsWeight items
  | .table _ entries => 2 + entriesWeight entries

def itemsWeight : List Node → Nat
  | [] => 0
  | item :: items => item.weight + itemsWeight items

def entriesWeight : List (Node × Node) → Nat
  | [] => 0
  | (key, value) :: entries => key.weight + value.weight + entriesWeight entries

end

/-- The depth to which nodes are read, the outermost collection counting one. -/
def depthLimit : Nat := 128

/-- A computation that may follow as many aliases as its state says. -/
abbrev Expansion := StateT Nat Option

namespace Tree

variable (t : Tree)

/-- What an alias stands for, or the node itself. -/
def follow : Node → Expansion Node
  | .alias anchor => do
    match ← get with
    | 0 => failure
    | n + 1 =>
      set n
      t.anchors.lookup anchor
  | node => return node

/-- The node without aliases, if it is no deeper than `depth` collections. -/
def expand : (depth : Nat) → Node → Expansion Node
  | 0, node => do
    match ← t.follow node with
    | .scalar tag style text => return .scalar tag style text
    | _ => failure
  | depth + 1, node => do
    match ← t.follow node with
    | .list tag items => return .list tag (← items.mapM (expand depth))
    | .table tag entries =>
      return .table tag (← entries.mapM fun (key, value) => do
        return (← expand depth key, ← expand depth value))
    | node => return node

/-- The entries of the root whose keys are among `names`, without aliases. The values of other
keys are passed over unread. -/
def fields (names : List String) : List (Node × Node) → Expansion (List (Node × Node))
  | [] => return []
  | (key, value) :: entries => do
    match ← t.follow key with
    | .scalar tag style text =>
      if text ∈ names then
        let value ← t.expand (depthLimit - 1) value
        return (.scalar tag style text, value) :: (← fields names entries)
      else fields names entries
    | _ => failure

/-- The root as a table of these fields, without aliases. -/
def record? (names : List String) : Option Node :=
  match t.root with
  | .table tag entries => do
    let (entries, _) ← (t.fields names entries).run (100 * t.root.weight)
    return .table tag entries
  | _ => none

end Tree

/-! ### Data -/

namespace Node

def isLocal (tag : Option String) : Bool := tag.any isLocalTag

mutual

/-- What a node without aliases denotes; nothing if there is a tag of the document's own. -/
def datum? : Node → Option Datum
  | .alias _ => none
  | .scalar tag style text => scalarDatum? tag style text
  | .list tag items => do
    if isLocal tag then none else return .list (← itemsDatum? items)
  | .table tag entries => do
    if isLocal tag then none else return .table (← entriesDatum? entries)

def itemsDatum? : List Node → Option (List Datum)
  | [] => some []
  | item :: items => do return (← item.datum?) :: (← itemsDatum? items)

def entriesDatum? : List (Node × Node) → Option (List (Datum × Datum))
  | [] => some []
  | (key, value) :: entries => do
    return (← key.datum?, ← value.datum?) :: (← entriesDatum? entries)

end

def text? : Node → Option String
  | .scalar _ _ text => some text
  | _ => none

/-- The text of a scalar that may denote something else than a text: a plain one, or a literal
block with the tag of what is asked for. -/
def unquoted? (name : String) : Node → Option String
  | .scalar _ .plain text => some text
  | .scalar (some tag) .literal text => if tag = coreTag name then some text else none
  | _ => none

/-- Whether a table entry has the text `name` as its key. -/
def isKey (name : String) (key : Node) : Bool := key.datum?.any (·.isText name)

/-- The name that a local tag spells: what follows the exclamation mark, if anything does. -/
def tagName (tag : String) : String := if tag = "!" then tag else (tag.drop 1).toString

instance : Document Node where
  fields? _
    | .table _ entries => entries.mapM fun (key, value) => key.text?.map (·, value)
    | _ => none
  tagged? name cases
    | .table tag entries => do
      if isLocal tag then none
      match entries.filter (·.1.isKey name) with
      | [(_, .scalar _ _ text)] =>
        let rest ← entriesDatum? (entries.filter (!·.1.isKey name))
        if text ∈ cases then return (text, .table rest) else none
      | _ => none
    | .list tag (.scalar _ _ text :: items) => do
      if isLocal tag then none
      let rest ← itemsDatum? items
      if text ∈ cases then return (text, .list rest) else none
    | _ => none
  name? names
    | .scalar (some tag) style text =>
      if isLocalTag tag then
        let name := tagName tag
        if style = .plain ∧ (text.isEmpty ∨ isNull text) ∧ name ∈ names then some name else none
      else if text ∈ names then some text else none
    | .scalar none _ text => if text ∈ names then some text else none
    | _ => none
  items?
    | .list _ items => some items
    | .scalar _ .plain "" => some []
    | _ => none
  text? := text?
  nat? node := do word? (← node.unquoted? "int")
  bool? node := do Yaml.bool? (← node.unquoted? "bool")

end Node

end Raster.Yaml
