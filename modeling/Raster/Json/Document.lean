import Raster.Datum
import Raster.Decimal
import Raster.Json.Basic
import Raster.Word

/-!
# JSON values as documents

What a decoder reads has a limited depth and holds only texts with characters and numbers that
are not too large. What it passes over may hold anything.
-/

namespace Raster.Json

namespace Number

/-- Whether the number lies beyond the range of double-precision numbers. -/
def isTooLarge : Number → Bool
  | integer _ magnitude => Decimal.isTooLarge ⟨magnitude, 0⟩
  | decimal _ significand exponent => Decimal.isTooLarge ⟨significand, exponent⟩

/-- The number that fits a word and is written without sign, fraction or exponent. -/
def nat? : Number → Option Nat
  | integer false n => if n < Word.bound then some n else none
  | _ => none

def datum? (n : Number) : Option Datum :=
  match n.nat? with
  | some n => some (.nat n)
  | none => if n.isTooLarge then none else some .number

end Number

/-- The depth to which values are read, the outermost collection counting one. -/
def depthLimit : Nat := 127

/-- The tree that a value denotes, if it is no deeper than `depth` collections. -/
def datum? (depth : Nat) (j : Json) : Option Datum :=
  match j with
  | null => some .null
  | bool b => some (.bool b)
  | number n => n.datum?
  | string s => s.map .text
  | list items =>
    match depth with
    | 0 => none
    | depth + 1 => (items.mapM (datum? depth)).map .list
  | object members =>
    match depth with
    | 0 => none
    | depth + 1 => (members.mapM (member? depth)).map .table
where
  /-- An entry of a table. -/
  member? (depth : Nat) (m : Option String × Json) : Option (Datum × Datum) := do
    return (.text (← m.1), ← datum? depth m.2)

/-- A value with the depth that is left for it. -/
structure Part where
  depth : Nat
  value : Json

namespace Part

/-- The members of an object whose keys are all texts. -/
def members? (depth : Nat) (members : List (Option String × Json)) :
    Option (List (String × Part)) :=
  members.mapM fun (key, value) => key.map (·, ⟨depth, value⟩)

instance : Document Part where
  fields? names
    | ⟨depth + 1, object members⟩ => members? depth members
    | ⟨depth + 1, list items⟩ => Document.zipFields? names (items.map (⟨depth, ·⟩))
    | _ => none
  tagged? tag cases
    | ⟨depth + 1, object members⟩ =>
      match members.filter (·.1 == some tag) with
      | [(_, string (some name))] => do
        let rest ← datum? (depth + 1) (object (members.filter (·.1 != some tag)))
        if name ∈ cases then return (name, rest) else none
      | _ => none
    | ⟨depth + 1, list (string (some name) :: items)⟩ => do
      let rest ← datum? (depth + 1) (list items)
      if name ∈ cases then return (name, rest) else none
    | _ => none
  name? names
    | ⟨_, string (some s)⟩ => if s ∈ names then some s else none
    | ⟨_ + 1, object [(some s, null)]⟩ => if s ∈ names then some s else none
    | _ => none
  items?
    | ⟨depth + 1, list items⟩ => some (items.map (⟨depth, ·⟩))
    | _ => none
  text?
    | ⟨_, string s⟩ => s
    | _ => none
  nat?
    | ⟨_, number n⟩ => n.nat?
    | _ => none
  bool?
    | ⟨_, bool b⟩ => some b
    | _ => none

end Part

end Raster.Json
