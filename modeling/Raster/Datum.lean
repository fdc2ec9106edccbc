/-!
# Documents

`Datum` is the tree that a document denotes once its notation is forgotten. A document that is
still in its notation answers the questions of `Document`; its scalars may be read in more than
one way, and only the question decides.
-/

namespace Raster

inductive Datum where
  | null
  | bool (b : Bool)
  /-- A natural number that fits a word. -/
  | nat (n : Nat)
  /-- Zero with a minus sign: a value like zero, but nothing is counted by it. -/
  | minusZero
  /-- Any other number. -/
  | number
  | text (s : String)
  | list (items : List Datum)
  | table (entries : List (Datum × Datum))
  deriving Repr, Inhabited, BEq

/-- What a decoder may ask of a document or a part of one. Every answer is `none` when the part
is not of the kind asked for. -/
class Document (δ : Type) where
  /-- The fields of a record whose fields have these names, written as a table or as the list
  of its fields in order. Fields of other names may be left out. -/
  fields? : (names : List String) → δ → Option (List (String × δ))
  /-- The case of a record that a tag tells, one of these, and the rest of the record. -/
  tagged? : (tag : String) → (cases : List String) → δ → Option (String × Datum)
  /-- A name, one of these, written as a text or as a table of one entry. -/
  name? : (names : List String) → δ → Option String
  items? : δ → Option (List δ)
  text? : δ → Option String
  nat? : δ → Option Nat
  bool? : δ → Option Bool

namespace Document

/-- The entries of a list written instead of a record. -/
def zipFields? {δ : Type} (names : List String) (items : List δ) : Option (List (String × δ)) :=
  if items.length ≤ names.length then some (names.zip items) else none

/-- The value of a field: `some none` if it is missing, `none` if it is given twice. -/
def find? {δ : Type} (fields : List (String × δ)) (name : String) : Option (Option δ) :=
  match fields.filter (·.1 == name) with
  | [] => some none
  | [(_, value)] => some (some value)
  | _ => none

variable {δ α : Type}

/-- A field that must be given. -/
def required? (fields : List (String × δ)) (name : String) (decode : δ → Option α) : Option α := do
  decode (← (← find? fields name))

/-- A field that has a value when it is missing. -/
def optional? (fields : List (String × δ)) (name : String) (decode : δ → Option α)
    (missing : α) : Option α := do
  match ← find? fields name with
  | some value => decode value
  | none => return missing

end Document

namespace Datum

/-- The name that a key gives: a text is the name itself, a number counts the names from 0. A
number past the last name is the name of no field. -/
def fieldName? (names : List String) : Datum → Option (Option String)
  | text s => some (some s)
  | nat n => some names[n]?
  | _ => none

/-- The one of these names that is written as a text or counted by a number. -/
def caseName? (names : List String) : Datum → Option String
  | text s => if s ∈ names then some s else none
  | nat n => names[n]?
  | _ => none

/-- The entries with named keys; `none` if some key can name nothing. -/
def namedEntries? (names : List String) : List (Datum × Datum) → Option (List (String × Datum))
  | [] => some []
  | (key, value) :: entries => do
    let name ← key.fieldName? names
    let rest ← namedEntries? names entries
    return match name with
      | some name => (name, value) :: rest
      | none => rest

def isText (name : String) : Datum → Bool
  | text s => s == name
  | _ => false

instance : Document Datum where
  fields? names
    | table entries => namedEntries? names entries
    | list items => Document.zipFields? names items
    | _ => none
  tagged? tag cases
    | table entries =>
      match entries.filter (·.1.isText tag) with
      | [(_, value)] => do
        return (← value.caseName? cases, table (entries.filter (!·.1.isText tag)))
      | _ => none
    | list (value :: items) => do return (← value.caseName? cases, list items)
    | _ => none
  name? names
    | text s => if s ∈ names then some s else none
    | table [(key, value)] =>
      match value with
      | null | table [] => key.caseName? names
      | _ => none
    | _ => none
  items?
    | list items => some items
    | _ => none
  text?
    | text s => some s
    | _ => none
  nat?
    | nat n => some n
    | minusZero => some 0
    | _ => none
  bool?
    | bool b => some b
    | _ => none

end Datum

end Raster
