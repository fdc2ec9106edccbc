import Raster.Datum
import Raster.Decimal
import Raster.Word
import Raster.Yaml.Scalar

/-!
# What plain scalars denote

Null, truth values and numbers have spellings of their own; any other plain scalar is a text.
-/

namespace Raster.Yaml

def isNull (s : String) : Bool := s == "null" || s == "Null" || s == "NULL" || s == "~"

def bool? : String → Option Bool
  | "true" | "True" | "TRUE" => some true
  | "false" | "False" | "FALSE" => some false
  | _ => none

/-! ### Integers -/

/-- The number that these digits denote; there must be some. -/
def digits? (radix : Nat) (cs : List Char) : Option Nat :=
  if cs = [] then none
  else cs.foldlM (fun n c => do
    let d ← hexDigit? c
    if d < radix then some (radix * n + d) else none) 0

def isSign (c : Char) : Bool := c == '+' || c == '-'

/-- The characters behind a sign, or all if there is none. -/
def dropSign : List Char → List Char
  | c :: cs => if isSign c then cs else c :: cs
  | [] => []

/-- Several digits of which the first is zero. They are no number. -/
def isPadded (cs : List Char) : Bool :=
  match dropSign cs with
  | '0' :: c :: cs => (c :: cs).all Char.isDigit
  | _ => false

/-- The magnitude of an integer, in base ten or with the mark of another base. -/
def magnitude? : List Char → Option Nat
  | '0' :: 'x' :: cs => digits? 16 cs
  | '0' :: 'o' :: cs => digits? 8 cs
  | '0' :: 'b' :: cs => digits? 2 cs
  | cs => if isPadded cs then none else digits? 10 cs

/-- A number without a minus sign. -/
def natural? : List Char → Option Nat
  | '+' :: cs => magnitude? cs
  | cs => magnitude? cs

/-- A number that fits a word. -/
def word? (s : String) : Option Nat := (natural? s.toList).filter (· < Word.bound)

/-- Whether an integer of at most 128 bits has a minus sign, and its magnitude. -/
def integer? : List Char → Option (Bool × Nat)
  | '-' :: cs => ((magnitude? cs).filter (· ≤ Offset.bound * Word.bound)).map (true, ·)
  | cs => ((natural? cs).filter (· < Word.bound * Word.bound)).map (false, ·)

/-- What an integer denotes, if it fits 64 bits. -/
def integerDatum? (negative : Bool) (magnitude : Nat) : Option Datum :=
  if negative then
    if magnitude = 0 then some .minusZero
    else if magnitude ≤ Offset.bound then some .number
    else none
  else if magnitude < Word.bound then some (.nat magnitude)
  else none

/-! ### Other numbers -/

/-- The exponent behind the digits, 0 if there is none. -/
def exponent? : List Char → Option Int
  | [] => some 0
  | c :: cs =>
    if c = 'e' ∨ c = 'E' then do
      let n ← digits? 10 (dropSign cs)
      return if cs.head? == some '-' then -n else n
    else none

/-- The magnitude of a decimal number with an optional sign, fraction and exponent. -/
def decimal? (cs : List Char) : Option Decimal := do
  let cs := dropSign cs
  let whole := cs.takeWhile Char.isDigit
  let rest := cs.dropWhile Char.isDigit
  let (fraction, rest) := match rest with
    | '.' :: rest => (rest.takeWhile Char.isDigit, rest.dropWhile Char.isDigit)
    | rest => ([], rest)
  return ⟨← digits? 10 (whole ++ fraction), (← exponent? rest) - fraction.length⟩

/-- The spellings of infinities and of what is not a number. -/
def isSpecialFloat (s : String) : Bool :=
  let isInfinity := fun t => [".inf", ".Inf", ".INF"].contains (String.ofList t)
  isInfinity (dropSign s.toList) || [".nan", ".NaN", ".NAN"].contains s

def isFloat (s : String) : Bool :=
  isSpecialFloat s || (decimal? s.toList).any (!·.isTooLarge)

/-! ### Scalars -/

/-- What a plain scalar without a tag denotes. An integer that needs more than 64 bits denotes
nothing. -/
def plainDatum? (s : String) : Option Datum :=
  if s.isEmpty || isNull s then some .null
  else
    match bool? s, integer? s.toList with
    | some b, _ => some (.bool b)
    | none, some (negative, magnitude) => integerDatum? negative magnitude
    | none, none => some (if !isPadded s.toList && isFloat s then .number else .text s)

/-- The start of a tag that the schema knows. -/
def coreTag (name : String) : String := "tag:yaml.org,2002:" ++ name

/-- A tag of the document's own. -/
def isLocalTag (tag : String) : Bool := tag.startsWith "!"

/-- What a scalar with this tag denotes. -/
def taggedDatum? (tag s : String) : Option Datum :=
  if tag = coreTag "bool" then (bool? s).map .bool
  else if tag = coreTag "int" then do
    let (negative, magnitude) ← integer? s.toList
    integerDatum? negative magnitude
  else if tag = coreTag "float" then if isFloat s then some .number else none
  else if tag = coreTag "null" then if isNull s then some .null else none
  else if isLocalTag tag then none
  else some (.text s)

/-- What a scalar denotes. -/
def scalarDatum? (tag : Option String) (style : Style) (s : String) : Option Datum :=
  match tag with
  | some tag => taggedDatum? tag s
  | none => if style = .plain then plainDatum? s else some (.text s)

end Raster.Yaml
