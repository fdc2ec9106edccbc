/-!
# JSON values

Objects keep the order of their members and repeated keys. A text with an unpaired surrogate
escape has no characters; such a string or key is `none`.
-/

namespace Raster

namespace Json

/-- A number as it is written. -/
inductive Number where
  | integer (negative : Bool) (magnitude : Nat)
  /-- The significand times a power of ten, written with a fraction or an exponent. -/
  | decimal (negative : Bool) (significand : Nat) (exponent : Int)
  deriving DecidableEq, Repr

end Json

inductive Json where
  | null
  | bool (b : Bool)
  | number (n : Json.Number)
  | string (s : Option String)
  | list (items : List Json)
  | object (members : List (Option String × Json))
  deriving Repr, Inhabited, BEq

namespace Json

def nat (n : Nat) : Json := number (.integer false n)

def text (s : String) : Json := string (some s)

/-- An object with these members. -/
def record (members : List (String × Json)) : Json :=
  object (members.map fun (key, value) => (some key, value))

/-- The first member of this name. -/
def get? (j : Json) (name : String) : Option Json :=
  match j with
  | object members => (members.find? (·.1 == some name)).map (·.2)
  | _ => none

end Json

end Raster
