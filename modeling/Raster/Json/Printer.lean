import Raster.Json.Basic

/-!
# Writing JSON

`pretty` gives every item and member a line of its own, two blanks further in than its
collection; an empty collection stays closed. `compact` has no blanks at all.
-/

namespace Raster.Json

/-- The escape of a character in a string, or the character itself. -/
def escape (c : Char) : List Char :=
  match c with
  | '"' => ['\\', '"']
  | '\\' => ['\\', '\\']
  | '\x08' => ['\\', 'b']
  | '\x0c' => ['\\', 'f']
  | '\n' => ['\\', 'n']
  | '\r' => ['\\', 'r']
  | '\t' => ['\\', 't']
  | c => if c < ' ' then ['\\', 'u', '0', '0', hexDigit (c.toNat / 16), hexDigit (c.toNat % 16)]
    else [c]
where
  hexDigit (n : Nat) : Char := if n < 10 then .ofNat (48 + n) else .ofNat (87 + n)

/-- A quoted string. A text without characters is written as one unpaired surrogate. -/
def quote : Option String → List Char
  | some s => '"' :: (s.toList.flatMap escape ++ ['"'])
  | none => ['"', '\\', 'u', 'd', '8', '0', '0', '"']

def Number.toChars : Number → List Char
  | .integer negative magnitude => (if negative then ['-'] else []) ++ Nat.toDigits 10 magnitude
  | .decimal negative significand exponent =>
    (if negative then ['-'] else []) ++ Nat.toDigits 10 significand ++ 'e' ::
      (if exponent < 0 then '-' :: Nat.toDigits 10 exponent.natAbs
       else Nat.toDigits 10 exponent.natAbs)

def boolChars (b : Bool) : List Char :=
  if b then ['t', 'r', 'u', 'e'] else ['f', 'a', 'l', 's', 'e']

/-- A line break and the indentation of this depth. -/
def lineBreak (depth : Nat) : List Char := '\n' :: List.replicate (2 * depth) ' '

mutual

/-- The characters of a value at this depth, every item and member on its own line. -/
def prettyChars (depth : Nat) : Json → List Char
  | .null => ['n', 'u', 'l', 'l']
  | .bool b => boolChars b
  | .number n => n.toChars
  | .string s => quote s
  | .list [] => ['[', ']']
  | .list items => '[' :: (prettyItems (depth + 1) items ++ lineBreak depth ++ [']'])
  | .object [] => ['{', '}']
  | .object members => '{' :: (prettyMembers (depth + 1) members ++ lineBreak depth ++ ['}'])

def prettyItems (depth : Nat) : List Json → List Char
  | [] => []
  | [item] => lineBreak depth ++ prettyChars depth item
  | item :: items => lineBreak depth ++ prettyChars depth item ++ ',' :: prettyItems depth items

def prettyMembers (depth : Nat) : List (Option String × Json) → List Char
  | [] => []
  | [(key, value)] => lineBreak depth ++ quote key ++ ':' :: ' ' :: prettyChars depth value
  | (key, value) :: members =>
    lineBreak depth ++ quote key ++ ':' :: ' ' :: prettyChars depth value ++
      ',' :: prettyMembers depth members

end

def pretty (j : Json) : String := .ofList (prettyChars 0 j)

def separate (out : String) (first : Bool) : String := if first then out else out.push ','

mutual

/-- Puts the text of a value after what is already written. -/
def compactOnto (out : String) : Json → String
  | .null => out ++ "null"
  | .bool b => out ++ (if b then "true" else "false")
  | .number n => out ++ .ofList n.toChars
  | .string s => out ++ .ofList (quote s)
  | .list items => (compactItems (out.push '[') true items).push ']'
  | .object members => (compactMembers (out.push '{') true members).push '}'

def compactItems (out : String) (first : Bool) : List Json → String
  | [] => out
  | item :: items => compactItems (compactOnto (separate out first) item) false items

def compactMembers (out : String) (first : Bool) : List (Option String × Json) → String
  | [] => out
  | (key, value) :: members =>
    let out := separate out first ++ .ofList (quote key)
    compactMembers (compactOnto (out.push ':') value) false members

end

def compact (j : Json) : String := compactOnto "" j

end Raster.Json
