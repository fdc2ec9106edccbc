import Raster.Json.Printer
import Raster.Yaml.Quoting

/-!
# Writing YAML

Values are written in block form, one scalar a line. What an entry holds stands two blanks
further in, but a list stays at the column of its key. An empty collection is written in
brackets.
-/

namespace Raster.Json

open Yaml (spaces textLine)

mutual

/-- A value whose first line has its `indent` blanks already, up to the end of its last line. -/
def blockChars (indent : Nat) : Json → List Char
  | .null => "null\n".toList
  | .bool b => boolChars b ++ ['\n']
  | .number n => n.toChars ++ ['\n']
  | .string s => textLine (max indent 2) (s.getD "")
  | .list [] => "[]\n".toList
  | .list (item :: items) => '-' :: ' ' :: blockChars (indent + 2) item ++ itemChars indent items
  | .object [] => "\x7b\x7d\n".toList
  | .object ((key, value) :: members) =>
    (key.getD "").toList ++ ':' :: valueChars indent value ++ memberChars indent members

/-- Items at this column. -/
def itemChars (indent : Nat) : List Json → List Char
  | [] => []
  | item :: items =>
    spaces indent ++ '-' :: ' ' :: blockChars (indent + 2) item ++ itemChars indent items

/-- The value of an entry at this column, from the colon on. -/
def valueChars (indent : Nat) : Json → List Char
  | .list (item :: items) =>
    '\n' :: spaces indent ++ '-' :: ' ' :: blockChars (indent + 2) item ++ itemChars indent items
  | .object ((key, value) :: members) =>
    '\n' :: spaces (indent + 2) ++ (key.getD "").toList ++
      ':' :: valueChars (indent + 2) value ++ memberChars (indent + 2) members
  | value => ' ' :: blockChars (indent + 2) value

/-- Entries at this column. The keys are words that need no quotes. -/
def memberChars (indent : Nat) : List (Option String × Json) → List Char
  | [] => []
  | (key, value) :: members =>
    spaces indent ++ (key.getD "").toList ++ ':' :: valueChars indent value ++
      memberChars indent members

end

/-- The value as a YAML document. -/
def toYaml (j : Json) : String := .ofList (blockChars 0 j)

end Raster.Json
