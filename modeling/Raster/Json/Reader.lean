import Raster.Json.Token

/-!
# Reading JSON

A value is put together token by token over the stack of the collections still open, so that the
depth of a text costs no recursion.
-/

namespace Raster.Json

/-- A collection still open: what it holds so far, in reverse. -/
inductive Frame where
  | list (before : List Json)
  | object (before : List (Option String × Json)) (key : Option String)

/-- What the text may go on with. -/
inductive Expected where
  /-- A value. -/
  | value (stack : List Frame)
  /-- The first item of a list, or its end. -/
  | item (stack : List Frame)
  /-- The first key of an object, or its end. -/
  | member (stack : List Frame)
  /-- The next key of an object. -/
  | key (before : List (Option String × Json)) (stack : List Frame)
  | colon (before : List (Option String × Json)) (key : Option String) (stack : List Frame)
  /-- After a value: a comma or the end of the collection; nothing if none is open. -/
  | separator (value : Json) (stack : List Frame)

namespace Expected

/-- The start of a value. -/
def begin? (stack : List Frame) : Token → Option Expected
  | .null => some (.separator .null stack)
  | .bool b => some (.separator (.bool b) stack)
  | .number n => some (.separator (.number n) stack)
  | .string s => some (.separator (.string s) stack)
  | .listStart => some (.item stack)
  | .objectStart => some (.member stack)
  | _ => none

def next? : Expected → Token → Option Expected
  | value stack, t => begin? stack t
  | item stack, .listEnd => some (separator (.list []) stack)
  | item stack, t => begin? (.list [] :: stack) t
  | member stack, .objectEnd => some (separator (.object []) stack)
  | member stack, .string k => some (colon [] k stack)
  | key before stack, .string k => some (colon before k stack)
  | colon before k stack, .colon => some (value (.object before k :: stack))
  | separator v (.list before :: stack), .comma => some (value (.list (v :: before) :: stack))
  | separator v (.list before :: stack), .listEnd =>
    some (separator (.list (v :: before).reverse) stack)
  | separator v (.object before k :: stack), .comma => some (key ((k, v) :: before) stack)
  | separator v (.object before k :: stack), .objectEnd =>
    some (separator (.object ((k, v) :: before).reverse) stack)
  | _, _ => none

end Expected

/-- The value that tokens spell. -/
def ofTokens? (tokens : List Token) : Option Json :=
  match tokens.foldlM Expected.next? (.value []) with
  | some (.separator v []) => some v
  | _ => none

/-- The value that a text spells. -/
def parse? (text : String) : Option Json := do ofTokens? (← Token.ofChars? text.toList)

end Raster.Json
