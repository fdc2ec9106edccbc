import Raster.Yaml.Scalar

/-!
# The tokens of a YAML text

Blocks are marked by indentation alone, and a key only by the colon behind it. The scan keeps
the stack of block columns and, for each flow collection still open, the place where a key may
have started; a colon puts the key's token there after the fact.
-/

namespace Raster.Yaml

/-- A place where a key may have started. -/
structure KeyPlace where
  /-- The number of tokens before it. -/
  tokens : Nat
  /-- The block cannot go on here with anything but a key. -/
  required : Bool
  index : Nat
  line : Nat
  column : Nat

structure Scan where
  here : Cursor
  tokens : Array Token
  /-- The column of the current block, -1 outside of all blocks. -/
  indent : Int
  /-- The columns of the blocks around it. -/
  outer : List Int
  /-- Whether a key may start here. -/
  keyAllowed : Bool
  /-- The place of a possible key in the block, or in the innermost flow collection. -/
  place : Option KeyPlace
  /-- The places of the collections around it; none in a block. -/
  places : List (Option KeyPlace)

namespace Scan

def start (text : List Char) : Scan := ⟨.start text, #[], -1, [], true, none, []⟩

def inFlow (s : Scan) : Bool := !s.places.isEmpty

def push (s : Scan) (t : Token) : Scan := { s with tokens := s.tokens.push t }

/-- Adds a token of `n` characters. -/
def take (s : Scan) (t : Token) (n : Nat) : Scan :=
  { s with tokens := s.tokens.push t, here := s.here.skip n }

/-! ### Blocks -/

/-- Opens a block at this column if it is further in than the current one, its token coming
after `before` others. -/
def enter (s : Scan) (column before : Nat) (t : Token) : Scan :=
  if !s.inFlow && s.indent < column then
    { s with
      indent := column
      outer := s.indent :: s.outer
      tokens := s.tokens.insertIdxIfInBounds before t }
  else s

/-- Closes the blocks further in than `column`, given the columns around them. -/
def leaveAll (column : Int) (tokens : Array Token) (indent : Int) :
    List Int → Array Token × Int × List Int
  | [] => (tokens, indent, [])
  | next :: outer =>
    if column < indent then leaveAll column (tokens.push .blockEnd) next outer
    else (tokens, indent, next :: outer)

/-- Closes the blocks further in than `column`. -/
def leave (s : Scan) (column : Int) : Scan :=
  if s.inFlow then s
  else
    let (tokens, indent, outer) := leaveAll column s.tokens s.indent s.outer
    { s with tokens, indent, outer }

/-! ### Keys -/

/-- Gives up the place of a possible key; fails if the key is required. -/
def dropPlace? (s : Scan) : Option Scan :=
  if s.place.any (·.required) then none else some { s with place := none }

/-- Notes that a key may start here. -/
def notePlace? (s : Scan) : Option Scan :=
  if s.keyAllowed then do
    let required := !s.inFlow && s.indent == s.here.column
    let place : KeyPlace := ⟨s.tokens.size, required, s.here.index, s.here.line, s.here.column⟩
    return { ← s.dropPlace? with place := some place }
  else some s

/-- Forgets a place that is too far back: a key has one line and at most 1024 characters. Fails
if the key is required. -/
def freshPlace? (here : Cursor) : Option KeyPlace → Option (Option KeyPlace)
  | none => some none
  | some p =>
    if p.line < here.line || p.index + 1024 < here.index then
      if p.required then none else some none
    else some (some p)

def freshPlaces? (s : Scan) : Option Scan := do
  return { s with
    place := ← freshPlace? s.here s.place
    places := ← s.places.mapM (freshPlace? s.here) }

/-! ### Between tokens -/

/-- Moves over blanks, comments and line breaks, `n` characters at most. -/
def toToken (s : Scan) : (n : Nat) → Scan
  | 0 => s
  | n + 1 =>
    let here := if s.here.column == 0 && s.here.head == some '\ufeff' then s.here.skip 1 else s.here
    let tabs := s.inFlow || !s.keyAllowed
    let here := here.skipWhile fun c => c == ' ' || (tabs && c == '\t')
    let here := if here.head == some '#' then here.skipLine else here
    match here.head with
    | some c =>
      if isBreak c then
        toToken { s with here := here.skipBreak, keyAllowed := s.keyAllowed || !s.inFlow } n
      else { s with here }
    | none => { s with here }

/-! ### Directives, anchors and tags -/

/-- The digits at the cursor, one to nine of them. -/
def versionNumber? (here : Cursor) : Option (Nat × Cursor) :=
  let digits := here.rest.takeWhile Char.isDigit
  if digits.isEmpty || 9 < digits.length then none
  else some (digits.foldl (fun n c => 10 * n + (c.toNat - 48)) 0, here.skip digits.length)

/-- A tag handle: an exclamation mark, perhaps word characters and another mark. -/
def tagHandle? (here : Cursor) : Option (String × Cursor) :=
  if here.head == some '!' then
    let word := (here.skip 1).rest.takeWhile isWordChar
    let behind := here.skip (word.length + 1)
    if behind.head == some '!' then some ("!" ++ .ofList word ++ "!", behind.skip 1)
    else some ("!" ++ .ofList word, behind)
  else none

def isTagChar (verbatim : Bool) (c : Char) : Bool :=
  isWordChar c || ";/?:@&=+$.%!~*'()".toList.contains c || (verbatim && ",[]".toList.contains c)

/-- The bytes that percent escapes at the start stand for, with what follows them. -/
def percentBytes? : List Char → Option (List Nat × List Char)
  | '%' :: a :: b :: rest => do
    let byte := (← hexDigit? a) * 16 + (← hexDigit? b)
    let (bytes, rest) ← percentBytes? rest
    return (byte :: bytes, rest)
  | '%' :: _ => none
  | rest => some ([], rest)

/-- The characters of a tag with its percent escapes resolved. -/
def unescapeTag? (cs : List Char) : (n : Nat) → Option (List Char)
  | 0 => some []
  | n + 1 =>
    match cs with
    | [] => some []
    | '%' :: _ => do
      let (bytes, rest) ← percentBytes? cs
      let text ← String.fromUTF8? ⟨(bytes.map UInt8.ofNat).toArray⟩
      return text.toList ++ (← unescapeTag? rest n)
    | c :: rest => do return c :: (← unescapeTag? rest n)

/-- The tag characters at the cursor. -/
def tagText? (verbatim : Bool) (here : Cursor) : Option (String × Cursor) := do
  let written := here.rest.takeWhile (isTagChar verbatim)
  return (.ofList (← unescapeTag? written written.length), here.skip written.length)

def tag? (here : Cursor) : Option (Token × Cursor) := do
  if here.ahead 1 == some '<' then
    let (suffix, here) ← tagText? true (here.skip 2)
    if suffix.isEmpty || here.head != some '>' then none
    else return (.tag "" suffix, here.skip 1)
  else
    let (handle, behind) ← tagHandle? here
    let (suffix, behind) ← tagText? false behind
    if handle.length > 1 && handle.endsWith "!" then
      if suffix.isEmpty then none else return (.tag handle suffix, behind)
    else
      let suffix := (handle.drop 1).toString ++ suffix
      return (if suffix.isEmpty then .tag "" "!" else .tag "!" suffix, behind)

/-- A `%TAG` line after its name. -/
def tagPrefix? (here : Cursor) : Option (Token × Cursor) := do
  let (handle, here) ← tagHandle? (here.skipWhile isBlank)
  if handle != "!" && !(handle.length > 1 && handle.endsWith "!") then none
  else if !here.head.any isBlank then none
  else
    let (expansion, here) ← tagText? true (here.skipWhile isBlank)
    if expansion.isEmpty || !isBlankOrEnd here.head then none
    else return (.tagPrefix handle expansion, here)

/-- A `%YAML` line after its name. -/
def version? (here : Cursor) : Option (Token × Cursor) := do
  let (major, here) ← versionNumber? (here.skipWhile isBlank)
  if here.head == some '.' then
    let (minor, here) ← versionNumber? (here.skip 1)
    return (.version major minor, here)
  else none

/-- The directive whose percent sign is at the cursor. -/
def directive? (here : Cursor) : Option (Token × Cursor) := do
  let name := (here.skip 1).rest.takeWhile isWordChar
  let behind := here.skip (name.length + 1)
  if !isBlankOrEnd behind.head then none
  else
    let (token, here) ←
      if name = ['Y', 'A', 'M', 'L'] then version? behind
      else if name = ['T', 'A', 'G'] then tagPrefix? behind
      else none
    let here := here.skipWhile isBlank
    let here := if here.head == some '#' then here.skipLine else here
    if isLineEnd here.head then return (token, here.skipBreak) else none

/-- The name of an anchor or alias behind its mark. -/
def anchorName? (here : Cursor) : Option (String × Cursor) :=
  let name := (here.skip 1).rest.takeWhile isWordChar
  let behind := here.skip (name.length + 1)
  let closed := isBlankOrEnd behind.head ||
    behind.head.any fun c => "?:,]\x7d%@".toList.contains c || c == '\u0060'
  if name.isEmpty || !closed then none else some (.ofList name, behind)

/-! ### Tokens -/

/-- Ends all blocks before a directive or a document marker. -/
def toTop? (s : Scan) : Option Scan := do
  return { ← (s.leave (-1)).dropPlace? with keyAllowed := false }

def flowStart? (s : Scan) (t : Token) : Option Scan := do
  let s ← s.notePlace?
  return { s with places := s.place :: s.places, place := none, keyAllowed := true }.take t 1

def flowEnd? (s : Scan) (t : Token) : Option Scan := do
  let s ← s.dropPlace?
  let s := match s.places with
    | place :: places => { s with place, places }
    | [] => s
  return { s with keyAllowed := false }.take t 1

def flowEntry? (s : Scan) : Option Scan := do
  return { ← s.dropPlace? with keyAllowed := true }.take .flowEntry 1

def blockEntry? (s : Scan) : Option Scan := do
  if !s.inFlow && !s.keyAllowed then none
  else
    let s ← (s.enter s.here.column s.tokens.size .blockListStart).dropPlace?
    return { s with keyAllowed := true }.take .blockEntry 1

/-- A question mark, which announces a key. -/
def key? (s : Scan) : Option Scan := do
  if !s.inFlow && !s.keyAllowed then none
  else
    let s ← (s.enter s.here.column s.tokens.size .blockTableStart).dropPlace?
    return { s with keyAllowed := !s.inFlow }.take .key 1

/-- A colon. If a key may have started before it, that one is its key. -/
def value? (s : Scan) : Option Scan :=
  match s.place with
  | some p =>
    let s := { s with tokens := s.tokens.insertIdxIfInBounds p.tokens .key }
    let s := s.enter p.column p.tokens .blockTableStart
    some ({ s with place := none, keyAllowed := false }.take .value 1)
  | none =>
    if !s.inFlow && !s.keyAllowed then none
    else
      let s := s.enter s.here.column s.tokens.size .blockTableStart
      some ({ s with keyAllowed := !s.inFlow }.take .value 1)

/-- A token that may start a key. -/
def keyStart? (s : Scan) (scan : Option (Token × Cursor)) : Option Scan := do
  let s ← s.notePlace?
  let (t, here) ← scan
  return { s with keyAllowed := false, here }.push t

def plain? (s : Scan) : Option Scan := do
  let s ← s.notePlace?
  let (text, broken, here) ← plainScalar? s.inFlow (s.indent + 1) s.here
  return { s with keyAllowed := broken, here }.push (.scalar .plain text)

def block? (s : Scan) (style : Style) : Option Scan := do
  let s ← s.dropPlace?
  let (text, here) ← blockScalar? style s.indent s.here
  return { s with keyAllowed := true, here }.push (.scalar style text)

def quoted? (s : Scan) (style : Style) : Option Scan :=
  s.keyStart? ((quotedScalar? style s.here).map fun (text, here) => (.scalar style text, here))

/-- Whether a plain scalar may start with `c` here. -/
def startsPlain (s : Scan) (c : Char) : Bool :=
  let next := s.here.ahead 1
  if c == '-' then !next.any isBlank
  else if c == '?' || c == ':' then !s.inFlow && !isBlankOrEnd next
  else !(",[]\x7b\x7d#&*!|>'\"%@".toList.contains c || c == '\u0060' || isBlank c)

/-- The token that starts with `c` here. -/
def token? (s : Scan) (c : Char) : Option Scan :=
  let next := s.here.ahead 1
  if s.here.column == 0 && c == '%' then do
    let s ← s.toTop?
    let (t, here) ← directive? s.here
    return { s with here }.push t
  else if s.here.atMarker '-' then s.toTop?.map (·.take .documentStart 3)
  else if s.here.atMarker '.' then s.toTop?.map (·.take .documentEnd 3)
  else if c == '[' then s.flowStart? .flowListStart
  else if c == '\x7b' then s.flowStart? .flowTableStart
  else if c == ']' then s.flowEnd? .flowListEnd
  else if c == '\x7d' then s.flowEnd? .flowTableEnd
  else if c == ',' then s.flowEntry?
  else if c == '-' && isBlankOrEnd next then s.blockEntry?
  else if c == '?' && (s.inFlow || isBlankOrEnd next) then s.key?
  else if c == ':' && (s.inFlow || isBlankOrEnd next) then s.value?
  else if c == '*' then
    s.keyStart? ((anchorName? s.here).map fun (name, here) => (.alias name, here))
  else if c == '&' then
    s.keyStart? ((anchorName? s.here).map fun (name, here) => (.anchor name, here))
  else if c == '!' then
    s.keyStart? do
      let (t, here) ← tag? s.here
      if isBlankOrEnd here.head || (s.inFlow && here.head == some ',') then return (t, here)
      else none
  else if c == '|' && !s.inFlow then s.block? .literal
  else if c == '>' && !s.inFlow then s.block? .folded
  else if c == '\'' then s.quoted? .singleQuoted
  else if c == '"' then s.quoted? .doubleQuoted
  else if s.startsPlain c then s.plain?
  else none

/-- Adds the tokens of the rest of the text, at most `n` before the last. -/
def run? (s : Scan) : (n : Nat) → Option (Array Token)
  | 0 => none
  | n + 1 => do
    let s ← (s.toToken (s.here.rest.length + 1)).freshPlaces?
    let s := s.leave s.here.column
    match s.here.head with
    | none => return (← (s.leave (-1)).dropPlace?).tokens.push .streamEnd
    | some c => run? (← s.token? c) n

end Scan

/-- The tokens of a text. -/
def tokens? (text : String) : Option (List Token) :=
  let cs := text.toList
  if cs.all isAllowed then ((Scan.start cs).run? (cs.length + 1)).map Array.toList else none

end Raster.Yaml
