import Raster.Yaml.Folding
import Raster.Yaml.Token

/-!
# Scanning YAML scalars

Each scan runs over the characters once, from the first character of the scalar, and answers the
scalar's text with the cursor behind it.
-/

namespace Raster.Yaml

/-! ### Plain scalars -/

def isFlowIndicator (c : Char) : Bool :=
  c == ',' || c == '[' || c == ']' || c == '\x7b' || c == '\x7d'

/-- A plain scalar on the way. -/
structure PlainScan where
  /-- Whether the scalar stands within a flow collection. -/
  inFlow : Bool
  /-- The least column of a line that goes on with the scalar. -/
  indent : Int
  folding : Folding
  /-- Whether a blank or a break comes right before. -/
  fresh : Bool

namespace PlainScan

/-- Whether the scalar ends before the character `c` at the cursor. -/
def endsBefore (s : PlainScan) (c : Char) (here : Cursor) : Bool :=
  (s.fresh && (here.atDocumentMarker || c == '#' ||
      (!s.inFlow && (here.column : Int) < s.indent))) ||
    (c == ':' && isBlankOrEnd (here.ahead 1)) || (s.inFlow && isFlowIndicator c)

/-- In a flow collection a colon may not touch the next indicator. -/
def isStrayColon (s : PlainScan) (c : Char) (here : Cursor) : Bool :=
  s.inFlow && c == ':' && (here.ahead 1).any fun d => isFlowIndicator d || d == '?'

def run? (s : PlainScan) (here : Cursor) : (rest : List Char) → Option (PlainScan × Cursor)
  | [] => some (s, here)
  | '\r' :: '\n' :: rest =>
    run? { s with folding := s.folding.addBreak '\n', fresh := true } (here.newLine rest 2) rest
  | c :: rest =>
    if isBlank c then
      if c = '\t' ∧ s.folding.firstBreak.isSome ∧ (here.column : Int) < s.indent then none
      else run? { s with folding := s.folding.addBlank c, fresh := true } (here.skip 1) rest
    else if isBreak c then
      run? { s with folding := s.folding.addBreak c, fresh := true } (here.newLine rest 1) rest
    else if s.isStrayColon c here then none
    else if s.endsBefore c here then some (s, here)
    else run? { s with folding := s.folding.add c, fresh := false } (here.skip 1) rest

end PlainScan

/-- The text of a plain scalar, whether a line break follows it, and the cursor behind both. -/
def plainScalar? (inFlow : Bool) (indent : Int) (here : Cursor) :
    Option (String × Bool × Cursor) := do
  let (s, here) ← PlainScan.run? ⟨inFlow, indent, .empty, false⟩ here here.rest
  return (s.folding.toString, s.folding.firstBreak.isSome, here)

/-! ### Quoted scalars -/

/-- The character that a backslash and one more character stand for. -/
def escaped? : Char → Option Char
  | '0' => some '\x00'
  | 'a' => some '\x07'
  | 'b' => some '\x08'
  | 't' | '\t' => some '\t'
  | 'n' => some '\n'
  | 'v' => some '\x0b'
  | 'f' => some '\x0c'
  | 'r' => some '\r'
  | 'e' => some '\x1b'
  | ' ' => some ' '
  | '"' => some '"'
  | '/' => some '/'
  | '\\' => some '\\'
  | 'N' => some '\u0085'
  | '_' => some '\u00a0'
  | 'L' => some '\u2028'
  | 'P' => some '\u2029'
  | _ => none

def hexDigit? (c : Char) : Option Nat :=
  if c.isDigit then some (c.toNat - 48)
  else if 'a' ≤ c ∧ c ≤ 'f' then some (c.toNat - 87)
  else if 'A' ≤ c ∧ c ≤ 'F' then some (c.toNat - 55)
  else none

/-- The character whose code these hexadecimal digits denote. -/
def charOfHex? (digits : List Char) : Option Char := do
  let code ← digits.foldlM (fun n c => (hexDigit? c).map (16 * n + ·)) 0
  if code.isValidChar then some (.ofNat code) else none

/-- Folds a scalar in single quotes up to its closing quote. -/
def singleQuoted? (f : Folding) (here : Cursor) : (rest : List Char) → Option (Folding × Cursor)
  | [] => none
  | '\'' :: '\'' :: rest =>
    singleQuoted? (f.add '\'') (here.skip 2) rest
  | '\'' :: _ => some (f.join, here.skip 1)
  | '\r' :: '\n' :: rest => singleQuoted? (f.addBreak '\n') (here.newLine rest 2) rest
  | c :: rest =>
    if isBlank c then singleQuoted? (f.addBlank c) (here.skip 1) rest
    else if isBreak c then singleQuoted? (f.addBreak c) (here.newLine rest 1) rest
    else if here.atDocumentMarker then none
    else singleQuoted? (f.add c) (here.skip 1) rest

/-- Folds a scalar in double quotes up to its closing quote. -/
def doubleQuoted? (f : Folding) (here : Cursor) : (rest : List Char) → Option (Folding × Cursor)
  | [] => none
  | '"' :: _ => some (f.join, here.skip 1)
  | '\r' :: '\n' :: rest => doubleQuoted? (f.addBreak '\n') (here.newLine rest 2) rest
  | '\\' :: '\r' :: '\n' :: rest =>
    doubleQuoted? { f.join with firstBreak := some [] } (here.newLine rest 3) rest
  | '\\' :: 'x' :: a :: b :: rest => do
    doubleQuoted? (f.add (← charOfHex? [a, b])) (here.skip 4) rest
  | '\\' :: 'u' :: a :: b :: c :: d :: rest => do
    doubleQuoted? (f.add (← charOfHex? [a, b, c, d])) (here.skip 6) rest
  | '\\' :: 'U' :: a :: b :: c :: d :: e :: g :: h :: i :: rest => do
    doubleQuoted? (f.add (← charOfHex? [a, b, c, d, e, g, h, i])) (here.skip 10) rest
  | '\\' :: c :: rest =>
    if isBreak c then
      doubleQuoted? { f.join with firstBreak := some [] } (here.newLine rest 2) rest
    else do
      doubleQuoted? (f.add (← escaped? c)) (here.skip 2) rest
  | c :: rest =>
    if isBlank c then doubleQuoted? (f.addBlank c) (here.skip 1) rest
    else if isBreak c then doubleQuoted? (f.addBreak c) (here.newLine rest 1) rest
    else if here.atDocumentMarker then none
    else doubleQuoted? (f.add c) (here.skip 1) rest

/-- The text of a quoted scalar that starts at the cursor, and the cursor behind it. -/
def quotedScalar? (style : Style) (here : Cursor) : Option (String × Cursor) := do
  let inner := here.skip 1
  let (f, here) ← match style with
    | .singleQuoted => singleQuoted? .empty inner inner.rest
    | _ => doubleQuoted? .empty inner inner.rest
  return (f.toString, here)

/-! ### Block scalars -/

/-- What is done with the line breaks that end a block scalar. -/
inductive Chomping where
  | strip
  | clip
  | keep
  deriving DecidableEq, Repr

structure BlockHeader where
  chomping : Chomping
  /-- The indentation against the parent, if it is given. -/
  increment : Option Nat

def chomping? : Char → Option Chomping
  | '+' => some .keep
  | '-' => some .strip
  | _ => none

/-- The header after its indicator: chomping and indentation in either order. -/
def blockHeader? (here : Cursor) : Option (BlockHeader × Cursor) :=
  let digit? (c : Option Char) : Option Char := c.filter Char.isDigit
  let mark? (c : Option Char) : Option Chomping := c.bind chomping?
  let increment? (c : Char) : Option Nat := if c = '0' then none else some (c.toNat - 48)
  match mark? here.head, digit? here.head with
  | some chomping, _ =>
    match digit? (here.ahead 1) with
    | some c => do return (⟨chomping, some (← increment? c)⟩, here.skip 2)
    | none => some (⟨chomping, none⟩, here.skip 1)
  | none, some c => do
    let increment ← increment? c
    match mark? (here.ahead 1) with
    | some chomping => return (⟨chomping, some increment⟩, here.skip 2)
    | none => return (⟨.clip, some increment⟩, here.skip 1)
  | none, none => some (⟨.clip, none⟩, here)

/-- A block scalar on the way. -/
structure BlockScan where
  folded : Bool
  /-- The column of the parent's content, -1 at the top. -/
  parent : Int
  /-- The column of the scalar's content; 0 as long as it is not known. -/
  indent : Nat
  /-- The widest indentation of the blank lines before the content. -/
  widest : Nat
  text : List Char
  /-- The break that ended the last line with content. -/
  lineBreak : List Char
  /-- The breaks since then, in reverse. -/
  breaks : List Char
  /-- Whether the last line with content starts with a blank. -/
  leadingBlank : Bool
  /-- Whether the cursor is within the content of a line. -/
  inLine : Bool

namespace BlockScan

/-- Settles the breaks before a line with content that starts with `c`. -/
def joinBefore (s : BlockScan) (c : Char) : BlockScan :=
  let blank := isBlank c
  let text :=
    if s.folded && s.lineBreak == ['\n'] && !s.leadingBlank && !blank then
      if s.breaks = [] then ' ' :: s.text else s.text
    else
      s.lineBreak ++ s.text
  { s with
    text := s.breaks ++ text
    lineBreak := []
    breaks := []
    leadingBlank := blank
    inLine := true }

/-- Fixes the column of the content at the first line that has some. -/
def settle (s : BlockScan) : BlockScan :=
  if s.indent = 0 then { s with indent := max (max s.widest (s.parent + 1).toNat) 1 } else s

def run? (s : BlockScan) (here : Cursor) : (rest : List Char) → Option (BlockScan × Cursor)
  | [] => some (s, here)
  | '\r' :: '\n' :: rest =>
    if s.inLine then
      run? { s with lineBreak := ['\n'], inLine := false } (here.newLine rest 2) rest
    else
      run? { s with breaks := '\n' :: s.breaks, widest := max s.widest here.column }
        (here.newLine rest 2) rest
  | c :: rest =>
    if s.inLine then
      if isBreak c then
        run? { s with lineBreak := [breakChar c], inLine := false } (here.newLine rest 1) rest
      else
        run? { s with text := c :: s.text } (here.skip 1) rest
    else
      let outside : Bool := s.indent = 0 ∨ here.column < s.indent
      if c = ' ' ∧ outside then run? s (here.skip 1) rest
      else
        let s := { s with widest := max s.widest here.column }
        if c = '\t' ∧ outside then none
        else if isBreak c then
          run? { s with breaks := breakChar c :: s.breaks } (here.newLine rest 1) rest
        else
          let s := s.settle
          if here.column = s.indent then
            let s := s.joinBefore c
            run? { s with text := c :: s.text } (here.skip 1) rest
          else
            some (s, here)

/-- The text with what chomping leaves of the breaks behind it. -/
def finish (s : BlockScan) (chomping : Chomping) : String :=
  let text := match chomping with
    | .strip => s.text
    | .clip => s.lineBreak ++ s.text
    | .keep => s.breaks ++ s.lineBreak ++ s.text
  .ofList text.reverse

end BlockScan

/-- The text of a block scalar whose indicator is at the cursor, and the cursor behind it. -/
def blockScalar? (style : Style) (parent : Int) (here : Cursor) : Option (String × Cursor) := do
  let (header, here) ← blockHeader? (here.skip 1)
  let here := here.skipWhile isBlank
  let here := if here.head == some '#' then here.skipLine else here
  if isLineEnd here.head then
    let here := here.skipBreak
    let indent := match header.increment with
      | some n => (max parent 0).toNat + n
      | none => 0
    let (s, here) ←
      BlockScan.run? ⟨style == .folded, parent, indent, 0, [], [], [], false, false⟩ here here.rest
    return (s.finish header.chomping, here)
  else
    none

end Raster.Yaml
