/-!
# A place in a YAML text

A cursor is the rest of the text with the place where it starts. A line ends with a line feed,
a carriage return, both, or one of three other break characters.
-/

namespace Raster.Yaml

/-! ### Characters -/

def isBreak (c : Char) : Bool :=
  c == '\n' || c == '\r' || c == '\u0085' || c == '\u2028' || c == '\u2029'

def isBlank (c : Char) : Bool := c == ' ' || c == '\t'

/-- A character of anchors and tag handles. -/
def isWordChar (c : Char) : Bool := c.isAlphanum || c == '_' || c == '-'

/-- The characters that a text may hold. -/
def isAllowed (c : Char) : Bool :=
  c == '\t' || c == '\n' || c == '\r' || (' ' ≤ c && c ≤ '~') || c == '\u0085' ||
    ('\u00a0' ≤ c && c.toNat ≠ 0xFFFE && c.toNat ≠ 0xFFFF)

/-- The end of the text, a blank or a line break. -/
def isBlankOrEnd : Option Char → Bool
  | none => true
  | some c => isBlank c || isBreak c

/-- The end of the text or a line break. -/
def isLineEnd : Option Char → Bool
  | none => true
  | some c => isBreak c

/-- What a line break leaves in a scalar: the two separators stay, all else is a line feed. -/
def breakChar (c : Char) : Char := if c == '\u2028' || c == '\u2029' then c else '\n'

/-! ### Cursors -/

structure Cursor where
  rest : List Char
  index : Nat
  line : Nat
  column : Nat

namespace Cursor

def start (text : List Char) : Cursor := ⟨text, 0, 0, 0⟩

/-- The character `i` places ahead. -/
def ahead (c : Cursor) (i : Nat) : Option Char := c.rest[i]?

def head (c : Cursor) : Option Char := c.rest.head?

/-- Moves over `n` characters of one line. -/
def skip (c : Cursor) (n : Nat) : Cursor :=
  { c with rest := c.rest.drop n, index := c.index + n, column := c.column + n }

/-- Moves over the characters of one line that satisfy `p`. -/
def skipWhile (c : Cursor) (p : Char → Bool) : Cursor := c.skip (c.rest.takeWhile p).length

/-- Moves to the start of the next line, over a break of `n` characters. -/
def newLine (c : Cursor) (rest : List Char) (n : Nat) : Cursor :=
  ⟨rest, c.index + n, c.line + 1, 0⟩

/-- Moves over a line break, if there is one. -/
def skipBreak (c : Cursor) : Cursor :=
  match c.rest with
  | '\r' :: '\n' :: rest => c.newLine rest 2
  | b :: rest => if isBreak b then c.newLine rest 1 else c
  | [] => c

/-- Moves to the end of the line. -/
def skipLine (c : Cursor) : Cursor := c.skipWhile (!isBreak ·)

/-- Whether a line starts here with three of the character `mark` and then a blank or its
end. -/
def atMarker (c : Cursor) (mark : Char) : Bool :=
  c.column == 0 && c.rest.take 3 == [mark, mark, mark] && isBlankOrEnd (c.ahead 3)

/-- Whether a document starts or ends here. -/
def atDocumentMarker (c : Cursor) : Bool := c.atMarker '-' || c.atMarker '.'

end Cursor

end Raster.Yaml
