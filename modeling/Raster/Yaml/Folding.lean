import Raster.Yaml.Cursor

/-!
# Folding

In plain and quoted scalars a run of blanks stays as it is within a line. Around line breaks the
blanks go; one break becomes a blank, and of several all but the first stay.
-/

namespace Raster.Yaml

/-- The text of a scalar so far, in reverse, and the blanks or breaks that end it. -/
structure Folding where
  text : List Char
  /-- Blanks since the last other character, in reverse. -/
  blanks : List Char
  /-- The first line break since then. An escaped break leaves nothing of itself. -/
  firstBreak : Option (List Char)
  /-- The later line breaks, in reverse. -/
  breaks : List Char

namespace Folding

def empty : Folding := ⟨[], [], none, []⟩

def addBlank (f : Folding) (c : Char) : Folding :=
  if f.firstBreak.isSome then f else { f with blanks := c :: f.blanks }

def addBreak (f : Folding) (c : Char) : Folding :=
  match f.firstBreak with
  | none => { f with blanks := [], firstBreak := some [breakChar c] }
  | some _ => { f with breaks := breakChar c :: f.breaks }

/-- Settles the blanks and breaks before more text. -/
def join (f : Folding) : Folding :=
  match f.firstBreak with
  | none => { f with text := f.blanks ++ f.text, blanks := [] }
  | some ['\n'] =>
    { empty with text := if f.breaks = [] then ' ' :: f.text else f.breaks ++ f.text }
  | some first => { empty with text := f.breaks ++ first ++ f.text }

def add (f : Folding) (c : Char) : Folding :=
  let f := f.join
  { f with text := c :: f.text }

def toString (f : Folding) : String := .ofList f.text.reverse

end Folding

end Raster.Yaml
