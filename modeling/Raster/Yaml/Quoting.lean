import Raster.Yaml.CoreSchema

/-!
# Writing texts as YAML scalars

A text is written plain where that reads back as the same text. A text of several lines becomes
a literal block; what neither form can hold is quoted, with escapes only where single quotes do
not suffice.
-/

namespace Raster.Yaml

/-! ### What a text allows -/

/-- The characters that need no escape. -/
def isPrintable (c : Char) : Bool :=
  c == '\n' || (' ' ≤ c && c ≤ '~') ||
    ('\u00a0' ≤ c && c != '\ufeff' && c.toNat != 0xFFFE && c.toNat != 0xFFFF)

/-- Whether some character that satisfies `p` has one behind it that satisfies `q`. -/
def hasPair (p q : Char → Bool) (cs : List Char) : Bool :=
  (cs.zip cs.tail).any fun (a, b) => p a && q b

def isSpace (c : Char) : Bool := c == ' '

/-- Whether a plain scalar may start with these characters. -/
def mayStartPlain : List Char → Bool
  | [] => false
  | c :: cs =>
    if c == '?' then !isBlankOrEnd cs.head?
    else if c == '-' then !isBlankOrEnd cs.head? && cs.take 2 != ['-', '-']
    else if c == '.' then cs.take 2 != ['.', '.']
    else !(isSpace c || "#,[]\x7b\x7d&*!|>'\"%@".toList.contains c || c == '\u0060')

/-- Whether a text may be written without quotes. -/
def mayBePlain (cs : List Char) : Bool :=
  mayStartPlain cs && cs.all (fun c => isPrintable c && !isBreak c) &&
    !cs.getLast?.any (fun c => isSpace c || c == ':') &&
    !hasPair (· == ':') isBlank cs && !hasPair isSpace (· == '#') cs

/-- Whether a text has no blank before a break, and no character that needs an escape. -/
def isTidy (cs : List Char) : Bool := cs.all isPrintable && !hasPair isSpace isBreak cs

def mayBeSingleQuoted (cs : List Char) : Bool := isTidy cs && !hasPair isBreak isSpace cs

def mayBeLiteral (cs : List Char) : Bool := isTidy cs && !cs.getLast?.any isSpace

/-- Whether a plain scalar of this text denotes the text. -/
def denotesText (s : String) : Bool :=
  match plainDatum? s with
  | some (.text _) => !isPadded s.toList
  | _ => false

/-- How a text is written. -/
def styleOf (s : String) : Style :=
  let cs := s.toList
  if cs.contains '\n' then if mayBeLiteral cs then .literal else .doubleQuoted
  else if denotesText s && mayBePlain cs then .plain
  else if mayBeSingleQuoted cs then .singleQuoted
  else .doubleQuoted

/-! ### The forms -/

/-- The capital hexadecimal digits of `n`, `width` of them. -/
def hexChars (n : Nat) : (width : Nat) → List Char
  | 0 => []
  | width + 1 => hexChars (n / 16) width ++ [(Nat.digitChar (n % 16)).toUpper]

/-- A character between double quotes. -/
def escapeChar (c : Char) : List Char :=
  match c with
  | '\x00' => ['\\', '0']
  | '\x07' => ['\\', 'a']
  | '\x08' => ['\\', 'b']
  | '\t' => ['\\', 't']
  | '\n' => ['\\', 'n']
  | '\x0b' => ['\\', 'v']
  | '\x0c' => ['\\', 'f']
  | '\r' => ['\\', 'r']
  | '\x1b' => ['\\', 'e']
  | '"' => ['\\', '"']
  | '\\' => ['\\', '\\']
  | '\u0085' => ['\\', 'N']
  | '\u2028' => ['\\', 'L']
  | '\u2029' => ['\\', 'P']
  | c =>
    if isPrintable c then [c]
    else if c.toNat < 0x100 then '\\' :: 'x' :: hexChars c.toNat 2
    else '\\' :: 'u' :: hexChars c.toNat 4

def doubleQuoted (cs : List Char) : List Char := '"' :: cs.flatMap escapeChar ++ ['"']

def spaces (n : Nat) : List Char := List.replicate n ' '

/-- The characters of a text with every line that is not empty behind `indent` blanks, the first
one too if `fresh`. -/
def indented (indent : Nat) (fresh : Bool) : List Char → List Char
  | [] => []
  | c :: cs =>
    if isBreak c then c :: indented indent true cs
    else if fresh then spaces indent ++ c :: indented indent false cs
    else c :: indented indent false cs

/-- The characters of a text between single quotes, which has no line feeds. -/
def singleQuoted (indent : Nat) (cs : List Char) : List Char :=
  let doubled := cs.flatMap fun c => if c = '\'' then [c, c] else [c]
  '\'' :: indented indent false doubled ++
    (if cs.getLast?.any isBreak then spaces indent else []) ++ ['\'']

/-- What the header of a literal block says of the text: the indentation, where the first
line does not show it, and the breaks at the end, if they are not one. -/
def literalHints (cs : List Char) : List Char :=
  let endings := (cs.reverse.take 2).takeWhile isBreak
  (if cs.head?.any (fun c => isSpace c || isBreak c) then ['2'] else []) ++
    (if endings = [] then ['-'] else if endings = cs || endings.length = 2 then ['+'] else [])

/-- A literal block, which ends with its last line break. -/
def literal (indent : Nat) (cs : List Char) : List Char :=
  '|' :: literalHints cs ++ '\n' :: indented indent true cs ++
    (if cs.getLast?.any isBreak then [] else ['\n'])

/-- A text as a value, up to the end of its last line. The lines of a block stand behind
`indent` blanks. -/
def textLine (indent : Nat) (s : String) : List Char :=
  match styleOf s with
  | .plain => s.toList ++ ['\n']
  | .singleQuoted => singleQuoted indent s.toList ++ ['\n']
  | .literal => literal indent s.toList
  | _ => doubleQuoted s.toList ++ ['\n']

end Raster.Yaml
