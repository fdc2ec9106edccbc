import Raster.Json.Basic

/-!
# JSON tokens

A text is a sequence of strings, words and six marks, with blanks between them. A word is a
longest run of letters, digits, signs and points: a number or one of three names.
-/

namespace Raster.Json

inductive Token where
  | listStart
  | listEnd
  | objectStart
  | objectEnd
  | colon
  | comma
  | null
  | bool (b : Bool)
  | number (n : Number)
  | string (s : Option String)
  deriving DecidableEq, Repr

/-! ### Numbers -/

def digitValue (c : Char) : Nat := c.toNat - 48

/-- The number that decimal digits denote. -/
def natOfDigits (digits : List Char) : Nat :=
  digits.foldl (fun n c => 10 * n + digitValue c) 0

namespace Number

/-- The exponent after `e`: digits, perhaps with a sign. -/
def exponentOfChars? (cs : List Char) : Option Int :=
  let (negative, digits) := match cs with
    | '-' :: digits => (true, digits)
    | '+' :: digits => (false, digits)
    | _ => (false, cs)
  if digits ≠ [] ∧ digits.all Char.isDigit then
    some (if negative then -(natOfDigits digits : Int) else natOfDigits digits)
  else
    none

/-- What follows the whole part of a number: the digits of the fraction, and the exponent. -/
def tailOfChars? (cs : List Char) : Option (List Char × Int) :=
  let (fraction, rest) := match cs with
    | '.' :: rest => (some (rest.takeWhile Char.isDigit), rest.dropWhile Char.isDigit)
    | _ => (none, cs)
  if fraction = some [] then none
  else
    let digits := fraction.getD []
    match rest with
    | [] => some (digits, 0)
    | c :: rest => if c = 'e' ∨ c = 'E' then (exponentOfChars? rest).map (digits, ·) else none

/-- The number of this sign. -/
def ofUnsigned? (negative : Bool) (cs : List Char) : Option Number :=
  let whole := cs.takeWhile Char.isDigit
  if whole = [] ∨ (whole.head? = some '0' ∧ whole.length ≠ 1) then none
  else match cs.dropWhile Char.isDigit with
    | [] => some (.integer negative (natOfDigits whole))
    | rest => do
      let (fraction, exponent) ← tailOfChars? rest
      return .decimal negative (natOfDigits (whole ++ fraction)) (exponent - fraction.length)

def ofChars? : List Char → Option Number
  | '-' :: cs => ofUnsigned? true cs
  | cs => ofUnsigned? false cs

end Number

/-! ### Strings -/

def hexValue? (c : Char) : Option Nat :=
  if c.isDigit then some (c.toNat - 48)
  else if 'a' ≤ c ∧ c ≤ 'f' then some (c.toNat - 87)
  else if 'A' ≤ c ∧ c ≤ 'F' then some (c.toNat - 55)
  else none

/-- The number that four hexadecimal digits denote. -/
def hexUnit? (a b c d : Char) : Option Nat := do
  return (((← hexValue? a) * 16 + (← hexValue? b)) * 16 + (← hexValue? c)) * 16 + (← hexValue? d)

/-- The character that a backslash and one more character stand for. -/
def escaped? : Char → Option Char
  | '"' => some '"'
  | '\\' => some '\\'
  | '/' => some '/'
  | 'b' => some '\x08'
  | 'f' => some '\x0c'
  | 'n' => some '\n'
  | 'r' => some '\r'
  | 't' => some '\t'
  | _ => none

def isHighSurrogate (n : Nat) : Bool := 0xD800 ≤ n && n < 0xDC00

def isLowSurrogate (n : Nat) : Bool := 0xDC00 ≤ n && n < 0xE000

/-- The characters of a string's units, two surrogates making one. -/
def charsOfUnits? : List Nat → Option (List Char)
  | [] => some []
  | [n] => if isHighSurrogate n || isLowSurrogate n then none else some [.ofNat n]
  | n :: m :: rest =>
    if isHighSurrogate n then
      if isLowSurrogate m then
        (charsOfUnits? rest).map (.ofNat (0x10000 + (n - 0xD800) * 0x400 + (m - 0xDC00)) :: ·)
      else none
    else if isLowSurrogate n then none
    else (charsOfUnits? (m :: rest)).map (.ofNat n :: ·)

/-! ### Tokens -/

def isBlank (c : Char) : Bool := c == ' ' || c == '\n' || c == '\t' || c == '\r'

def isWordChar (c : Char) : Bool := c.isAlphanum || c == '+' || c == '-' || c == '.'

def mark? : Char → Option Token
  | '[' => some .listStart
  | ']' => some .listEnd
  | '{' => some .objectStart
  | '}' => some .objectEnd
  | ':' => some .colon
  | ',' => some .comma
  | _ => none

namespace Token

def ofWord? (word : List Char) : Option Token :=
  if word = ['n', 'u', 'l', 'l'] then some .null
  else if word = ['t', 'r', 'u', 'e'] then some (.bool true)
  else if word = ['f', 'a', 'l', 's', 'e'] then some (.bool false)
  else (Number.ofChars? word).map .number

/-- Where the scan stands: outside of strings with the word so far, or within a string with its
units so far; both in reverse. -/
inductive Place where
  | outside (word : List Char)
  | inside (units : List Nat)

/-- Adds the word so far, if there is one. -/
def endWord? (word : List Char) (found : List Token) : Option (List Token) :=
  match word with
  | [] => some found
  | _ => (ofWord? word.reverse).map (· :: found)

/-- The tokens of a text in reverse, put before those already found. -/
def scan? : Place → List Token → List Char → Option (List Token)
  | .outside word, found, [] => endWord? word found
  | .outside word, found, c :: cs =>
    if isWordChar c then scan? (.outside (c :: word)) found cs
    else do
      let found ← endWord? word found
      if isBlank c then scan? (.outside []) found cs
      else if c = '"' then scan? (.inside []) found cs
      else scan? (.outside []) ((← mark? c) :: found) cs
  | .inside _, _, [] => none
  | .inside units, found, '"' :: cs =>
    scan? (.outside []) (.string ((charsOfUnits? units.reverse).map String.ofList) :: found) cs
  | .inside units, found, '\\' :: 'u' :: a :: b :: c :: d :: cs =>
    match hexUnit? a b c d with
    | some n => scan? (.inside (n :: units)) found cs
    | none => none
  | .inside units, found, '\\' :: c :: cs =>
    match escaped? c with
    | some e => scan? (.inside (e.toNat :: units)) found cs
    | none => none
  | .inside units, found, c :: cs =>
    if c < ' ' then none else scan? (.inside (c.toNat :: units)) found cs

/-- The tokens of a text. -/
def ofChars? (cs : List Char) : Option (List Token) := (scan? (.outside []) [] cs).map List.reverse

end Token

end Raster.Json
