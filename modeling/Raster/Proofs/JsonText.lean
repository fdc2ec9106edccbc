import Raster.Json.Printer
import Raster.Json.Reader

/-!
# JSON texts

A value is written as tokens, and the tokens as characters. Reading goes back over both steps:
the scanner finds the tokens that were written, and these spell the value again.
-/

namespace Raster.Json

/-! ## Numbers -/

theorem natOfDigits_toDigits (n : Nat) : natOfDigits (Nat.toDigits 10 n) = n := by
  have hfold := Nat.ofDigitChars_ten_toDigits (n := n)
  rw [Nat.ofDigitChars_eq_foldl] at hfold
  exact hfold

theorem isDigit_of_mem_toDigits {n : Nat} : ∀ c ∈ Nat.toDigits 10 n, c.isDigit = true :=
  fun _ hc => Nat.isDigit_of_mem_toDigits (by decide) (by decide) hc

theorem exists_toDigits (n : Nat) :
    ∃ c cs, Nat.toDigits 10 n = c :: cs ∧ c.isDigit = true := by
  cases h : Nat.toDigits 10 n with
  | nil => exact absurd h Nat.toDigits_ne_nil
  | cons c cs => exact ⟨c, cs, rfl, isDigit_of_mem_toDigits c (h ▸ List.mem_cons_self)⟩

/-- Only zero is written with a zero in front. -/
theorem head?_toDigits_ne_zero {n : Nat} (hn : 0 < n) : (Nat.toDigits 10 n).head? ≠ some '0' := by
  induction n using Nat.strongRecOn with
  | ind n ih =>
      have hdigit : ∀ d < 10, 0 < d → [d.digitChar].head? ≠ some '0' := by decide
      rw [Nat.toDigits_eq_if (by decide)]
      split
      case isTrue hsmall => exact hdigit n hsmall hn
      case isFalse hlarge =>
        obtain ⟨c, cs, hdigits, -⟩ := exists_toDigits (n / 10)
        have hrest := ih (n / 10) (by omega) (by omega)
        rw [hdigits] at hrest ⊢
        exact hrest

theorem length_toDigits_of_head? {n : Nat} (h : (Nat.toDigits 10 n).head? = some '0') :
    (Nat.toDigits 10 n).length = 1 := by
  cases n with
  | zero => rfl
  | succ n => exact absurd h (head?_toDigits_ne_zero (Nat.succ_pos n))

namespace Number

/-- The whole part ends where no more digits follow. -/
theorem ofUnsigned?_toDigits (negative : Bool) (n : Nat) (rest : List Char)
    (hrest : rest.takeWhile Char.isDigit = [] ∧ rest.dropWhile Char.isDigit = rest) :
    ofUnsigned? negative (Nat.toDigits 10 n ++ rest) = match rest with
      | [] => some (.integer negative n)
      | rest => do
        let (fraction, exponent) ← tailOfChars? rest
        return .decimal negative (natOfDigits (Nat.toDigits 10 n ++ fraction))
          (exponent - fraction.length) := by
  rw [ofUnsigned?, List.takeWhile_append_of_pos isDigit_of_mem_toDigits, hrest.1, List.append_nil,
    List.dropWhile_append_of_pos isDigit_of_mem_toDigits, hrest.2]
  dsimp only
  rw [if_neg (not_or.mpr ⟨Nat.toDigits_ne_nil, fun h => h.2 (length_toDigits_of_head? h.1)⟩)]
  cases rest with
  | nil => rw [natOfDigits_toDigits]
  | cons c rest => rfl

/-- A sign is not a digit. -/
theorem toDigits_ne_cons {n : Nat} {c : Char} (hc : c.isDigit = false) (cs : List Char) :
    Nat.toDigits 10 n ≠ c :: cs := by
  intro h
  have hdigit := isDigit_of_mem_toDigits c (h ▸ List.mem_cons_self)
  rw [hc] at hdigit
  cases hdigit

theorem exponentOfChars?_toDigits (n : Nat) :
    exponentOfChars? (Nat.toDigits 10 n) = some (n : Int) ∧
      exponentOfChars? ('-' :: Nat.toDigits 10 n) = some (-(n : Int)) := by
  have hdigits : (Nat.toDigits 10 n).all Char.isDigit = true :=
    List.all_eq_true.mpr isDigit_of_mem_toDigits
  have hguard := And.intro (Nat.toDigits_ne_nil (n := n) (b := 10)) hdigits
  constructor
  · unfold exponentOfChars?
    split
    rename_i negative digits hsign
    split at hsign
    · exact absurd ‹_› (toDigits_ne_cons (by decide) _)
    · exact absurd ‹_› (toDigits_ne_cons (by decide) _)
    · cases hsign
      exact (if_pos hguard).trans
        (congrArg (fun n : Nat => some (n : Int)) (natOfDigits_toDigits n))
  · exact (if_pos hguard).trans
      (congrArg (fun n : Nat => some (-(n : Int))) (natOfDigits_toDigits n))

theorem ofChars?_signed (negative : Bool) (n : Nat) (rest : List Char) :
    ofChars? ((if negative then ['-'] else []) ++ Nat.toDigits 10 n ++ rest) =
      ofUnsigned? negative (Nat.toDigits 10 n ++ rest) := by
  cases negative with
  | true => rfl
  | false =>
      obtain ⟨c, cs, hdigits, hc⟩ := exists_toDigits n
      simp only [Bool.false_eq_true, if_false, List.nil_append, hdigits, List.cons_append]
      rw [ofChars?]
      rintro cs h
      cases h
      cases hc

/-- A number is read as it was written. -/
theorem ofChars?_toChars (n : Number) : ofChars? n.toChars = some n := by
  cases n with
  | integer negative n =>
      have hread := ofChars?_signed negative n []
      rw [List.append_nil, List.append_nil] at hread
      rw [toChars, hread, ← List.append_nil (Nat.toDigits 10 n)]
      exact ofUnsigned?_toDigits negative n [] ⟨rfl, rfl⟩
  | decimal negative significand exponent =>
      have hread (cs : List Char) (h : exponentOfChars? cs = some exponent) :
          ofChars? ((if negative then ['-'] else []) ++ Nat.toDigits 10 significand ++ 'e' :: cs) =
            some (.decimal negative significand exponent) := by
        rw [ofChars?_signed, ofUnsigned?_toDigits negative significand ('e' :: cs) ⟨rfl, rfl⟩]
        have htail : tailOfChars? ('e' :: cs) = some ([], exponent) := by
          simp [tailOfChars?, h]
        simp [htail, natOfDigits_toDigits]
      have hexponent := exponentOfChars?_toDigits exponent.natAbs
      rw [toChars]
      by_cases hneg : exponent < 0
      · rw [if_pos hneg]
        refine hread _ (hexponent.2.trans (congrArg some ?_))
        omega
      · rw [if_neg hneg]
        refine hread _ (hexponent.1.trans (congrArg some ?_))
        omega

end Number

/-! ## Strings -/

/-- A character is one unit, and none of the surrogates. -/
theorem charsOfUnits?_toNat (cs : List Char) : charsOfUnits? (cs.map Char.toNat) = some cs := by
  have hplain (c : Char) :
      isHighSurrogate c.toNat = false ∧ isLowSurrogate c.toNat = false := by
    have hvalid : c.toNat < 0xD800 ∨ 0xDFFF < c.toNat ∧ c.toNat < 0x110000 := c.valid
    simp only [isHighSurrogate, isLowSurrogate, Bool.and_eq_false_iff, decide_eq_false_iff_not]
    omega
  induction cs with
  | nil => rfl
  | cons c cs ih =>
      have hc := hplain c
      cases cs with
      | nil => simp [charsOfUnits?, hc]
      | cons d cs =>
          rw [List.map_cons] at ih
          simp [charsOfUnits?, hc, ih]

namespace Token

open Place

variable {found : List Token} {units : List Nat}

theorem hexUnit?_escape : ∀ n < 32,
    hexUnit? '0' '0' (escape.hexDigit (n / 16)) (escape.hexDigit (n % 16)) = some n := by
  decide

/-- Within a string, a character is read as it was written. -/
theorem scan?_escape (c : Char) (rest : List Char) :
    scan? (inside units) found (escape c ++ rest) =
      scan? (inside (c.toNat :: units)) found rest := by
  unfold escape
  split
  case h_8 hquote hslash _ _ _ _ _ =>
    split
    case isTrue hcontrol =>
      have hunit := hexUnit?_escape c.toNat hcontrol
      simp [scan?, hunit]
    case isFalse hprintable =>
      rw [List.singleton_append, scan?, if_neg hprintable]
      · exact hquote
      · exact fun _ _ _ _ _ h => (hslash h).elim
      · exact fun _ _ h => (hslash h).elim
  all_goals simp [scan?, escaped?]

theorem scan?_quote (s : Option String) (rest : List Char) :
    scan? (outside []) found (quote s ++ rest) = scan? (outside []) (.string s :: found) rest := by
  have hopen (cs : List Char) :
      scan? (outside []) found ('"' :: cs) = scan? (inside []) found cs := by
    simp [scan?, isWordChar, isBlank, endWord?]
  have hbody (cs : List Char) (units : List Nat) (after : List Char) :
      scan? (inside units) found (cs.flatMap escape ++ after) =
        scan? (inside ((cs.map Char.toNat).reverse ++ units)) found after := by
    induction cs generalizing units with
    | nil => rfl
    | cons c cs ih =>
        rw [List.flatMap_cons, List.append_assoc, scan?_escape, ih]
        simp
  cases s with
  | none =>
      have hunit : hexUnit? 'd' '8' '0' '0' = some 0xD800 := by decide
      have hchars : charsOfUnits? [0xD800] = none := by decide
      rw [quote]
      simp [hopen, scan?, hunit, hchars]
  | some s =>
      rw [quote, List.cons_append, hopen, List.append_assoc, hbody, List.append_nil]
      simp [scan?, charsOfUnits?_toNat]

/-- A word goes on for as long as there are word characters. -/
theorem scan?_word {word : List Char} (hword : ∀ c ∈ word, isWordChar c = true)
    (before rest : List Char) :
    scan? (outside before) found (word ++ rest) =
      scan? (outside (word.reverse ++ before)) found rest := by
  induction word generalizing before with
  | nil => rfl
  | cons c word ih =>
      obtain ⟨hc, hword⟩ := List.forall_mem_cons.mp hword
      rw [List.cons_append, scan?, if_pos hc, ih hword, List.reverse_cons, List.append_assoc]
      rfl

theorem scan?_endWord {word : List Char} (hne : word ≠ []) {t : Token}
    (ht : ofWord? word.reverse = some t) {rest : List Char}
    (hrest : ∀ c ∈ rest.head?, isWordChar c = false) :
    scan? (outside word) found rest = scan? (outside []) (t :: found) rest := by
  have hend : endWord? word found = endWord? [] (t :: found) := by
    cases word with
    | nil => exact absurd rfl hne
    | cons c word => exact congrArg (Option.map (· :: found)) ht
  cases rest with
  | nil => exact hend
  | cons c rest =>
      have hc := hrest c rfl
      simp only [scan?, hc, hend, Bool.false_eq_true, if_false]

theorem scan?_blank {c : Char} (hc : isBlank c = true) (rest : List Char) :
    scan? (outside []) found (c :: rest) = scan? (outside []) found rest := by
  have hword : isWordChar c = false := by
    simp only [isBlank, Bool.or_eq_true, beq_iff_eq] at hc
    obtain ((rfl | rfl) | rfl) | rfl := hc <;> decide
  simp [scan?, hword, hc, endWord?]

theorem scan?_mark {c : Char} {t : Token} (hc : mark? c = some t) (rest : List Char) :
    scan? (outside []) found (c :: rest) = scan? (outside []) (t :: found) rest := by
  unfold mark? at hc
  split at hc
  all_goals cases hc
  all_goals simp [scan?, isWordChar, isBlank, endWord?, mark?]

/-! ### What a text spells -/

/-- The text is read as these tokens, whatever follows. -/
def Closes (text : List Char) (tokens : List Token) : Prop :=
  ∀ found rest, scan? (outside []) found (text ++ rest) =
    scan? (outside []) (tokens.reverse ++ found) rest

/-- The text is read as these tokens if what follows cannot continue a word. -/
def Spells (text : List Char) (tokens : List Token) : Prop :=
  ∀ found rest, (∀ c ∈ rest.head?, isWordChar c = false) →
    scan? (outside []) found (text ++ rest) = scan? (outside []) (tokens.reverse ++ found) rest

variable {a b : List Char} {ts us : List Token}

theorem Closes.spells (h : Closes a ts) : Spells a ts := fun found rest _ => h found rest

theorem Closes.append (ha : Closes a ts) (hb : Closes b us) : Closes (a ++ b) (ts ++ us) := by
  intro found rest
  rw [List.append_assoc, ha, hb, List.reverse_append, List.append_assoc]

theorem Closes.append_spells (ha : Closes a ts) (hb : Spells b us) :
    Spells (a ++ b) (ts ++ us) := by
  intro found rest hrest
  rw [List.append_assoc, ha, hb _ _ hrest, List.reverse_append, List.append_assoc]

theorem Spells.append {c : Char} (ha : Spells a ts) (hc : isWordChar c = false)
    (hb : Closes (c :: b) us) : Closes (a ++ c :: b) (ts ++ us) := by
  intro found rest
  rw [List.append_assoc, ha _ _ (by simpa using hc), hb, List.reverse_append, List.append_assoc]

theorem Spells.append_spells {c : Char} (ha : Spells a ts) (hc : isWordChar c = false)
    (hb : Spells (c :: b) us) : Spells (a ++ c :: b) (ts ++ us) := by
  intro found rest hrest
  rw [List.append_assoc, ha _ _ (by simpa using hc), hb _ _ hrest, List.reverse_append,
    List.append_assoc]

theorem closes_mark {c : Char} {t : Token} (hc : mark? c = some t) : Closes [c] [t] :=
  fun _ rest => scan?_mark hc rest

theorem closes_quote (s : Option String) : Closes (quote s) [.string s] :=
  fun _ rest => scan?_quote s rest

theorem closes_blank {c : Char} (hc : isBlank c = true) : Closes [c] [] :=
  fun _ rest => scan?_blank hc rest

theorem closes_lineBreak (depth : Nat) : Closes (lineBreak depth) [] := by
  have hblanks (n : Nat) : Closes (List.replicate n ' ') [] := by
    induction n with
    | zero => exact fun _ _ => rfl
    | succ n ih => exact (closes_blank rfl).append ih
  exact (closes_blank rfl).append (hblanks (2 * depth))

theorem spells_word {word : List Char} (hne : word ≠ []) {t : Token} (ht : ofWord? word = some t)
    (hword : ∀ c ∈ word, isWordChar c = true) : Spells word [t] := by
  intro found rest hrest
  rw [scan?_word hword, List.append_nil]
  refine scan?_endWord (by simpa using hne) ?_ hrest
  rwa [List.reverse_reverse]

theorem isWordChar_of_isDigit {c : Char} (h : c.isDigit = true) : isWordChar c = true := by
  simp [isWordChar, Char.isAlphanum, h]

theorem spells_number (n : Number) : Spells n.toChars [.number n] := by
  have hdigits (n : Nat) : ∀ c ∈ Nat.toDigits 10 n, isWordChar c = true :=
    fun c hc => isWordChar_of_isDigit (isDigit_of_mem_toDigits c hc)
  have hchars : ∀ c ∈ n.toChars, isWordChar c = true := by
    have hsign (negative : Bool) :
        ∀ c ∈ if negative then ['-'] else [], isWordChar c = true := by
      cases negative <;> exact List.all_eq_true.mp (by decide)
    cases n with
    | integer negative n =>
        exact List.forall_mem_append.mpr ⟨hsign negative, hdigits n⟩
    | decimal negative significand exponent =>
        refine List.forall_mem_append.mpr
          ⟨List.forall_mem_append.mpr ⟨hsign negative, hdigits significand⟩,
            List.forall_mem_cons.mpr ⟨by decide, ?_⟩⟩
        split
        · exact List.forall_mem_cons.mpr ⟨by decide, hdigits _⟩
        · exact hdigits _
  have hread := Number.ofChars?_toChars n
  have hname {word : List Char} (h : Number.ofChars? word = none) : n.toChars ≠ word :=
    fun e => by rw [e, h] at hread; cases hread
  refine spells_word (hname (by decide)) ?_ hchars
  rw [ofWord?, if_neg (hname (by decide)), if_neg (hname (by decide)),
    if_neg (hname (by decide)), hread]
  rfl

theorem spells_bool (b : Bool) : Spells (boolChars b) [.bool b] := by
  cases b <;> exact spells_word (by decide) (by decide) (List.all_eq_true.mp (by decide))

theorem spells_null : Spells ['n', 'u', 'l', 'l'] [.null] :=
  spells_word (by decide) (by decide) (List.all_eq_true.mp (by decide))

end Token

/-! ## Values -/

mutual

/-- The tokens that spell a value. -/
def tokens : Json → List Token
  | .null => [.null]
  | .bool b => [.bool b]
  | .number n => [.number n]
  | .string s => [.string s]
  | .list items => .listStart :: (itemTokens items ++ [.listEnd])
  | .object members => .objectStart :: (memberTokens members ++ [.objectEnd])

def itemTokens : List Json → List Token
  | [] => []
  | [item] => tokens item
  | item :: items => tokens item ++ .comma :: itemTokens items

def memberTokens : List (Option String × Json) → List Token
  | [] => []
  | [(key, value)] => .string key :: .colon :: tokens value
  | (key, value) :: members =>
    .string key :: .colon :: (tokens value ++ .comma :: memberTokens members)

end

section Writing

open Token

/-- A collection with something in it takes up its lines and the mark that ends it. -/
theorem closes_collection {body : List Char} {ts : List Token} (hbody : Spells body ts)
    (depth : Nat) {start stop : Char} {starts stops : Token} (hstart : mark? start = some starts)
    (hstop : mark? stop = some stops) :
    Closes (start :: (body ++ lineBreak depth ++ [stop])) (starts :: (ts ++ [stops])) := by
  have hlines := hbody.append rfl (closes_lineBreak depth)
  rw [List.append_nil] at hlines
  exact (closes_mark hstart).append (hlines.append (closes_mark hstop))

/-- A key, and then its value. -/
theorem spells_member (depth : Nat) (key : Option String) {value : List Char} {ts : List Token}
    (hvalue : Spells value ts) :
    Spells (lineBreak depth ++ quote key ++ ':' :: ' ' :: value) (.string key :: .colon :: ts) :=
  ((closes_lineBreak depth).append (closes_quote key)).append_spells
    (((closes_mark (c := ':') rfl).append (closes_blank (c := ' ') rfl)).append_spells hvalue)

mutual

/-- What is written spells the value's tokens. -/
theorem spells_prettyChars (depth : Nat) : ∀ j : Json, Spells (prettyChars depth j) (tokens j)
  | .null => spells_null
  | .bool b => spells_bool b
  | .number n => spells_number n
  | .string s => (closes_quote s).spells
  | .list [] => ((closes_mark (c := '[') rfl).append (closes_mark (c := ']') rfl)).spells
  | .list (item :: items) =>
    (closes_collection (spells_prettyItems (depth + 1) (item :: items)) depth rfl rfl).spells
  | .object [] => ((closes_mark (c := '{') rfl).append (closes_mark (c := '}') rfl)).spells
  | .object (m :: members) =>
    (closes_collection (spells_prettyMembers (depth + 1) (m :: members)) depth rfl rfl).spells

theorem spells_prettyItems (depth : Nat) :
    ∀ items, Spells (prettyItems depth items) (itemTokens items)
  | [] => fun _ _ _ => rfl
  | [item] => (closes_lineBreak depth).append_spells (spells_prettyChars depth item)
  | item :: next :: items =>
    ((closes_lineBreak depth).append_spells (spells_prettyChars depth item)).append_spells rfl
      ((closes_mark (c := ',') rfl).append_spells (spells_prettyItems depth (next :: items)))

theorem spells_prettyMembers (depth : Nat) :
    ∀ members, Spells (prettyMembers depth members) (memberTokens members)
  | [] => fun _ _ _ => rfl
  | [(key, value)] => spells_member depth key (spells_prettyChars depth value)
  | (key, value) :: next :: members =>
    (spells_member depth key (spells_prettyChars depth value)).append_spells rfl
      ((closes_mark (c := ',') rfl).append_spells (spells_prettyMembers depth (next :: members)))

end

theorem ofChars?_prettyChars (j : Json) : Token.ofChars? (prettyChars 0 j) = some (tokens j) := by
  have hscan := spells_prettyChars 0 j [] [] (by simp)
  rw [List.append_nil, List.append_nil] at hscan
  rw [Token.ofChars?, hscan]
  simp [scan?, endWord?]

end Writing

section Reading

/-- A value is expected here, to be put on this stack. -/
def Expected.Starts (e : Expected) (stack : List Frame) : Prop :=
  ∀ t, t ≠ .listEnd → e.next? t = begin? stack t

theorem Expected.starts_value (stack : List Frame) : (value stack).Starts stack := fun _ _ => rfl

theorem Expected.starts_item (stack : List Frame) : (item stack).Starts (.list [] :: stack) := by
  intro t ht
  cases t with
  | listEnd => exact absurd rfl ht
  | _ => rfl

theorem Expected.next?_member (stack : List Frame) (key : Option String) :
    (member stack).next? (.string key) = some (colon [] key stack) := rfl

theorem Expected.next?_key (before : List (Option String × Json)) (stack : List Frame)
    (k : Option String) : (key before stack).next? (.string k) = some (colon before k stack) := rfl

mutual

/-- A value's tokens are read as the value. -/
theorem foldlM_tokens {e : Expected} {stack : List Frame} (h : e.Starts stack) :
    ∀ j : Json, (tokens j).foldlM Expected.next? e = some (.separator j stack)
  | .null => by rw [tokens, List.foldlM_cons, h .null nofun]; rfl
  | .bool b => by rw [tokens, List.foldlM_cons, h (.bool b) nofun]; rfl
  | .number n => by rw [tokens, List.foldlM_cons, h (.number n) nofun]; rfl
  | .string s => by rw [tokens, List.foldlM_cons, h (.string s) nofun]; rfl
  | .list [] => by rw [tokens, List.foldlM_cons, h .listStart nofun]; rfl
  | .list (item :: items) => by
      rw [tokens, List.foldlM_cons, h .listStart nofun]
      exact foldlM_itemTokens (Expected.starts_item stack) (item :: items) (List.cons_ne_nil _ _)
  | .object [] => by rw [tokens, List.foldlM_cons, h .objectStart nofun]; rfl
  | .object (m :: members) => by
      rw [tokens, List.foldlM_cons, h .objectStart nofun]
      exact foldlM_memberTokens (Expected.next?_member stack) (m :: members) (List.cons_ne_nil _ _)

theorem foldlM_itemTokens {e : Expected} {stack : List Frame} {before : List Json}
    (h : e.Starts (.list before :: stack)) :
    ∀ items ≠ [], (itemTokens items ++ [Token.listEnd]).foldlM Expected.next? e =
      some (.separator (.list (before.reverse ++ items)) stack)
  | [], hne => absurd rfl hne
  | [j], _ => by
      rw [itemTokens, List.foldlM_append, foldlM_tokens h j]
      simp [Expected.next?]
  | j :: next :: items, _ => by
      have hrest := foldlM_itemTokens (Expected.starts_value (.list (j :: before) :: stack))
        (next :: items) (List.cons_ne_nil _ _)
      rw [List.reverse_cons, List.append_assoc] at hrest
      change (tokens j ++ _ ++ _).foldlM Expected.next? e = _
      rw [List.append_assoc, List.foldlM_append, foldlM_tokens h j]
      exact hrest

theorem foldlM_memberTokens {e : Expected} {stack : List Frame}
    {before : List (Option String × Json)}
    (h : ∀ key, e.next? (.string key) = some (.colon before key stack)) :
    ∀ members ≠ [], (memberTokens members ++ [Token.objectEnd]).foldlM Expected.next? e =
      some (.separator (.object (before.reverse ++ members)) stack)
  | [], hne => absurd rfl hne
  | [(key, j)], _ => by
      have hvalue := foldlM_tokens (Expected.starts_value (.object before key :: stack)) j
      rw [memberTokens, List.cons_append, List.foldlM_cons, h]
      change (tokens j ++ [_]).foldlM Expected.next? (.value (.object before key :: stack)) = _
      rw [List.foldlM_append, hvalue]
      simp [Expected.next?]
  | (key, j) :: next :: members, _ => by
      have hvalue := foldlM_tokens (Expected.starts_value (.object before key :: stack)) j
      have hrest := foldlM_memberTokens (Expected.next?_key ((key, j) :: before) stack)
        (next :: members) (List.cons_ne_nil _ _)
      rw [List.reverse_cons, List.append_assoc] at hrest
      change (.string key :: .colon :: (tokens j ++ _) ++ _).foldlM Expected.next? e = _
      rw [List.cons_append, List.foldlM_cons, h]
      change (tokens j ++ _ ++ _).foldlM Expected.next? (.value (.object before key :: stack)) = _
      rw [List.append_assoc, List.foldlM_append, hvalue]
      exact hrest

end

theorem ofTokens?_tokens (j : Json) : ofTokens? (tokens j) = some j := by
  rw [ofTokens?, foldlM_tokens (Expected.starts_value [])]

end Reading

/-- Every value is read back from its text. -/
theorem parse?_pretty (j : Json) : parse? j.pretty = some j := by
  rw [parse?, pretty, String.toList_ofList, ofChars?_prettyChars]
  exact ofTokens?_tokens j

end Raster.Json
