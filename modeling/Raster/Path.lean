/-!
# File paths

A path is the list of its segments between slashes, kept as they are written; empty segments and
single dots lead nowhere and are passed over.
-/

namespace Raster

structure Path where
  /-- Whether the path starts at the root. -/
  absolute : Bool
  segments : List String
  deriving DecidableEq, Repr

namespace Path

/-- The pieces of a text between its slashes. -/
def split : List Char → List (List Char)
  | [] => [[]]
  | c :: cs =>
    if c = '/' then [] :: split cs
    else
      match split cs with
      | [] => [[c]]
      | piece :: pieces => (c :: piece) :: pieces

/-- A text without slashes is one piece. -/
theorem split_eq_singleton {cs : List Char} (h : '/' ∉ cs) : split cs = [cs] := by
  induction cs with
  | nil => rfl
  | cons c cs ih =>
    have hc : c ≠ '/' := fun e => h (e ▸ List.mem_cons_self)
    rw [split, if_neg hc, ih fun hm => h (List.mem_cons_of_mem _ hm)]

def ofString (s : String) : Path :=
  match s.toList with
  | '/' :: cs => ⟨true, (split cs).map .ofList⟩
  | cs => ⟨false, (split cs).map .ofList⟩

def toString (p : Path) : String := (if p.absolute then "/" else "") ++ "/".intercalate p.segments

instance : ToString Path := ⟨toString⟩

/-- Whether a segment leads nowhere. -/
def isIdle (segment : String) : Bool := segment == "" || segment == "."

/-- The segments without those at the end that lead nowhere. -/
def trimEnd (segments : List String) : List String := (segments.reverse.dropWhile isIdle).reverse

/-- The segment that names a file; the last one, unless it leads upwards or nowhere. -/
def fileName? (p : Path) : Option String := (trimEnd p.segments).getLast?.filter (· != "..")

/-- What follows the last dot of a file name that does not start with it. -/
def extension? (p : Path) : Option String := do
  let name ← p.fileName?
  let reversed := name.toList.reverse
  match reversed.dropWhile (· != '.') with
  | [] | [_] => none
  | _ => return .ofList (reversed.takeWhile (· != '.')).reverse

/-- The path of `q` as seen from the directory `p`. -/
def join (p q : Path) : Path :=
  if q.absolute then q
  else
    let base := if p.segments.getLast? == some "" then p.segments.dropLast else p.segments
    ⟨p.absolute, base ++ q.segments⟩

/-- The path without its last segment that leads somewhere; a dot in front stays. -/
def parent? (p : Path) : Option Path :=
  match trimEnd p.segments with
  | [] =>
    if p.absolute then none
    else if p.segments.head? == some "." then some ⟨false, [""]⟩
    else none
  | segments =>
    match trimEnd segments.dropLast with
    | [] =>
      if !p.absolute && segments.head? == some "." then some ⟨false, ["."]⟩
      else some ⟨p.absolute, [""]⟩
    | rest => some ⟨p.absolute, rest⟩

end Path

end Raster
