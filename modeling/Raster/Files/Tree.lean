import Raster.Files.Store

/-!
# A tree of files

Everything has a location, the names on the way to it from the root. A path is followed step by
step, and each step starts from a directory that exists.
-/

namespace Raster

abbrev Location := List String

inductive Entry where
  | directory
  | file (content : Content)

structure FileTree where
  /-- Where relative paths start. -/
  here : Location
  /-- All but the root. -/
  entries : List (Location × Entry)

namespace FileTree

/-- A tree that holds nothing but the directory in which it is used. -/
def empty : FileTree := ⟨["work"], [(["work"], .directory)]⟩

def get? (t : FileTree) (l : Location) : Option Entry :=
  if l = [] then some .directory else t.entries.lookup l

def put (t : FileTree) (l : Location) (e : Entry) : FileTree :=
  { t with entries := (l, e) :: t.entries.filter (·.1 != l) }

private theorem lookup_filter_ne {l k : Location} (h : k ≠ l) (entries : List (Location × Entry)) :
    (entries.filter (·.1 != l)).lookup k = entries.lookup k := by
  induction entries with
  | nil => rfl
  | cons entry entries ih =>
    obtain ⟨inner, e⟩ := entry
    by_cases hl : inner = l
    · subst hl
      have hk : (k == inner) = false := beq_eq_false_iff_ne.mpr h
      rw [List.filter_cons_of_neg (by simp), ih, List.lookup_cons, hk]
    · rw [List.filter_cons_of_pos (by simpa using hl), List.lookup_cons, List.lookup_cons, ih]

/-- Only the entry that is put changes. -/
theorem get?_put (t : FileTree) {l : Location} (hl : l ≠ []) (e : Entry) (k : Location) :
    (t.put l e).get? k = if k = l then some e else t.get? k := by
  by_cases hk : k = l
  · subst hk
    simp [get?, put, hl]
  · have hne : (k == l) = false := beq_eq_false_iff_ne.mpr hk
    simp only [get?, put, List.lookup_cons, hne, lookup_filter_ne hk, hk, if_false]

/-! ### Paths -/

/-- Where the segments lead from a location. -/
def follow (t : FileTree) (l : Location) : List String → Except FileError Location
  | [] => return l
  | segment :: segments =>
    match t.get? l with
    | none => throw .missing
    | some (.file _) => throw .notDirectory
    | some .directory =>
      if Path.isIdle segment then follow t l segments
      else if segment = ".." then follow t l.dropLast segments
      else follow t (l ++ [segment]) segments

/-- Where a path leads; nothing need be there. -/
def locate (t : FileTree) (p : Path) : Except FileError Location :=
  if !p.absolute && p.segments == [""] then throw .missing
  else t.follow (if p.absolute then [] else t.here) p.segments

/-- What a path leads to. -/
def find (t : FileTree) (p : Path) : Except FileError (Location × Entry) := do
  let l ← t.locate p
  match t.get? l with
  | some e => return (l, e)
  | none => throw .missing

/-! ### Operations -/

/-- The bytes of a file. Images are kept as what they show. -/
def read (t : FileTree) (p : Path) : Except FileError ByteArray := do
  match ← t.find p with
  | (_, .directory) => throw .isDirectory
  | (_, .file (.bytes b)) => return b
  | (_, .file (.image i)) => return ⟨i.rgba⟩

def isPresent (t : FileTree) (p : Path) : Bool := (t.find p).isOk

def isDirectory (t : FileTree) (p : Path) : Bool :=
  match t.find p with
  | .ok (_, .directory) => true
  | _ => false

def names (t : FileTree) (p : Path) : Except FileError (List String) := do
  match ← t.find p with
  | (l, .directory) =>
    return t.entries.filterMap fun (inner, _) => if inner.dropLast = l then inner.getLast? else none
  | (_, .file _) => throw .notDirectory

/-- The path without slashes at its end. -/
def bare (p : Path) : Path :=
  { p with segments := (p.segments.reverse.dropWhile (· == "")).reverse }

/-- Makes one directory. -/
def makeOne (t : FileTree) (p : Path) : Except FileError FileTree := do
  let l ← t.locate (bare p)
  let upward := (bare p).segments.getLast?.any fun s => s == "." || s == ".."
  if upward || (t.get? l).isSome then throw .present else return t.put l .directory

/-- Makes one directory, unless there is one. -/
def ensureOne (t : FileTree) (p : Path) : Except FileError FileTree :=
  match t.makeOne p with
  | .error e => if t.isDirectory p then return t else throw e
  | made => made

/-- Makes a directory and those above it, as far as they are missing; at most `n` of them. -/
def ensure (t : FileTree) (p : Path) : (n : Nat) → Except FileError FileTree
  | 0 => throw .missing
  | n + 1 =>
    if !p.absolute && p.segments == [""] then return t
    else
      match t.makeOne p, p.parent? with
      | .error .missing, some parent => do (← t.ensure parent n).ensureOne p
      | _, _ => t.ensureOne p

def makeDirectory (t : FileTree) (p : Path) : Except FileError FileTree :=
  t.ensure p (p.segments.length + 1)

/-- Writes a file, over what it held before. -/
def write (t : FileTree) (p : Path) (c : Content) : Except FileError FileTree := do
  let l ← t.locate (bare p)
  match t.get? l with
  | some .directory => throw .isDirectory
  | _ => if bare p = p then return t.put l (.file c) else throw .isDirectory

/-- Takes over a tree that was changed without error. -/
def change (f : FileTree → Except FileError FileTree) : StateM FileTree (Except FileError Unit) :=
  fun t =>
    match f t with
    | .ok t' => (.ok (), t')
    | .error e => (.error e, t)

instance : FileStore (StateM FileTree) where
  read p := do return (← get).read p
  isPresent p := do return (← get).isPresent p
  names p := do return (← get).names p
  makeDirectory p := change (·.makeDirectory p)
  write p c := change (·.write p c)

end FileTree

end Raster
