import Raster.Path
import Raster.Scene.Basic

/-!
# The command line

An option takes its value from the same argument or from the next one. A value is looked at only
when the next option or group of scene files comes, so an unknown option is found before a bad
value in front of it.
-/

namespace Raster.Command

/-- An option that takes a value. -/
inductive Setting where
  | scenesDirectory
  | outDirectory
  | format
  | rotation
  | logDirectory
  deriving DecidableEq, Repr

/-- An option that takes none. -/
inductive Switch where
  | all
  | help
  | version
  deriving DecidableEq, Repr

/-- Why the arguments are not accepted, or what they ask for instead of a run. -/
inductive Stop where
  | unknownOption
  | missingValue
  /-- A value that its option does not take. -/
  | badValue
  /-- A value given to an option that takes none. -/
  | needlessValue
  | repeated
  | help
  | version
  deriving DecidableEq, Repr

/-- What is given on the command line. -/
structure Arguments where
  scenes : List Path
  all : Bool
  scenesDirectory : Option Path
  outDirectory : Option Path
  format : Option PixelFormat
  rotation : Option Rotation
  logDirectory : Option Path
  deriving DecidableEq, Repr

namespace Arguments

def empty : Arguments := ⟨[], false, none, none, none, none, none⟩

/-- A path that is not empty. -/
def readPath (s : String) : Except Stop Path :=
  if s = "" then throw .missingValue else return .ofString s

def readFormat (s : String) : Except Stop PixelFormat :=
  match PixelFormat.ofName? s with
  | some f => return f
  | none => throw .badValue

/-- Quarter turns, in digits with an optional sign. -/
def readRotation (s : String) : Except Stop Rotation :=
  let turns? : Option Nat :=
    match s.toList with
    | '+' :: cs => decimal? cs
    | '-' :: cs => (decimal? cs).filter (· = 0)
    | cs => decimal? cs
  match turns?.bind Rotation.ofTurns? with
  | some r => return r
  | none => throw .badValue
where
  decimal? (cs : List Char) : Option Nat :=
    if cs ≠ [] ∧ cs.all Char.isDigit then
      some (cs.foldl (fun n c => 10 * n + (c.toNat - 48)) 0)
    else none

/-- The value of an option, unless it has one already. -/
def once {α : Type} (given : Option α) (value : Except Stop α) : Except Stop (Option α) :=
  if given.isSome then throw .repeated else value.map some

def set (a : Arguments) (value : String) : Setting → Except Stop Arguments
  | .scenesDirectory => do
    return { a with scenesDirectory := ← once a.scenesDirectory (readPath value) }
  | .outDirectory => do return { a with outDirectory := ← once a.outDirectory (readPath value) }
  | .format => do return { a with format := ← once a.format (readFormat value) }
  | .rotation => do return { a with rotation := ← once a.rotation (readRotation value) }
  | .logDirectory => do return { a with logDirectory := ← once a.logDirectory (readPath value) }

def turnOn (a : Arguments) : Switch → Except Stop Arguments
  | .all => if a.all then throw .repeated else return { a with all := true }
  | .help => throw .help
  | .version => throw .version

end Arguments

/-! ### Reading the arguments -/

/-- What is not settled yet. -/
inductive Pending where
  | nothing
  | value (setting : Setting) (given : Option String)
  | scenes (paths : List String)
  deriving DecidableEq, Repr

structure Progress where
  settled : Arguments
  pending : Pending
  deriving DecidableEq, Repr

inductive Flag where
  | switch (s : Switch)
  | setting (s : Setting)
  deriving DecidableEq, Repr

def Flag.ofName? : String → Option Flag
  | "all" => some (.switch .all)
  | "help" => some (.switch .help)
  | "version" => some (.switch .version)
  | "scenes-dir" => some (.setting .scenesDirectory)
  | "out-dir" => some (.setting .outDirectory)
  | "format" => some (.setting .format)
  | "rotation" => some (.setting .rotation)
  | "log-dir" => some (.setting .logDirectory)
  | _ => none

def Flag.ofLetter? : Char → Option Flag
  | 'a' => some (.switch .all)
  | 'h' => some (.switch .help)
  | 'V' => some (.switch .version)
  | 'o' => some (.setting .outDirectory)
  | _ => none

namespace Progress

/-- Takes over what is pending. -/
def settle (p : Progress) : Except Stop Arguments :=
  match p.pending with
  | .nothing => return p.settled
  | .value setting (some v) => p.settled.set v setting
  | .value _ none => throw .missingValue
  | .scenes paths => do
    return { p.settled with scenes := p.settled.scenes ++ (← paths.mapM Arguments.readPath) }

def turnOn (p : Progress) (s : Switch) : Except Stop Progress := do
  return ⟨← (← p.settle).turnOn s, .nothing⟩

/-- An option with its value, which is in the next argument if it is not given here. -/
def setting (p : Progress) (s : Setting) (value : Option String) : Except Stop Progress := do
  let settled ← p.settle
  match value with
  | some v => return ⟨← settled.set v s, .nothing⟩
  | none => return ⟨settled, .value s none⟩

def addScene (p : Progress) (path : String) : Except Stop Progress :=
  match p.pending with
  | .scenes paths => return { p with pending := .scenes (paths ++ [path]) }
  | _ => do return ⟨← p.settle, .scenes [path]⟩

/-- An argument after two dashes: a name, perhaps with a value behind an equals sign. -/
def long (p : Progress) (cs : List Char) : Except Stop Progress :=
  let name := String.ofList (cs.takeWhile (· != '='))
  let value := match cs.dropWhile (· != '=') with
    | [] => none
    | _ :: cs => some (String.ofList cs)
  match Flag.ofName? name with
  | some (.setting s) => p.setting s value
  | some (.switch s) => if value.isSome then throw .needlessValue else p.turnOn s
  | none => throw .unknownOption

/-- The letters after one dash. What follows a letter that takes a value is its value. -/
def letters (p : Progress) : List Char → Except Stop Progress
  | [] => return p
  | c :: cs =>
    match Flag.ofLetter? c with
    | some (.switch s) => do letters (← p.turnOn s) cs
    | some (.setting s) =>
      match cs with
      | [] => p.setting s none
      | '=' :: cs => p.setting s (some (.ofList cs))
      | cs => p.setting s (some (.ofList cs))
    | none => throw .unknownOption

/-- Takes one argument. -/
def take (p : Progress) (arg : String) : Except Stop Progress :=
  match arg.toList with
  | '-' :: '-' :: cs => p.long cs
  | '-' :: c :: cs => p.letters (c :: cs)
  | _ =>
    match p.pending with
    | .value s none => return { p with pending := .value s (some arg) }
    | _ => p.addScene arg

/-- Takes all arguments. Behind two dashes alone there are only scene files. -/
def takeAll (p : Progress) : List String → Except Stop Progress
  | [] => return p
  | "--" :: args => args.foldlM addScene p
  | arg :: args => do takeAll (← p.take arg) args

end Progress

def Arguments.ofList (args : List String) : Except Stop Arguments := do
  (← Progress.takeAll ⟨.empty, .nothing⟩ args).settle

/-! ### What to do -/

/-- Where the scenes come from. -/
inductive Source where
  | files (paths : List Path)
  | directory (path : Path)
  deriving DecidableEq, Repr

structure Config where
  source : Source
  outDirectory : Path
  overrides : Overrides
  logDirectory : Option Path
  deriving DecidableEq, Repr

/-- Why arguments that are accepted one by one make no run. -/
inductive Contradiction where
  | filesAndDirectory
  | nothingToRender
  deriving DecidableEq, Repr

def Contradiction.message : Contradiction → String
  | filesAndDirectory => "--all cannot be combined with scene files"
  | nothingToRender => "specify scene files or --all"

def Arguments.config (a : Arguments) : Except Contradiction Config := do
  let source ← match a.all, a.scenes with
    | true, [] => pure (.directory (a.scenesDirectory.getD (.ofString "samples/scenes")))
    | true, _ => throw .filesAndDirectory
    | false, [] => throw .nothingToRender
    | false, scenes => pure (.files scenes)
  return {
    source
    outDirectory := a.outDirectory.getD (.ofString "samples/output")
    overrides := ⟨a.format, a.rotation⟩
    logDirectory := a.logDirectory }

end Raster.Command
