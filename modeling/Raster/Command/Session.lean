import Raster.Command.Run
import Raster.Files.Tree

/-! # Runs on a tree of files -/

namespace Raster.Command

/-- A computation on a tree of files that keeps what it reports. -/
abbrev Session := StateT String (StateM FileTree)

instance : Reporter Session := ⟨fun s => modify (· ++ s)⟩

/-- What a run leaves behind. -/
structure Outcome where
  ended : Except RunError Unit
  report : String
  files : FileTree

/-- The exit code of the program. -/
def Outcome.exitCode (o : Outcome) : UInt32 :=
  match o.ended with
  | .ok () => 0
  | .error e => e.exitCode

/-- What a run with these arguments leaves behind of a tree. -/
def Arguments.outcome (a : Arguments) (t : FileTree) : Outcome :=
  let run : Session (Except RunError Unit) := a.run.run
  let ((ended, report), files) := (run.run "").run t
  ⟨ended, report, files⟩

end Raster.Command
