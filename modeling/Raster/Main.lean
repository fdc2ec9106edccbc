import Raster.Command.Run
import Raster.Png

/-! # The program: runs on the files of the machine -/

namespace Raster

/-- What the system says of a file, in the terms of a run. -/
def FileError.ofSystem : IO.Error → FileError
  | .noFileOrDirectory .. => missing
  | .alreadyExists .. => present
  | .inappropriateType _ code _ => if code = 21 then isDirectory else notDirectory
  | e => other e.toString

def attempt {α : Type} (act : IO α) : IO (Except FileError α) := do
  try return .ok (← act)
  catch e => return .error (.ofSystem e)

instance : FileStore IO where
  read p := attempt (IO.FS.readBinFile p.toString)
  isPresent p := return (← attempt (IO.FS.realPath p.toString)).isOk
  names p := attempt do
    return (← (← IO.FS.realPath p.toString).readDir).toList.map (·.fileName)
  makeDirectory p := attempt (IO.FS.createDirAll p.toString)
  write p
    | .bytes b => attempt (IO.FS.writeBinFile p.toString b)
    | .image i => attempt (IO.FS.writeBinFile p.toString (Png.encode i))

instance : Command.Reporter IO := ⟨IO.eprint⟩

namespace Command

def usage : String :=
  "Render scene files to PNG\n\n" ++
  "Usage: bbrender [OPTIONS] [SCENES]...\n\n" ++
  "  SCENES               Scene files (.yaml, .yml or .json)\n" ++
  "  -a, --all            Render every scene in the scenes directory\n" ++
  "      --scenes-dir DIR Directory searched by --all [samples/scenes]\n" ++
  "  -o, --out-dir DIR    Directory for output PNG files [samples/output]\n" ++
  "      --format FORMAT  Override the canvas pixel format of every scene\n" ++
  "      --rotation TURNS Override the canvas rotation (quarter turns, 0-3)\n" ++
  "      --log-dir DIR    Start bbrender.log in DIR\n" ++
  "  -h, --help           Print help\n" ++
  "  -V, --version        Print version\n"

def Stop.message : Stop → String
  | unknownOption => "error: unexpected argument found"
  | missingValue => "error: a value is required"
  | badValue => "error: invalid value"
  | needlessValue => "error: unexpected value"
  | repeated => "error: the argument cannot be used multiple times"
  | help => usage
  | version => "bbrender 0.1.0"

/-- Runs with these arguments, and answers the exit code. -/
def start (args : List String) : IO UInt32 := do
  match Arguments.ofList args with
  | .error .help => IO.print usage; return 0
  | .error .version => IO.println Stop.version.message; return 0
  | .error stop => IO.eprintln stop.message; return 2
  | .ok arguments =>
    match ← (arguments.run : ExceptT RunError IO Unit).run with
    | .ok () => return 0
    | .error e =>
      IO.eprint e.report
      return e.exitCode

end Command

end Raster

def main (args : List String) : IO UInt32 := Raster.Command.start args
