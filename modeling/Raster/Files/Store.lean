import Raster.Path
import Raster.Surface.Image

/-!
# Files

What a program needs of the files around it, whether they are real or a value.
-/

namespace Raster

/-- Why a file cannot be used. -/
inductive FileError where
  | missing
  | present
  | notDirectory
  | isDirectory
  /-- The bytes are no text. -/
  | notText
  /-- Any other cause, as the system words it. -/
  | other (text : String)
  deriving DecidableEq, Repr

def FileError.message : FileError → String
  | missing => "No such file or directory (os error 2)"
  | present => "File exists (os error 17)"
  | notDirectory => "Not a directory (os error 20)"
  | isDirectory => "Is a directory (os error 21)"
  | notText => "stream did not contain valid UTF-8"
  | other text => text

/-- What is written to a file. -/
inductive Content where
  | bytes (b : ByteArray)
  /-- An image in a lossless encoding. -/
  | image (i : Image)

/-- Access to files. -/
class FileStore (m : Type → Type) where
  read : Path → m (Except FileError ByteArray)
  isPresent : Path → m Bool
  /-- The names of what a directory holds, in any order. -/
  names : Path → m (Except FileError (List String))
  /-- Makes a directory and those above it, as far as they are missing. -/
  makeDirectory : Path → m (Except FileError Unit)
  write : Path → Content → m (Except FileError Unit)

instance {m : Type → Type} [Monad m] [FileStore m] {σ : Type} : FileStore (StateT σ m) where
  read p := StateT.lift (FileStore.read p : m _)
  isPresent p := StateT.lift (FileStore.isPresent p : m _)
  names p := StateT.lift (FileStore.names p : m _)
  makeDirectory p := StateT.lift (FileStore.makeDirectory p : m _)
  write p c := StateT.lift (FileStore.write p c : m _)

/-- Reads a file that holds a text. -/
def FileStore.readText {m : Type → Type} [Monad m] [FileStore m] (p : Path) :
    m (Except FileError String) := do
  match ← read p with
  | .error e => return .error e
  | .ok bytes =>
    match String.fromUTF8? bytes with
    | some s => return .ok s
    | none => return .error .notText

end Raster
