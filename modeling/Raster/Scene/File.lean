import Raster.Files.Store
import Raster.Json.Document
import Raster.Json.Printer
import Raster.Json.Reader
import Raster.Scene.Decode
import Raster.Scene.Encode
import Raster.Yaml.Document
import Raster.Yaml.Printer

/-!
# Scene files

The extension of a scene file tells how it is encoded. It is looked at before the file is.
-/

namespace Raster

inductive Encoding where
  | yaml
  | json
  deriving DecidableEq, Repr

namespace Encoding

def name : Encoding → String
  | yaml => "YAML"
  | json => "JSON"

/-- The encoding that an extension tells. -/
def ofExtension? : String → Option Encoding
  | "yaml" | "yml" => some yaml
  | "json" => some json
  | _ => none

def ofPath? (p : Path) : Option Encoding := do ofExtension? (← p.extension?)

end Encoding

/-- Why a scene cannot be loaded or saved. -/
inductive SceneFileError where
  | unreadable (path : Path) (cause : FileError)
  /-- The text is not of its encoding, or does not describe a scene. -/
  | malformed (path : Path) (encoding : Encoding)
  | unknownExtension (path : Path)
  deriving DecidableEq, Repr

namespace SceneFileError

def message : SceneFileError → String
  | unreadable path cause => s!"failed to read {path}: {cause.message}"
  | malformed path encoding => s!"invalid {encoding.name} in {path}:"
  | unknownExtension path => s!"unsupported scene file {path} (expected .yaml, .yml or .json)"

/-- The message, and those of its causes. -/
def chain (e : SceneFileError) : List String :=
  match e with
  | unreadable _ cause => [e.message, cause.message]
  | _ => [e.message]

end SceneFileError

namespace Scene

/-- The scene that a text describes. -/
def ofString? (s : String) : Encoding → Option Scene
  | .yaml => do decode? (← (← Yaml.Tree.ofText? s).record? fieldNames)
  | .json => do decode? (Json.Part.mk Json.depthLimit (← Json.parse? s))

/-- The text of a scene. -/
def toString (s : Scene) : Encoding → String
  | .yaml => s.toJson.toYaml
  | .json => s.toJson.pretty

variable {m : Type → Type} [Monad m] [FileStore m]

def load (p : Path) : m (Except SceneFileError Scene) := do
  match Encoding.ofPath? p with
  | none => return .error (.unknownExtension p)
  | some encoding =>
    match ← FileStore.readText p with
    | .error e => return .error (.unreadable p e)
    | .ok s =>
      match ofString? s encoding with
      | none => return .error (.malformed p encoding)
      | some scene => return .ok scene

def save (scene : Scene) (p : Path) : m (Except SceneFileError Unit) := do
  match Encoding.ofPath? p with
  | none => return .error (.unknownExtension p)
  | some encoding =>
    match ← FileStore.write p (.bytes (scene.toString encoding).toUTF8) with
    | .error e => return .error (.unreadable p e)
    | .ok () => return .ok ()

end Scene

end Raster
