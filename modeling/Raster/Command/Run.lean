import Raster.Command.Line
import Raster.Scene.File
import Raster.Scene.Render

/-!
# Runs

A run loads all its scenes before it renders the first one. Named files must all load; of a
directory, what does not load is left out with a warning. Scenes are rendered in order up to the
first that fails, and what was saved before stays.
-/

namespace Raster.Command

/-- Where a run reports what it does. -/
class Reporter (m : Type → Type) where
  report : String → m Unit

/-- Why an image cannot be saved. -/
inductive SaveError where
  /-- The name of the file does not tell that it is an image. -/
  | unknownKind
  | zeroWidth
  | zeroHeight
  | unwritable (cause : FileError)
  deriving DecidableEq, Repr

def SaveError.message : SaveError → String
  | unknownKind => "The image format could not be determined"
  | zeroWidth => "Zero width not allowed"
  | zeroHeight => "Zero height not allowed"
  | unwritable cause => cause.message

/-- Why a run fails. -/
inductive RunError where
  | contradiction (c : Contradiction)
  | notLoaded (path : Path) (cause : SceneFileError)
  | noDirectory (path : Path)
  | unreadableDirectory (path : Path) (cause : FileError)
  | noScenes (directory : Path)
  /-- The operation of this index was refused. -/
  | notRendered (path : Path) (index : Nat) (op : String) (cause : Refusal)
  | imageTooLarge
  | noOutDirectory (path : Path) (cause : FileError)
  | notSaved (path : Path) (cause : SaveError)
  /-- A canvas or layer is too large for the machine. -/
  | fault
  deriving DecidableEq, Repr

namespace RunError

/-- The message, and those of its causes. -/
def chain : RunError → List String
  | contradiction c => [c.message]
  | notLoaded path cause => s!"loading scene {path}" :: cause.chain
  | noDirectory path => [s!"scenes directory does not exist: {path}"]
  | unreadableDirectory path cause => [s!"reading scenes dir {path}", cause.message]
  | noScenes directory => [s!"no scene files found in {directory}"]
  | notRendered path index op cause =>
    [s!"rendering {path}", (RenderFailure.refused index op cause).message?.getD "", cause.message]
  | imageTooLarge => ["failed to create image buffer"]
  | noOutDirectory path cause => [s!"creating directory {path}", cause.message]
  | notSaved path cause => [s!"saving PNG to {path}", cause.message]
  | fault => ["out of memory"]

/-- A text behind a mark, its later lines behind as many blanks. -/
def hang (mark text : String) : String :=
  let blanks := String.ofList ('\n' :: List.replicate mark.length ' ')
  mark ++ blanks.intercalate (text.splitOn "\n")

/-- The causes, numbered if there are several. -/
def causeLines : List String → List String
  | [cause] => [hang "    " cause]
  | causes => causes.zipIdx.map fun (cause, i) => hang s!"    {i}: " cause

/-- The last lines of a run that fails. -/
def report (e : RunError) : String :=
  match e.chain with
  | [] => "Error: \n"
  | [message] => s!"Error: {message}\n"
  | message :: causes =>
    "\n".intercalate (s!"Error: {message}" :: "" :: "Caused by:" :: causeLines causes) ++ "\n"

/-- The exit code. -/
def exitCode : RunError → UInt32
  | fault => 101
  | _ => 1

end RunError

variable {m : Type → Type} [Monad m] [FileStore m] [Reporter m]

/-- Starts the log file in its directory. A run goes on without. -/
def startLog (directory : Path) : m Unit := do
  match ← FileStore.makeDirectory directory with
  | .ok () =>
    let _ ← FileStore.write (directory.join (.ofString "bbrender.log")) (.bytes .empty)
  | .error e =>
    Reporter.report
      s!"Warning: Could not initialize file logging in {directory}: {e.message}\n"

/-! ### Loading -/

def loadFiles : List Path → ExceptT RunError m (List (Path × Scene))
  | [] => return []
  | path :: paths => do
    match ← (Scene.load path : m _) with
    | .ok scene => return (path, scene) :: (← loadFiles paths)
    | .error e => throw (.notLoaded path e)

/-- Loads what can be loaded, with a warning for all else. -/
def loadEach : List Path → m (List (Path × Scene))
  | [] => return []
  | path :: paths => do
    match ← Scene.load path with
    | .ok scene => return (path, scene) :: (← loadEach paths)
    | .error e =>
      Reporter.report s!"Warning: skipping {path}: {e.message}\n"
      loadEach paths

/-- The scene files of a directory, in the order of their names. -/
def sceneFiles (directory : Path) (names : List String) : List Path :=
  let paths := (names.mergeSort fun a b => a ≤ b).map fun name => directory.join (.ofString name)
  paths.filter fun path => (Encoding.ofPath? path).isSome

def loadDirectory (directory : Path) : ExceptT RunError m (List (Path × Scene)) := do
  unless ← (FileStore.isPresent directory : m _) do throw (.noDirectory directory)
  match ← (FileStore.names directory : m _) with
  | .error e => throw (.unreadableDirectory directory e)
  | .ok names =>
    let scenes ← (loadEach (sceneFiles directory names) : m _)
    if scenes.isEmpty then throw (.noScenes directory) else return scenes

def loadScenes : Source → ExceptT RunError m (List (Path × Scene))
  | .files paths => loadFiles paths
  | .directory path => loadDirectory path

/-! ### Rendering -/

/-- Writes an image. One without pixels leaves an empty file. -/
def writeImage (path : Path) (image : Image) : m (Except SaveError Unit) := do
  if path.extension?.isNone then return .error .unknownKind
  let content : Content :=
    if image.width = 0 ∨ image.height = 0 then .bytes .empty else .image image
  match ← FileStore.write path content with
  | .error e => return .error (.unwritable e)
  | .ok () =>
    return if image.width = 0 then .error .zeroWidth
    else if image.height = 0 then .error .zeroHeight
    else .ok ()

def saveImage (surface : Surface) (path : Path) : ExceptT RunError m Unit := do
  match surface.toImage? with
  | .error _ => throw .fault
  | .ok none => throw .imageTooLarge
  | .ok (some image) =>
    if let some directory := path.parent? then
      if let .error e ← (FileStore.makeDirectory directory : m _) then
        throw (.noOutDirectory directory e)
    if let .error e ← (writeImage path image : m _) then throw (.notSaved path e)

/-- Renders a scene and saves its image under the scene's name. -/
def renderOne (config : Config) (path : Path) (scene : Scene) : ExceptT RunError m Unit := do
  let scene := scene.override config.overrides
  (Reporter.report
    s!"  {scene.name} ({scene.format.name}, rotation {scene.rotation.turns}) ..." : m _)
  match scene.render with
  | .error .fault => throw .fault
  | .error (.refused index op cause) => throw (.notRendered path index op cause)
  | .ok surface =>
    let file := config.outDirectory.join (.ofString (scene.name ++ ".png"))
    saveImage surface file
    (Reporter.report s!" saved {file}\n" : m _)

def renderAll (config : Config) : List (Path × Scene) → ExceptT RunError m Unit
  | [] => return ()
  | (path, scene) :: scenes => do
    renderOne config path scene
    renderAll config scenes

/-- Loads and renders all scenes. -/
def Config.run (config : Config) : ExceptT RunError m Unit := do
  if let some directory := config.logDirectory then (startLog directory : m _)
  let scenes ← loadScenes config.source
  (Reporter.report s!"Rendering {scenes.length} scene(s) → {config.outDirectory}\n" : m _)
  renderAll config scenes
  (Reporter.report "Done!\n" : m _)

/-- A run with these arguments, or why there is none. -/
def Arguments.run (arguments : Arguments) : ExceptT RunError m Unit := do
  match arguments.config with
  | .error c => throw (.contradiction c)
  | .ok config => config.run

end Raster.Command
