import Raster.Proofs.FileWrites
import Raster.Proofs.JsonText
import Raster.Proofs.SceneCoding
import Raster.Scene.File

/-!
# Scene files that are read back

A store of files need only give back what was written for a scene to be loaded as it was saved.
-/

namespace Raster

/-- A store that gives back the bytes that were written without an error. -/
class LawfulFileStore (m : Type → Type) [Monad m] [FileStore m] : Prop where
  read_written (p : Path) (b : ByteArray) :
    (do match ← FileStore.write p (.bytes b) with
        | .ok () => FileStore.read p
        | .error e => return .error e : m (Except FileError ByteArray)) =
      do match ← FileStore.write p (.bytes b) with
        | .ok () => return .ok b
        | .error e => return .error e

namespace FileTree

instance : LawfulFileStore (StateM FileTree) where
  read_written p b := by
    funext t
    simp only [bind, StateT.bind, FileStore.write, change]
    cases h : t.write p (.bytes b) with
    | error e => rfl
    | ok t' =>
        change (t'.read p, t') = _
        rw [read_write h]
        rfl

end FileTree

/-! ### Scenes -/

theorem fromUTF8?_toUTF8 (s : String) : String.fromUTF8? s.toUTF8 = some s :=
  (dif_pos s.isValidUTF8).trans rfl

namespace Scene

theorem ofString?_toString {s : Scene} (hs : AreWords s.words) :
    ofString? (s.toString .json) .json = some s := by
  rw [ofString?, toString, Json.parse?_pretty]
  exact decode?_toJson hs

theorem ofPath?_json {p : Path} (hp : p.extension? = some "json") :
    Encoding.ofPath? p = some .json := by
  rw [Encoding.ofPath?, hp]
  rfl

/-- What the bytes at a path are loaded as in this encoding. -/
def ofFile (p : Path) (encoding : Encoding) :
    Except FileError ByteArray → Except SceneFileError Scene
  | .error e => .error (.unreadable p e)
  | .ok bytes =>
    match String.fromUTF8? bytes with
    | none => .error (.unreadable p .notText)
    | some text =>
      match ofString? text encoding with
      | none => .error (.malformed p encoding)
      | some s => .ok s

variable {m : Type → Type} [Monad m] [LawfulMonad m] [FileStore m]

theorem load_eq (p : Path) : (load p : m _) = match Encoding.ofPath? p with
    | none => pure (.error (.unknownExtension p))
    | some encoding => ofFile p encoding <$> FileStore.read p := by
  rw [load]
  cases Encoding.ofPath? p with
  | none => rfl
  | some encoding =>
      simp only [FileStore.readText, map_eq_pure_bind, bind_assoc]
      refine bind_congr fun r => ?_
      match r with
      | .error e => simp [ofFile]
      | .ok bytes =>
          simp only [ofFile]
          cases String.fromUTF8? bytes with
          | none => simp
          | some text =>
              simp only [pure_bind]
              cases ofString? text encoding <;> rfl

theorem load_json {p : Path} (hp : p.extension? = some "json") :
    load p = ofFile p .json <$> (FileStore.read p : m _) := by
  rw [load_eq, ofPath?_json hp]

/-- A scene that is saved as JSON is loaded as it was. -/
theorem load_saved [LawfulFileStore m] {s : Scene} (hs : AreWords s.words) {p : Path}
    (hp : p.extension? = some "json") :
    (do match ← save s p with
        | .ok () => load p
        | .error e => return .error e : m (Except SceneFileError Scene)) =
      do match ← FileStore.write p (.bytes (s.toString .json).toUTF8) with
        | .ok () => return .ok s
        | .error e => return .error (.unreadable p e) := by
  have hbytes : ofFile p .json (.ok (s.toString .json).toUTF8) = .ok s := by
    simp only [ofFile, fromUTF8?_toUTF8, ofString?_toString hs]
  calc
    _ = ofFile p .json <$> (do
          match ← FileStore.write p (.bytes (s.toString .json).toUTF8) with
          | .ok () => FileStore.read p
          | .error e => return .error e) := by
      rw [save, ofPath?_json hp, load_json hp]
      simp only [map_eq_pure_bind, bind_assoc]
      refine bind_congr fun r => ?_
      cases r <;> simp [ofFile]
    _ = _ := by
      rw [LawfulFileStore.read_written]
      simp only [map_eq_pure_bind, bind_assoc]
      refine bind_congr fun r => ?_
      cases r with
      | error e => simp only [pure_bind, ofFile]
      | ok _ => simp only [pure_bind, hbytes]

/-- A scene of many kinds of fields, with a name that is written with escapes. -/
def lantern : Scene where
  name := "Lampe \"№ 1\"\n\t\\ 🏮"
  width := 0xffff_ffff_ffff_ffff
  height := 0
  format := .rgb565
  rotation := .counterClockwise
  background := 7
  ops := [
    .hatchRect ⟨1, 0xffff_ffff_ffff_ffff, 3, 0xffff_ffff_ffff_ffff⟩ (0xffff_ffff_ffff_ffff) 0 129,
    .blit ⟨3, 5, .gray8a, .upsideDown, .gradient ⟨1, 2, 3, 4⟩ .black true⟩ 9 8 .ditherPremultiplied
      40 ⟨5, 6, 7, 8⟩]

theorem load_saved_lantern :
    let p := Path.ofString "../work/lantern.json"
    AreWords lantern.words ∧ p.extension? = some "json" ∧
      ((do match ← save lantern p with
          | .ok () => load p
          | .error e => return .error e : StateM FileTree (Except SceneFileError Scene))
        .empty).1 = .ok lantern := by
  intro p
  have hwords : AreWords lantern.words := by decide
  have hp : p.extension? = some "json" := by decide
  refine ⟨hwords, hp, ?_⟩
  rw [load_saved hwords hp]
  generalize (lantern.toString .json).toUTF8 = bytes
  rfl

end Scene

end Raster
