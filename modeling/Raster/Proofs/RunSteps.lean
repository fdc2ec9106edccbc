import Mathlib.Data.List.Forall2
import Raster.Command.Session
import Raster.Proofs.SceneFile

/-!
# The steps of a run

No step of a run looks at what was reported before it, so a step is described by its result, by
what it adds to the report and by the tree that it leaves.
-/

namespace Raster

variable {t u v w : FileTree}

namespace FileTree

/-- The scene that is loaded from a tree. -/
def load (t : FileTree) (p : Path) : Except SceneFileError Scene :=
  ((Scene.load p : StateM FileTree _).run t).1

/-- The scenes that can be loaded, with their paths. -/
def loaded (t : FileTree) (paths : List Path) : List (Path × Scene) :=
  paths.filterMap fun p => (t.load p).toOption.map (p, ·)

end FileTree

namespace Scene

/-- `d` is the scene in the format and the rotation that the overrides give, where they give one, and
its own in all else. -/
structure Overridden (s : Scene) (o : Overrides) (d : Scene) : Prop where
  format_given : ∀ f, o.format = some f → d.format = f
  format_own : o.format = none → d.format = s.format
  rotation_given : ∀ q, o.rotation = some q → d.rotation = q
  rotation_own : o.rotation = none → d.rotation = s.rotation
  name_eq : d.name = s.name
  width_eq : d.width = s.width
  height_eq : d.height = s.height
  background_eq : d.background = s.background
  ops_eq : d.ops = s.ops

theorem override_overridden (s : Scene) (o : Overrides) : s.Overridden o (s.override o) where
  format_given _ h := by rw [override, h, Option.getD_some]
  format_own h := by rw [override, h, Option.getD_none]
  rotation_given _ h := by rw [override, h, Option.getD_some]
  rotation_own h := by rw [override, h, Option.getD_none]
  name_eq := rfl
  width_eq := rfl
  height_eq := rfl
  background_eq := rfl
  ops_eq := rfl

end Scene

namespace Command

/-- The computation has this result, adds this to the report and leaves this tree. -/
def Gives {α : Type} (x : Session α) (t : FileTree) (a : α) (said : String) (u : FileTree) : Prop :=
  ∀ before, (x.run before).run t = ((a, before ++ said), u)

namespace Gives

variable {α β : Type} {a : α} {b : β} {said said' : String} {e : RunError}

theorem pure (a : α) (t : FileTree) : Gives (Pure.pure a) t a "" t := fun before => by
  rw [String.append_empty]
  rfl

theorem bind {x : Session α} {f : α → Session β} (h : Gives x t a said u)
    (h' : Gives (f a) u b said' v) : Gives (x >>= f) t b (said ++ said') v := fun before => by
  rw [StateT.run_bind, StateT.run_bind, h before, ← String.append_assoc]
  exact h' _

theorem quiet_bind {x : Session α} {f : α → Session β} (h : Gives x t a "" u)
    (h' : Gives (f a) u b said v) : Gives (x >>= f) t b said v :=
  String.empty_append (s := said) ▸ h.bind h'

theorem report (s : String) (t : FileTree) : Gives (Reporter.report s) t () s t := fun _ => rfl

theorem lift {x : StateM FileTree α} (h : x.run t = (a, u)) : Gives (StateT.lift x) t a "" u :=
  fun before => by
    rw [String.append_empty]
    exact congrArg (fun r : α × FileTree => ((r.1, before), r.2)) h

theorem change (f : FileTree → Except FileError FileTree) (t : FileTree) :
    Gives (StateT.lift (FileTree.change f)) t ((f t).map fun _ => ()) ""
      ((f t).toOption.getD t) := by
  refine lift ?_
  rw [StateT.run, FileTree.change]
  cases f t <;> rfl

/-! ### Steps that may fail -/

theorem ok (a : α) (t : FileTree) :
    Gives (Pure.pure a : ExceptT RunError Session α).run t (.ok a) "" t :=
  pure _ t

theorem error (e : RunError) (t : FileTree) :
    Gives (throw e : ExceptT RunError Session α).run t (.error e) "" t :=
  pure _ t

variable {x : ExceptT RunError Session α} {f : α → ExceptT RunError Session β}
  {r : Except RunError β}

theorem ok_bind (h : Gives x.run t (.ok a) said u) (h' : Gives (f a).run u r said' v) :
    Gives (x >>= f).run t r (said ++ said') v := by
  rw [ExceptT.run_bind]
  exact h.bind h'

theorem quiet_ok_bind (h : Gives x.run t (.ok a) "" u) (h' : Gives (f a).run u r said v) :
    Gives (x >>= f).run t r said v :=
  String.empty_append (s := said) ▸ h.ok_bind h'

theorem error_bind (h : Gives x.run t (.error e) said u) :
    Gives (x >>= f).run t (.error e) said u := by
  rw [ExceptT.run_bind, ← String.append_empty (s := said)]
  exact h.bind (pure _ u)

theorem lifted {x : Session α} (h : Gives x t a said u) :
    Gives (liftM x : ExceptT RunError Session α).run t (.ok a) said u := by
  have hlift : (liftM x : ExceptT RunError Session α).run = x >>= fun a => Pure.pure (.ok a) :=
    map_eq_pure_bind Except.ok x
  rw [hlift, ← String.append_empty (s := said)]
  exact h.bind (pure _ u)

theorem lift_bind {x : Session α} (h : Gives x t a said u) (h' : Gives (f a).run u r said' v) :
    Gives (liftM x >>= f).run t r (said ++ said') v :=
  h.lifted.ok_bind h'

theorem quiet_lift_bind {x : Session α} (h : Gives x t a "" u)
    (h' : Gives (f a).run u r said v) : Gives (liftM x >>= f).run t r said v :=
  String.empty_append (s := said) ▸ h.lift_bind h'

end Gives

/-! ### Loading -/

theorem gives_load (p : Path) (t : FileTree) : Gives (Scene.load p) t (t.load p) "" t := by
  have hload : (Scene.load p : Session _) = StateT.lift (Scene.load p) := by
    rw [Scene.load_eq, Scene.load_eq]
    cases Encoding.ofPath? p <;> rfl
  rw [hload]
  refine .lift (Prod.ext rfl ?_)
  rw [Scene.load_eq]
  cases Encoding.ofPath? p <;> rfl

theorem load_of_read {p : Path} {s : Scene} (hp : p.extension? = some "json")
    (hs : AreWords s.words) (h : t.read p = .ok (s.toString .json).toUTF8) :
    t.load p = .ok s := by
  have hload : t.load p = Scene.ofFile p .json (t.read p) := by
    rw [FileTree.load, Scene.load_json hp]
    rfl
  rw [hload, h]
  simp only [Scene.ofFile, fromUTF8?_toUTF8, Scene.ofString?_toString hs]

theorem loaded_cons {p : Path} {s : Scene} (h : t.load p = .ok s) (paths : List Path) :
    t.loaded (p :: paths) = (p, s) :: t.loaded paths := by
  rw [FileTree.loaded, List.filterMap_cons, h]
  rfl

theorem gives_loadFiles {paths : List Path} (h : ∀ p ∈ paths, ∃ s, t.load p = .ok s) :
    Gives (loadFiles paths : ExceptT RunError Session _).run t (.ok (t.loaded paths)) "" t := by
  induction paths with
  | nil => exact .ok _ t
  | cons path paths ih =>
      obtain ⟨s, hs⟩ := h path List.mem_cons_self
      have hrest := ih fun p hp => h p (List.mem_cons_of_mem path hp)
      rw [loadFiles, loaded_cons hs]
      refine .quiet_lift_bind (hs ▸ gives_load path t) ?_
      dsimp only
      exact hrest.quiet_ok_bind (.ok _ t)

theorem gives_loadFiles_error {paths : List Path} (h : ∃ p ∈ paths, ∀ s, t.load p ≠ .ok s) :
    ∃ p e, Gives (loadFiles paths : ExceptT RunError Session _).run t
      (.error (.notLoaded p e)) "" t := by
  induction paths with
  | nil => simp at h
  | cons path paths ih =>
      have hload := gives_load path t
      rw [loadFiles]
      cases hs : t.load path with
      | error e =>
          rw [hs] at hload
          exact ⟨path, e, .quiet_lift_bind hload (.error _ t)⟩
      | ok s =>
          rw [hs] at hload
          obtain ⟨p, hp, hfails⟩ := h
          obtain rfl | hp := List.mem_cons.mp hp
          · exact absurd hs (hfails s)
          · obtain ⟨q, e, hrest⟩ := ih ⟨p, hp, hfails⟩
            exact ⟨q, e, .quiet_lift_bind hload hrest.error_bind⟩

theorem gives_loadEach (paths : List Path) (t : FileTree) :
    ∃ warnings, Gives (loadEach paths) t (t.loaded paths) warnings t := by
  induction paths with
  | nil => exact ⟨"", .pure _ t⟩
  | cons path paths ih =>
      obtain ⟨warnings, hrest⟩ := ih
      have hload := gives_load path t
      rw [loadEach, FileTree.loaded, List.filterMap_cons]
      cases hs : t.load path with
      | error e =>
          rw [hs] at hload
          exact ⟨_, hload.quiet_bind ((Gives.report _ t).bind hrest)⟩
      | ok s =>
          rw [hs] at hload
          exact ⟨_, hload.quiet_bind (hrest.bind (.pure _ t))⟩

theorem isPresent_of_names {directory : Path} {names : List String}
    (h : t.names directory = .ok names) : t.isPresent directory = true := by
  rw [FileTree.names] at h
  rw [FileTree.isPresent]
  cases hfind : t.find directory with
  | error e => rw [hfind] at h; cases h
  | ok found => rfl

/-- Of a directory, what can be loaded is loaded; it is an error if there is nothing. -/
theorem gives_loadDirectory {directory : Path} {names : List String}
    (h : t.names directory = .ok names) :
    ∃ warnings, Gives (loadDirectory directory : ExceptT RunError Session _).run t
      (if t.loaded (sceneFiles directory names) = [] then .error (.noScenes directory)
        else .ok (t.loaded (sceneFiles directory names))) warnings t := by
  obtain ⟨warnings, heach⟩ := gives_loadEach (sceneFiles directory names) t
  refine ⟨warnings ++ "", ?_⟩
  have hpresent : Gives (FileStore.isPresent directory) t true "" t :=
    .lift (by rw [← isPresent_of_names h]; rfl)
  have hnames : Gives (FileStore.names directory) t (.ok names) "" t := .lift (by rw [← h]; rfl)
  rw [loadDirectory]
  refine hpresent.quiet_lift_bind ?_
  rw [if_pos rfl]
  refine hnames.quiet_lift_bind (heach.lift_bind ?_)
  by_cases hnone : t.loaded (sceneFiles directory names) = []
  · rw [if_pos hnone, if_pos (List.isEmpty_iff.mpr hnone)]
    exact .error _ t
  · rw [if_neg hnone, if_neg (mt List.isEmpty_iff.mp hnone)]
    exact .ok _ t

theorem gives_loadDirectory_error {directory : Path} {e : FileError}
    (h : t.names directory = .error e) :
    ∃ e', Gives (loadDirectory directory : ExceptT RunError Session _).run t (.error e') "" t := by
  have hpresent : Gives (FileStore.isPresent directory) t (t.isPresent directory) "" t := .lift rfl
  have hnames : Gives (FileStore.names directory) t (.error e) "" t := .lift (by rw [← h]; rfl)
  rw [loadDirectory]
  cases hthere : t.isPresent directory with
  | false =>
      rw [hthere] at hpresent
      exact ⟨_, hpresent.quiet_lift_bind ((Gives.error _ t).error_bind)⟩
  | true =>
      rw [hthere] at hpresent
      exact ⟨_, hpresent.quiet_lift_bind (hnames.quiet_lift_bind (.error _ t))⟩

/-- The paths of the scene files of a run. -/
def Source.paths (t : FileTree) : Source → List Path
  | .files paths => paths
  | .directory d =>
    match t.names d with
    | .ok names => sceneFiles d names
    | .error _ => []

theorem exists_gives_loadScenes (source : Source) (t : FileTree) :
    ∃ r said, Gives (loadScenes source : ExceptT RunError Session _).run t r said t ∧
      ∀ scenes, r = .ok scenes → scenes = t.loaded (source.paths t) := by
  cases source with
  | files paths =>
      by_cases h : ∃ p ∈ paths, ∀ s, t.load p ≠ .ok s
      · obtain ⟨p, e, hfails⟩ := gives_loadFiles_error h
        exact ⟨_, _, hfails, nofun⟩
      · have hall : ∀ p ∈ paths, ∃ s, t.load p = .ok s := by simpa using h
        exact ⟨_, _, gives_loadFiles hall, fun _ hscenes => (Except.ok.inj hscenes).symm⟩
  | directory d =>
      rw [Source.paths]
      cases h : t.names d with
      | error e =>
          obtain ⟨e', hfails⟩ := gives_loadDirectory_error h
          exact ⟨_, _, hfails, nofun⟩
      | ok names =>
          obtain ⟨warnings, hloads⟩ := gives_loadDirectory h
          refine ⟨_, _, hloads, fun scenes hscenes => ?_⟩
          split at hscenes
          · cases hscenes
          · exact (Except.ok.inj hscenes).symm

/-! ### Saving a scene -/

/-- Where the image of a scene of this name goes. -/
def Config.output (config : Config) (name : String) : Path :=
  config.outDirectory.join (.ofString (name ++ ".png"))

/-- An image with pixels is written to this path, in a directory that is made first. -/
inductive Stores (directory path : Path) (image : Image) (t v : FileTree) : Prop where
  | intro {u : FileTree} (hkind : path.extension?.isSome = true) (hwidth : image.width ≠ 0)
      (hheight : image.height ≠ 0) (hmade : t.makeDirectory directory = .ok u)
      (hwritten : u.write path (.image image) = .ok v)

theorem gives_writeImage {path : Path} {image : Image} (hkind : path.extension?.isSome = true)
    (hwidth : image.width ≠ 0) (hheight : image.height ≠ 0)
    (hwritten : t.write path (.image image) = .ok u) :
    Gives (writeImage path image) t (.ok ()) "" u := by
  have hwrite := Gives.change (·.write path (.image image)) t
  rw [hwritten] at hwrite
  rw [writeImage, if_neg (by simpa using Option.isSome_iff_ne_none.mp hkind),
    if_neg (not_or.mpr ⟨hwidth, hheight⟩)]
  refine hwrite.quiet_bind ?_
  simp only [Except.map, if_neg hwidth, if_neg hheight]
  exact .pure _ u

theorem exists_gives_writeImage (path : Path) (image : Image) (t : FileTree) :
    ∃ r u, Gives (writeImage path image) t r "" u ∧
      (r = .ok () → path.extension?.isSome = true ∧ image.width ≠ 0 ∧ image.height ≠ 0 ∧
        t.write path (.image image) = .ok u) := by
  rw [writeImage]
  by_cases hkind : path.extension?.isNone = true
  · rw [if_pos hkind]
    exact ⟨_, t, .pure _ t, nofun⟩
  · rw [if_neg hkind]
    let content : Content :=
      if image.width = 0 ∨ image.height = 0 then .bytes .empty else .image image
    have hwrite := Gives.change (·.write path content) t
    cases hwritten : t.write path content with
    | error e =>
        rw [hwritten] at hwrite
        exact ⟨_, t, hwrite.quiet_bind (.pure _ t), nofun⟩
    | ok u =>
        rw [hwritten] at hwrite
        refine ⟨_, u, hwrite.quiet_bind (.pure _ u), fun hr => ?_⟩
        split at hr
        · cases hr
        · split at hr
          · cases hr
          · rename_i hwidth hheight
            rw [show content = .image image from if_neg (not_or.mpr ⟨hwidth, hheight⟩)] at hwritten
            exact ⟨by simpa [Option.isSome_iff_ne_none] using hkind, hwidth, hheight, hwritten⟩

variable {surface : Surface} {directory path : Path} {image : Image}

theorem Stores.gives (h : Stores directory path image t v)
    (himage : surface.toImage? = .ok (some image)) (hparent : path.parent? = some directory) :
    Gives (saveImage surface path : ExceptT RunError Session _).run t (.ok ()) "" v := by
  obtain ⟨hkind, hwidth, hheight, hmade, hwritten⟩ := h
  have hmake := Gives.change (·.makeDirectory directory) t
  rw [hmade] at hmake
  have hwrite := gives_writeImage hkind hwidth hheight hwritten
  rw [saveImage, himage]
  simp only [hparent]
  exact hmake.quiet_lift_bind (hwrite.quiet_lift_bind (.ok _ v))

theorem exists_gives_saveImage (surface : Surface) (path : Path) (t : FileTree) :
    ∃ r v, Gives (saveImage surface path : ExceptT RunError Session _).run t r "" v ∧
      ∀ directory, path.parent? = some directory → r = .ok () →
        ∃ image, surface.toImage? = .ok (some image) ∧ Stores directory path image t v := by
  rw [saveImage]
  cases himage : surface.toImage? with
  | error e => exact ⟨_, t, .error _ t, nofun⟩
  | ok image? =>
    cases image? with
    | none => exact ⟨_, t, .error _ t, nofun⟩
    | some image =>
      cases hparent : path.parent? with
      | none =>
          obtain ⟨r, v, hwrite, -⟩ := exists_gives_writeImage path image t
          cases r with
          | error e => exact ⟨_, v, hwrite.quiet_lift_bind (.error _ v), nofun⟩
          | ok _ => exact ⟨_, v, hwrite.quiet_lift_bind (.ok _ v), nofun⟩
      | some directory =>
        have hmake := Gives.change (·.makeDirectory directory) t
        cases hmade : t.makeDirectory directory with
        | error e =>
            rw [hmade] at hmake
            exact ⟨_, t, hmake.quiet_lift_bind ((Gives.error _ t).error_bind), nofun⟩
        | ok u =>
            rw [hmade] at hmake
            obtain ⟨r, v, hwrite, hstored⟩ := exists_gives_writeImage path image u
            cases r with
            | error e =>
                exact ⟨_, v, hmake.quiet_lift_bind (hwrite.quiet_lift_bind (.error _ v)), nofun⟩
            | ok _ =>
                refine ⟨_, v, hmake.quiet_lift_bind (hwrite.quiet_lift_bind (.ok _ v)), ?_⟩
                rintro _ ⟨⟩ -
                obtain ⟨hkind, hwidth, hheight, hwritten⟩ := hstored rfl
                exact ⟨image, rfl, hkind, hwidth, hheight, hmade, hwritten⟩

/-- The scene is rendered, and its image is stored. -/
inductive Saves (config : Config) (s : Scene) (t v : FileTree) : Prop where
  | intro {surface : Surface} {image : Image} (hrender : s.render = .ok surface)
      (himage : surface.toImage? = .ok (some image))
      (hstored : Stores config.outDirectory.folder (config.output s.name) image t v)

variable {config : Config} {s : Scene}

theorem parent?_output (h : '/' ∉ s.name.toList) :
    (config.output s.name).parent? = some config.outDirectory.folder :=
  Path.parent?_join_ofString (Path.isStep_append_extension h)

theorem Saves.gives (h : Saves config (s.override config.overrides) t v)
    (hname : '/' ∉ s.name.toList) (path : Path) :
    ∃ said, Gives (renderOne config path s : ExceptT RunError Session _).run t (.ok ()) said v := by
  obtain ⟨hrender, himage, hstored⟩ := h
  have hsave := hstored.gives himage (parent?_output hname)
  rw [renderOne]
  simp only [hrender]
  exact ⟨_, (Gives.report _ t).lift_bind (hsave.ok_bind (Gives.report _ v).lifted)⟩

theorem gives_renderOne_refused {index : Nat} {op : String} {cause : Refusal}
    (h : (s.override config.overrides).render = .error (.refused index op cause)) (path : Path)
    (t : FileTree) :
    ∃ said, Gives (renderOne config path s : ExceptT RunError Session _).run t
      (.error (.notRendered path index op cause)) said t := by
  rw [renderOne]
  simp only [h]
  exact ⟨_, (Gives.report _ t).lift_bind (.error _ t)⟩

theorem exists_gives_renderOne (config : Config) (path : Path) (s : Scene) (t : FileTree) :
    ∃ r said v, Gives (renderOne config path s : ExceptT RunError Session _).run t r said v ∧
      (r = .ok () → '/' ∉ s.name.toList → Saves config (s.override config.overrides) t v) := by
  cases hrender : (s.override config.overrides).render with
  | error e =>
      cases e with
      | fault =>
          rw [renderOne]
          simp only [hrender]
          exact ⟨_, _, t, (Gives.report _ t).lift_bind (.error _ t), nofun⟩
      | refused index op cause =>
          obtain ⟨said, hgives⟩ := gives_renderOne_refused hrender path t
          exact ⟨_, said, t, hgives, nofun⟩
  | ok surface =>
      obtain ⟨r, v, hsave, hsaved⟩ := exists_gives_saveImage surface
        (config.output (s.override config.overrides).name) t
      rw [renderOne]
      simp only [hrender]
      cases r with
      | error e => exact ⟨_, _, v, (Gives.report _ t).lift_bind hsave.error_bind, nofun⟩
      | ok _ =>
          refine ⟨_, _, v, (Gives.report _ t).lift_bind (hsave.ok_bind (Gives.report _ v).lifted),
            fun _ hname => ?_⟩
          obtain ⟨image, himage, hstored⟩ := hsaved _ (parent?_output hname) rfl
          exact ⟨hrender, himage, hstored⟩

/-! ### Saving all scenes -/

/-- The scenes are saved one after the other. -/
inductive SavesAll (config : Config) : List Scene → FileTree → FileTree → Prop where
  | nil (t : FileTree) : SavesAll config [] t t
  | cons {s : Scene} {scenes : List Scene} {t u v : FileTree} (hs : Saves config s t u)
      (hscenes : SavesAll config scenes u v) : SavesAll config (s :: scenes) t v

/-- The scenes as they are rendered. -/
def Config.drawn (config : Config) (scenes : List (Path × Scene)) : List Scene :=
  scenes.map (·.2.override config.overrides)

theorem drawn_cons (config : Config) (path : Path) (s : Scene) (scenes : List (Path × Scene)) :
    config.drawn ((path, s) :: scenes) = s.override config.overrides :: config.drawn scenes :=
  rfl

theorem drawn_overridden (config : Config) {files : List Path}
    (hloads : ∀ p ∈ files, ∃ s, t.load p = .ok s) :
    List.Forall₂ (fun p d => ∃ s, t.load p = .ok s ∧ s.Overridden config.overrides d) files
      (config.drawn (t.loaded files)) := by
  induction files with
  | nil => exact .nil
  | cons p files ih =>
      obtain ⟨⟨s, hs⟩, hrest⟩ := List.forall_mem_cons.mp hloads
      rw [loaded_cons hs, drawn_cons]
      exact .cons ⟨s, hs, s.override_overridden config.overrides⟩ (ih hrest)

theorem exists_gives_renderAll (config : Config) (scenes : List (Path × Scene)) (t : FileTree) :
    ∃ r said v, Gives (renderAll config scenes : ExceptT RunError Session _).run t r said v ∧
      (r = .ok () → (∀ s ∈ config.drawn scenes, '/' ∉ s.name.toList) →
        SavesAll config (config.drawn scenes) t v) := by
  induction scenes generalizing t with
  | nil => exact ⟨_, _, t, .ok _ t, fun _ _ => .nil t⟩
  | cons scene scenes ih =>
      obtain ⟨path, s⟩ := scene
      obtain ⟨r, said, u, hone, hsaved⟩ := exists_gives_renderOne config path s t
      rw [renderAll]
      cases r with
      | error e => exact ⟨_, said, u, hone.error_bind, nofun⟩
      | ok _ =>
          obtain ⟨r, said', v, hall, hrest⟩ := ih u
          refine ⟨r, _, v, hone.ok_bind hall, fun hr hnames => ?_⟩
          rw [drawn_cons, List.forall_mem_cons] at hnames
          exact .cons (hsaved rfl hnames.1) (hrest hr hnames.2)

/-- If the scenes up to the first one that is refused can be saved, they are, and a refusal is the
only error. -/
theorem SavesAll.gives {scenes : List (Path × Scene)}
    (hnames : ∀ s ∈ config.drawn scenes, '/' ∉ s.name.toList)
    (hfault : ∀ s ∈ config.drawn scenes, s.render ≠ .error .fault)
    (h : SavesAll config ((config.drawn scenes).takeWhile (·.render.isOk)) t v) :
    ∃ r said, Gives (renderAll config scenes : ExceptT RunError Session _).run t r said v ∧
      (r = .ok () ∧ (config.drawn scenes).all (·.render.isOk) = true ∨
        ∃ e, r = .error e ∧ e.exitCode = 1 ∧
          (config.drawn scenes).all (·.render.isOk) = false) := by
  induction scenes generalizing t with
  | nil =>
      cases h
      exact ⟨_, _, .ok _ _, .inl ⟨rfl, rfl⟩⟩
  | cons scene scenes ih =>
      obtain ⟨path, s⟩ := scene
      rw [drawn_cons, List.forall_mem_cons] at hnames hfault
      rw [drawn_cons] at h ⊢
      rw [renderAll, List.all_cons]
      cases hrender : (s.override config.overrides).render with
      | ok surface =>
          rw [List.takeWhile_cons_of_pos (by rw [hrender]; rfl)] at h
          cases h with
          | cons hs hscenes =>
            obtain ⟨said, hone⟩ := hs.gives hnames.1 path
            obtain ⟨r, said', hall, hr⟩ := ih hnames.2 hfault.2 hscenes
            exact ⟨r, _, hone.ok_bind hall, hr⟩
      | error e =>
          rw [List.takeWhile_cons_of_neg (by rw [hrender]; nofun)] at h
          cases h
          cases e with
          | fault => exact absurd hrender hfault.1
          | refused index op cause =>
              obtain ⟨said, hone⟩ := gives_renderOne_refused hrender path v
              exact ⟨_, said, hone.error_bind, .inr ⟨_, rfl, rfl, rfl⟩⟩

end Command

end Raster
