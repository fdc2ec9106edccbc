import Raster.Proofs.OpFootprint
import Raster.Proofs.RunSteps

/-!
# What a run leaves behind

A run loads everything in the tree in which its log file is started, and changes that tree only
while it renders. Of the scenes that are saved under one name, the last one is left.
-/

namespace Raster

variable {t u v : FileTree} {l m : Location}

namespace Scene

/-- The image shows the scene as it is rendered. -/
def Shows (s : Scene) (image : Image) : Prop :=
  ∃ surface bytes, s.render = .ok surface ∧ surface.toRgba8 = .ok bytes ∧
    image = ⟨surface.width, surface.height, bytes⟩

/-- The name is that of a file and the sides are those of an image, which has 32 bits for each, and
nothing is too large for the machine. -/
structure Regular (s : Scene) : Prop where
  name_ne : s.name ≠ ""
  name_plain : '/' ∉ s.name.toList
  width_pos : 0 < s.width
  height_pos : 0 < s.height
  width_lt : s.width < UInt32.size
  height_lt : s.height < UInt32.size
  render_ne : s.render ≠ .error .fault
  toRgba8_ne : ∀ surface, s.render = .ok surface → surface.toRgba8 ≠ .error .fault

instance (s : Scene) : Decidable s.Regular :=
  decidable_of_iff (s.name ≠ "" ∧ '/' ∉ s.name.toList ∧ 0 < s.width ∧ 0 < s.height ∧
      s.width < UInt32.size ∧ s.height < UInt32.size ∧
      s.render.map (fun _ => ()) ≠ .error .fault ∧
      ∀ surface ∈ s.render.toOption, surface.toRgba8 ≠ .error .fault) <| by
    have hfault : s.render.map (fun _ => ()) = .error .fault ↔ s.render = .error .fault := by
      cases s.render <;> simp [Except.map]
    have hmem (surface : Surface) : surface ∈ s.render.toOption ↔ s.render = .ok surface := by
      cases s.render <;> simp [Except.toOption]
    simp only [ne_eq, hfault, hmem]
    exact ⟨fun ⟨hne, hplain, hw, hh, hw', hh', hrender, hbytes⟩ =>
        ⟨hne, hplain, hw, hh, hw', hh', hrender, hbytes⟩,
      fun ⟨hne, hplain, hw, hh, hw', hh', hrender, hbytes⟩ =>
        ⟨hne, hplain, hw, hh, hw', hh', hrender, hbytes⟩⟩

variable {s : Scene} {surface : Surface} {image : Image}

theorem size_of_render (h : s.render = .ok surface) :
    surface.width = s.width ∧ surface.height = s.height := by
  rw [render] at h
  cases hcanvas : s.canvas with
  | error e => simp [hcanvas] at h
  | ok blank =>
      rw [hcanvas] at h
      obtain ⟨hwidth, hheight, -⟩ := shape_of_canvas hcanvas
      rw [layout_of_applyAll h]
      exact ⟨hwidth, hheight⟩

theorem shows_of_toImage? (hrender : s.render = .ok surface)
    (h : surface.toImage? = .ok (some image)) : s.Shows image := by
  rw [Surface.toImage?] at h
  split at h
  · cases hbytes : surface.toRgba8 with
    | error e => rw [hbytes] at h; cases h
    | ok bytes =>
        rw [hbytes] at h
        cases h
        exact ⟨surface, bytes, hrender, hbytes, rfl⟩
  · cases h

theorem Regular.exists_toImage? (h : s.Regular) (hrender : s.render = .ok surface) :
    ∃ image, surface.toImage? = .ok (some image) ∧ image.width ≠ 0 ∧ image.height ≠ 0 := by
  obtain ⟨hwidth, hheight⟩ := size_of_render hrender
  have hw := h.width_pos
  have hh := h.height_pos
  cases hbytes : surface.toRgba8 with
  | error e =>
      have hfault : e = .fault := by
        rw [Surface.toRgba8] at hbytes
        split at hbytes
        · split at hbytes
          · cases hbytes
          · exact (Except.error.inj hbytes).symm
        · exact (Except.error.inj hbytes).symm
      exact absurd (hfault ▸ hbytes) (h.toRgba8_ne surface hrender)
  | ok bytes =>
      have hsides : surface.width ≠ 0 ∧ surface.height ≠ 0 := by omega
      refine ⟨⟨surface.width, surface.height, bytes⟩, ?_, hsides⟩
      rw [Surface.toImage?, if_pos ⟨hwidth ▸ h.width_lt, hheight ▸ h.height_lt⟩, hbytes]
      rfl

end Scene

/-- An image can be written to the path, once its directory is made. -/
def FileTree.Accepts (t : FileTree) (p : Path) : Prop :=
  ∃ directory u, p.parent? = some directory ∧ t.makeDirectory directory = .ok u ∧
    ∀ image, ∃ v, u.write p (.image image) = .ok v

/-- The tree after the log file was started in a directory, as far as that could be done. -/
def FileTree.withLog (t : FileTree) (directory : Path) : FileTree :=
  match t.makeDirectory directory with
  | .error _ => t
  | .ok u => (u.write (directory.join (.ofString "bbrender.log")) (.bytes .empty)).toOption.getD u

namespace Command

section

variable {config : Config} {s : Scene} {scenes front back : List Scene}

/-! ### The scenes that are saved -/

theorem Saves.leaves (h : Saves config s t v) (hname : '/' ∉ s.name.toList) :
    ∃ m image, v.Opens config.outDirectory m ∧ t.Keeps v ∧ s.Shows image ∧
      v.get? (m ++ [s.name ++ ".png"]) = some (.file (.image image)) ∧
      ∀ l, l ≠ m ++ [s.name ++ ".png"] → t.KeptAt v l := by
  obtain @⟨surface, image, hrender, himage, @⟨u, -, -, -, hmade, hwritten⟩⟩ := h
  have hstep := Path.isStep_append_extension hname
  have hextends := FileTree.extends_of_makeDirectory hmade
  obtain ⟨m, hopens, hfile, rfl⟩ := (FileTree.write_join hstep).mp hwritten
  have hkeeps := FileTree.keeps_put_file (c := .image image) FileTree.concat_ne_nil hfile
  refine ⟨m, image, hopens.keep hkeeps, hextends.keeps.trans hkeeps,
    Scene.shows_of_toImage? hrender himage, ?_, fun l hl => ?_⟩
  · rw [FileTree.get?_put _ FileTree.concat_ne_nil, if_pos rfl]
  · rw [FileTree.KeptAt, FileTree.get?_put _ FileTree.concat_ne_nil, if_neg hl]
    exact hextends.kept l

namespace SavesAll

theorem append (h : SavesAll config (front ++ back) t v) :
    ∃ u, SavesAll config front t u ∧ SavesAll config back u v := by
  induction front generalizing t with
  | nil => exact ⟨t, .nil t, h⟩
  | cons s front ih =>
      cases h with
      | cons hs hrest =>
          obtain ⟨u, hfront, hback⟩ := ih hrest
          exact ⟨u, .cons hs hfront, hback⟩

theorem keeps (h : SavesAll config scenes t v) (hnames : ∀ s ∈ scenes, '/' ∉ s.name.toList) :
    t.Keeps v := by
  induction h with
  | nil t => exact .refl t
  | cons hs _ ih =>
      rw [List.forall_mem_cons] at hnames
      obtain ⟨_, _, -, hkeeps, -⟩ := hs.leaves hnames.1
      exact hkeeps.trans (ih hnames.2)

theorem kept (h : SavesAll config scenes t v) (hnames : ∀ s ∈ scenes, '/' ∉ s.name.toList)
    (hopens : v.Opens config.outDirectory m) (hl : ∀ s ∈ scenes, l ≠ m ++ [s.name ++ ".png"]) :
    t.KeptAt v l := by
  induction h with
  | nil t => exact .inl rfl
  | @cons s scenes t u v hs hrest ih =>
      rw [List.forall_mem_cons] at hnames hl
      obtain ⟨m', _, hopens', -, -, -, hothers⟩ := hs.leaves hnames.1
      obtain rfl := hopens.unique (hopens'.keep (hrest.keeps hnames.2))
      exact (hothers l hl.1).trans (ih hnames.2 hopens hl.2)

theorem find_last (h : SavesAll config (front ++ s :: back) t v)
    (hnames : ∀ s' ∈ front ++ s :: back, '/' ∉ s'.name.toList)
    (hlast : ∀ s' ∈ back, s'.name ≠ s.name) :
    ∃ m image, v.Opens config.outDirectory m ∧ s.Shows image ∧
      v.find (config.output s.name) = .ok (m ++ [s.name ++ ".png"], .file (.image image)) := by
  obtain ⟨u, -, hrest⟩ := h.append
  rw [List.forall_mem_append, List.forall_mem_cons] at hnames
  cases hrest with
  | @cons _ _ _ w _ hs hback =>
      obtain ⟨m, image, hopens, -, hshows, hget, -⟩ := hs.leaves hnames.2.1
      have hopens' := hopens.keep (hback.keeps hnames.2.2)
      have hplace : ∀ s' ∈ back, m ++ [s.name ++ ".png"] ≠ m ++ [s'.name ++ ".png"] := by
        intro s' hs' heq
        exact hlast s' hs' (by simpa using heq.symm)
      have hkept := (hback.kept hnames.2.2 hopens' hplace).get?_eq (by rw [hget]; nofun)
      refine ⟨m, image, hopens', hshows, ?_⟩
      rw [FileTree.find, Config.output,
        hopens'.locate_eq (Path.isStep_append_extension hnames.2.1)]
      simp only [bind, Except.bind, hkept, hget]
      rfl

end SavesAll

/-- What these scenes leave of a tree when they are saved in their order. The image of the last
scene of a name is in the output directory, which is at `m`, and only directories are new
elsewhere. -/
structure Leaves (config : Config) (saved : List Scene) (t v : FileTree) (m : Location) : Prop where
  shows : ∀ front s back, saved = front ++ s :: back → (∀ s' ∈ back, s'.name ≠ s.name) →
    ∃ image, s.Shows image ∧
      v.find (config.output s.name) = .ok (m ++ [s.name ++ ".png"], .file (.image image))
  others : ∀ l, (∀ s ∈ saved, l ≠ m ++ [s.name ++ ".png"]) → t.KeptAt v l

theorem SavesAll.leaves (h : SavesAll config scenes t v)
    (hnames : ∀ s ∈ scenes, '/' ∉ s.name.toList) : ∃ m, Leaves config scenes t v m := by
  cases h with
  | nil => exact ⟨[], fun front s back hsplit => absurd hsplit (by simp), fun _ _ => .inl rfl⟩
  | @cons s scenes t u v hs hrest =>
      have hall : SavesAll config (s :: scenes) t v := .cons hs hrest
      obtain ⟨m, _, hopens, -⟩ := hs.leaves (hnames s List.mem_cons_self)
      replace hopens := hopens.keep
        (hrest.keeps fun s' hs' => hnames s' (List.mem_cons_of_mem s hs'))
      refine ⟨m, ?_, fun l hl => hall.kept hnames hopens hl⟩
      intro front s' back hsplit hlast
      rw [hsplit] at hall hnames
      obtain ⟨m', image, hopens', hshows, hfind⟩ := hall.find_last hnames hlast
      obtain rfl := hopens.unique hopens'
      exact ⟨image, hshows, hfind⟩

/-! ### Scenes that can be saved -/

theorem Saves.accepts (h : Saves config s t v) (hname : '/' ∉ s.name.toList) {name : String}
    (hname' : '/' ∉ name.toList) (haccepts : t.Accepts (config.output name)) :
    v.Accepts (config.output name) := by
  have hstep := Path.isStep_append_extension hname
  have hstep' := Path.isStep_append_extension hname'
  obtain @⟨surface, image, -, -, @⟨u, -, -, -, hmade, hwritten⟩⟩ := h
  obtain ⟨directory, u', hparent, hmade', hwritable⟩ := haccepts
  obtain rfl : config.outDirectory.folder = directory :=
    Option.some.inj ((Path.parent?_join_ofString hstep').symm.trans hparent)
  obtain rfl : u = u' := Except.ok.inj (hmade.symm.trans hmade')
  obtain ⟨m, hopens, hfile, rfl⟩ := (FileTree.write_join hstep).mp hwritten
  have hkeeps := FileTree.keeps_put_file (c := .image image) FileTree.concat_ne_nil hfile
  refine ⟨_, _, hparent, FileTree.makeDirectory_again hmade hkeeps, fun other => ?_⟩
  obtain ⟨w, hother⟩ := hwritable other
  obtain ⟨m', hopens', hfile', -⟩ := (FileTree.write_join hstep').mp hother
  obtain rfl := hopens.unique hopens'
  refine ⟨_, (FileTree.write_join hstep').mpr ⟨m', hopens.keep hkeeps, ?_, rfl⟩⟩
  rw [FileTree.get?_put _ FileTree.concat_ne_nil]
  split
  · nofun
  · exact hfile'

theorem exists_saves (hregular : s.Regular) (hrenders : s.render.isOk = true)
    (haccepts : t.Accepts (config.output s.name)) : ∃ v, Saves config s t v := by
  obtain ⟨directory, u, hparent, hmade, hwritable⟩ := haccepts
  obtain rfl : config.outDirectory.folder = directory :=
    Option.some.inj ((parent?_output hregular.name_plain).symm.trans hparent)
  cases hrender : s.render with
  | error e => rw [hrender] at hrenders; cases hrenders
  | ok surface =>
      obtain ⟨image, himage, hwidth, hheight⟩ := hregular.exists_toImage? hrender
      obtain ⟨v, hwritten⟩ := hwritable image
      have hkind := Path.extension?_join (p := config.outDirectory) hregular.name_ne
        hregular.name_plain
      exact ⟨v, hrender, himage, hkind, hwidth, hheight, hmade, hwritten⟩

theorem exists_savesAll (h : ∀ s ∈ scenes, s.Regular ∧ t.Accepts (config.output s.name))
    (hrenders : ∀ s ∈ scenes, s.render.isOk = true) : ∃ v, SavesAll config scenes t v := by
  induction scenes generalizing t with
  | nil => exact ⟨t, .nil t⟩
  | cons s scenes ih =>
      rw [List.forall_mem_cons] at h hrenders
      obtain ⟨⟨hregular, haccepts⟩, hrest⟩ := h
      obtain ⟨u, hs⟩ := exists_saves hregular hrenders.1 haccepts
      have hrest' : ∀ s' ∈ scenes, s'.Regular ∧ u.Accepts (config.output s'.name) := by
        intro s' hs'
        obtain ⟨hregular', haccepts'⟩ := hrest s' hs'
        exact ⟨hregular', hs.accepts hregular.name_plain hregular'.name_plain haccepts'⟩
      obtain ⟨v, hscenes⟩ := ih hrest' hrenders.2
      exact ⟨v, .cons hs hscenes⟩

/-! ### Whole runs -/

theorem gives_startLog (directory : Path) (t : FileTree) :
    ∃ said, Gives (startLog directory) t () said (t.withLog directory) := by
  have hmake := Gives.change (·.makeDirectory directory) t
  rw [startLog, FileTree.withLog]
  cases hmade : t.makeDirectory directory with
  | error e =>
      rw [hmade] at hmake
      exact ⟨_, hmake.quiet_bind (.report _ t)⟩
  | ok u =>
      rw [hmade] at hmake
      have hwrite := Gives.change
        (·.write (directory.join (.ofString "bbrender.log")) (.bytes .empty)) u
      exact ⟨_, hmake.quiet_bind (hwrite.quiet_bind (.pure _ _))⟩

/-- The tree in which a run loads its scenes. -/
def Config.started (config : Config) (t : FileTree) : FileTree :=
  match config.logDirectory with
  | none => t
  | some directory => t.withLog directory

variable {a : Arguments} {paths : List (Path × Scene)} {e : RunError} {r : Except RunError Unit}
  {said said' : String}

/-- The configuration is what the arguments ask for, with a default for each directory that they leave
out. -/
structure Config.Meets (config : Config) (a : Arguments) : Prop where
  source_eq : config.source =
    if a.all then .directory (a.scenesDirectory.getD (.ofString "samples/scenes"))
    else .files a.scenes
  outDirectory_eq : config.outDirectory = a.outDirectory.getD (.ofString "samples/output")
  overrides_eq : config.overrides = ⟨a.format, a.rotation⟩
  logDirectory_eq : config.logDirectory = a.logDirectory

theorem config_eq_ok_iff : a.config = .ok config ↔ a.all = a.scenes.isEmpty ∧ config.Meets a := by
  obtain ⟨source, outDirectory, overrides, logDirectory⟩ := config
  obtain ⟨scenes, all, scenesDirectory, outDirectory', format, rotation, logDirectory'⟩ := a
  rw [Arguments.config]
  constructor
  · intro h
    cases all <;> cases scenes <;> cases h <;> exact ⟨rfl, rfl, rfl, rfl, rfl⟩
  · rintro ⟨hall, hsource, houtDirectory, hoverrides, hlogDirectory⟩
    dsimp only at hall hsource houtDirectory hoverrides hlogDirectory
    subst hsource houtDirectory hoverrides hlogDirectory
    cases all <;> cases scenes <;> cases hall <;> rfl

theorem exists_outcome (ha : a.config = .ok config)
    (h : Gives (do
        let scenes ← loadScenes config.source
        liftM (Reporter.report
          s!"Rendering {scenes.length} scene(s) → {config.outDirectory}\n" : Session Unit)
        renderAll config scenes
        liftM (Reporter.report "Done!\n" : Session Unit) : ExceptT RunError Session Unit).run
      (config.started t) r said v) :
    ∃ said', a.outcome t = ⟨r, said', v⟩ := by
  have hrun : ∃ said', Gives (a.run : ExceptT RunError Session Unit).run t r said' v := by
    rw [Arguments.run, ha]
    dsimp only
    rw [Config.run]
    rw [Config.started] at h
    cases hlog : config.logDirectory with
    | none =>
        rw [hlog] at h
        exact ⟨said, h⟩
    | some directory =>
        rw [hlog] at h
        obtain ⟨started, hstart⟩ := gives_startLog directory t
        exact ⟨_, hstart.lift_bind h⟩
  obtain ⟨said', hgives⟩ := hrun
  refine ⟨said', ?_⟩
  rw [Arguments.outcome, hgives, String.empty_append]

theorem outcome_of_load_error (ha : a.config = .ok config)
    (hload : Gives (loadScenes config.source : ExceptT RunError Session _).run (config.started t)
      (.error e) said (config.started t)) :
    ∃ said', a.outcome t = ⟨.error e, said', config.started t⟩ :=
  exists_outcome ha hload.error_bind

theorem outcome_of_loaded (ha : a.config = .ok config)
    (hload : Gives (loadScenes config.source : ExceptT RunError Session _).run (config.started t)
      (.ok paths) said (config.started t))
    (hall : Gives (renderAll config paths : ExceptT RunError Session _).run (config.started t)
      r said' v) :
    ∃ said, a.outcome t = ⟨r, said, v⟩ := by
  cases r with
  | error e =>
      exact exists_outcome ha (hload.ok_bind ((Gives.report _ _).lift_bind hall.error_bind))
  | ok _ =>
      exact exists_outcome ha (hload.ok_bind ((Gives.report _ _).lift_bind
        (hall.ok_bind (Gives.report _ v).lifted)))

/-! ### The scene files of a directory -/

theorem mem_loaded {p : Path} {files : List Path} :
    (p, s) ∈ t.loaded files ↔ p ∈ files ∧ t.load p = .ok s := by
  rw [FileTree.loaded, List.mem_filterMap]
  constructor
  · rintro ⟨q, hq, hs⟩
    cases hload : t.load q with
    | error e => rw [hload] at hs; cases hs
    | ok s' =>
        rw [hload] at hs
        cases hs
        exact ⟨hq, hload⟩
  · rintro ⟨hp, hload⟩
    exact ⟨p, hp, by rw [hload]; rfl⟩

theorem loaded_filter {f : Path → Bool} (hf : ∀ p s, t.load p = .ok s → f p = true)
    (paths : List Path) : t.loaded (paths.filter f) = t.loaded paths := by
  rw [FileTree.loaded, FileTree.loaded, List.filterMap_filter]
  refine congrArg (List.filterMap · paths) (funext fun p => ?_)
  cases hp : t.load p with
  | error e => simp [Except.toOption]
  | ok s => rw [if_pos (hf p s hp)]

theorem isSome_ofPath?_of_load {p : Path} (h : t.load p = .ok s) :
    (Encoding.ofPath? p).isSome = true := by
  rw [FileTree.load, Scene.load_eq] at h
  cases hp : Encoding.ofPath? p with
  | none => rw [hp] at h; cases h
  | some encoding => rfl

/-- There is one way to list the loadable scene files of a directory by their names. -/
theorem loaded_sceneFiles {directory : Path} {names chosen : List String}
    (hchosen : chosen.Perm (names.filter fun name =>
      (t.load (directory.join (.ofString name))).isOk)) (hsorted : chosen.Pairwise (· ≤ ·)) :
    t.loaded (sceneFiles directory names) =
      t.loaded (chosen.map fun name => directory.join (.ofString name)) := by
  have hsort := List.mergeSort_perm names fun a b => decide (a ≤ b)
  have hpairwise : (names.mergeSort fun a b => decide (a ≤ b)).Pairwise (· ≤ ·) := by
    have h := @List.pairwise_mergeSort String (fun a b => decide (a ≤ b))
      (by simpa using fun a b c => String.le_trans) (by simpa using String.le_total) names
    simpa using h
  have heq := List.Perm.eq_of_pairwise (fun _ _ _ _ => String.le_antisymm) hsorted
    (hpairwise.filter _) (hchosen.trans (hsort.filter _).symm)
  rw [sceneFiles, loaded_filter fun p s => isSome_ofPath?_of_load, heq,
    ← Function.comp_def (fun p : Path => (t.load p).isOk), ← List.filter_map,
    loaded_filter fun p s hp => by rw [hp]; rfl]

theorem renderAll_source (config : Config) (source : Source) (scenes : List (Path × Scene)) :
    (renderAll { config with source } scenes : ExceptT RunError Session _) =
      renderAll config scenes := by
  induction scenes with
  | nil => rfl
  | cons scene scenes ih =>
      rw [renderAll, renderAll, ih]
      rfl

theorem config_listed (ha : a.config = .ok config) (listed : List Path) (hne : listed ≠ []) :
    { a with all := false, scenes := listed }.config =
      .ok { config with source := .files listed } := by
  have hmeets := (config_eq_ok_iff.mp ha).2
  refine config_eq_ok_iff.mpr ⟨(List.isEmpty_eq_false_iff.mpr hne).symm, rfl, ?_, ?_, ?_⟩
  · exact hmeets.outDirectory_eq
  · exact hmeets.overrides_eq
  · exact hmeets.logDirectory_eq

/-! ### What is left -/

theorem started_kept (config : Config) (t : FileTree) (l : Location) :
    t.KeptAt (config.started t) l ∨
      (config.started t).get? l = some (.file (.bytes .empty)) := by
  rw [Config.started]
  cases config.logDirectory with
  | none => exact .inl (.inl rfl)
  | some directory =>
      dsimp only
      rw [FileTree.withLog]
      cases hmade : t.makeDirectory directory with
      | error e => exact .inl (.inl rfl)
      | ok u =>
          have hextends := FileTree.extends_of_makeDirectory hmade
          dsimp only
          cases hwritten : u.write (directory.join (.ofString "bbrender.log")) (.bytes .empty) with
          | error e => exact .inl (hextends.kept l)
          | ok v =>
              obtain ⟨k, -, hk, rfl⟩ := FileTree.eq_put_of_write hwritten
              have hroot : k ≠ [] := by
                rintro rfl
                exact hk rfl
              show t.KeptAt (u.put k _) l ∨ (u.put k _).get? l = _
              rw [FileTree.KeptAt, FileTree.get?_put _ hroot]
              split
              · exact .inr rfl
              · exact .inl (hextends.kept l)

theorem outcome_of_unloadable (ha : a.config = .ok config) {files : List Path}
    (hsource : config.source = .files files)
    (hfails : ∃ p ∈ files, ∀ s, (config.started t).load p ≠ .ok s) :
    (a.outcome t).exitCode = 1 ∧ (a.outcome t).files = config.started t := by
  obtain ⟨p, e, hload⟩ := gives_loadFiles_error hfails
  obtain ⟨said, houtcome⟩ := outcome_of_load_error ha (by rw [hsource]; exact hload)
  rw [houtcome]
  exact ⟨rfl, rfl⟩

theorem outcome_of_loadable (ha : a.config = .ok config) {files : List Path}
    (hsource : config.source = .files files)
    (hloads : ∀ p ∈ files, ∃ s, (config.started t).load p = .ok s)
    (hdrawn : ∀ s ∈ config.drawn ((config.started t).loaded files),
      s.Regular ∧ (config.started t).Accepts (config.output s.name)) :
    (∃ m, Leaves config
      ((config.drawn ((config.started t).loaded files)).takeWhile (·.render.isOk))
      (config.started t) (a.outcome t).files m) ∧
    (a.outcome t).exitCode =
      if (config.drawn ((config.started t).loaded files)).all (·.render.isOk) then 0 else 1 := by
  let drawn := config.drawn ((config.started t).loaded files)
  have hbefore : ∀ s ∈ drawn.takeWhile (·.render.isOk), s ∈ drawn := fun s hs =>
    (List.takeWhile_sublist _).mem hs
  obtain ⟨v, hsaves⟩ := exists_savesAll (fun s hs => hdrawn s (hbefore s hs))
    fun s hs => List.all_eq_true.mp List.all_takeWhile s hs
  obtain ⟨r, said, hall, hr⟩ := hsaves.gives (fun s hs => (hdrawn s hs).1.name_plain)
    fun s hs => (hdrawn s hs).1.render_ne
  obtain ⟨said, houtcome⟩ := outcome_of_loaded ha
    (by rw [hsource]; exact gives_loadFiles hloads) hall
  rw [houtcome]
  refine ⟨hsaves.leaves fun s hs => (hdrawn s (hbefore s hs)).1.name_plain, ?_⟩
  obtain ⟨rfl, hrenders⟩ | ⟨e, rfl, hcode, hrefused⟩ := hr
  · exact (if_pos hrenders).symm
  · exact hcode.trans (if_neg (by simpa using hrefused)).symm

theorem outcome_of_directory (ha : a.config = .ok config) {directory : Path}
    {names chosen : List String} (hsource : config.source = .directory directory)
    (hnames : (config.started t).names directory = .ok names)
    (hchosen : chosen.Perm (names.filter fun name =>
      ((config.started t).load (directory.join (.ofString name))).isOk))
    (hsorted : chosen.Pairwise (· ≤ ·)) (hne : chosen ≠ []) :
    ∃ r said said' v, a.outcome t = ⟨r, said, v⟩ ∧
      { a with all := false
               scenes := chosen.map fun name => directory.join (.ofString name) }.outcome t =
        ⟨r, said', v⟩ := by
  let listed := chosen.map fun name => directory.join (.ofString name)
  have hloads : ∀ p ∈ listed, ∃ s, (config.started t).load p = .ok s := by
    intro p hp
    obtain ⟨name, hname, rfl⟩ := List.mem_map.mp hp
    have hok := (List.mem_filter.mp (hchosen.mem_iff.mp hname)).2
    cases hload : (config.started t).load (directory.join (.ofString name)) with
    | error e => rw [hload] at hok; cases hok
    | ok s => exact ⟨s, rfl⟩
  have hloaded := loaded_sceneFiles hchosen hsorted
  have hsome : (config.started t).loaded (sceneFiles directory names) ≠ [] := by
    rw [hloaded]
    obtain ⟨name, hname⟩ := List.exists_mem_of_ne_nil chosen hne
    have hmem : directory.join (.ofString name) ∈ listed := List.mem_map_of_mem hname
    obtain ⟨s, hs⟩ := hloads _ hmem
    exact List.ne_nil_of_mem (mem_loaded.mpr ⟨hmem, hs⟩)
  obtain ⟨warnings, hload⟩ := gives_loadDirectory hnames
  rw [if_neg hsome] at hload
  obtain ⟨r, said, v, hall, -⟩ := exists_gives_renderAll config
    ((config.started t).loaded (sceneFiles directory names)) (config.started t)
  obtain ⟨said₁, houtcome⟩ := outcome_of_loaded ha (by rw [hsource]; exact hload) hall
  rw [hloaded, ← renderAll_source config (.files listed)] at hall
  obtain ⟨said₂, houtcome'⟩ := outcome_of_loaded
    (config_listed ha listed (by simpa [listed] using hne)) (gives_loadFiles hloads) hall
  exact ⟨r, said₁, said₂, v, houtcome, houtcome'⟩

/-- What a run leaves behind. Named files are all loaded, or nothing changes but the log; their scenes
are rendered in the format and the rotation that the arguments give. Those before the first that is
refused are saved, each over those of its name, and there is no error if none is refused. A run of a
directory is one of the files in it that can be loaded, in the order of their names. -/
theorem run_leaves (a : Arguments) (t : FileTree) :
    (∀ c, a.config = .error c → (a.outcome t).exitCode = 1 ∧ (a.outcome t).files = t) ∧
    ∀ config, a.config = .ok config →
      let start := config.started t
      config.Meets a ∧
      (∀ l, t.KeptAt start l ∨ start.get? l = some (.file (.bytes .empty))) ∧
      (∀ files, config.source = .files files →
        ((∃ p ∈ files, ∀ s, start.load p ≠ .ok s) →
          (a.outcome t).exitCode = 1 ∧ (a.outcome t).files = start) ∧
        ((∀ p ∈ files, ∃ s, start.load p = .ok s) →
          let drawn := config.drawn (start.loaded files)
          List.Forall₂ (fun p d => ∃ s, start.load p = .ok s ∧
            s.Overridden ⟨a.format, a.rotation⟩ d) files drawn ∧
          ((∀ s ∈ drawn, s.Regular ∧ start.Accepts (config.output s.name)) →
            (∃ m, Leaves config (drawn.takeWhile (·.render.isOk)) start (a.outcome t).files m) ∧
            (a.outcome t).exitCode = if drawn.all (·.render.isOk) then 0 else 1))) ∧
      (∀ directory names chosen, config.source = .directory directory →
        start.names directory = .ok names →
        chosen.Perm (names.filter fun name =>
          (start.load (directory.join (.ofString name))).isOk) →
        chosen.Pairwise (· ≤ ·) → chosen ≠ [] →
        let listed : Arguments := { a with
          all := false, scenes := chosen.map fun name => directory.join (.ofString name) }
        (a.outcome t).ended = (listed.outcome t).ended ∧
          (a.outcome t).files = (listed.outcome t).files) := by
  refine ⟨fun c hc => ?_, fun config ha => ?_⟩
  · have hgives : Gives (a.run : ExceptT RunError Session Unit).run t
        (.error (.contradiction c)) "" t := by
      rw [Arguments.run, hc]
      exact .error _ t
    rw [Arguments.outcome, hgives]
    exact ⟨rfl, rfl⟩
  · have hmeets := (config_eq_ok_iff.mp ha).2
    refine ⟨hmeets, started_kept config t, fun files hsource => ⟨?failed, ?loaded⟩, ?listed⟩
    case failed => exact outcome_of_unloadable ha hsource
    case loaded =>
      intro hloads
      have hdrawn := drawn_overridden config hloads
      rw [hmeets.overrides_eq] at hdrawn
      exact ⟨hdrawn, outcome_of_loadable ha hsource hloads⟩
    case listed =>
      intro directory names chosen hsource hnames hchosen hsorted hne listed
      obtain ⟨r, said, said', v, houtcome, hlisted⟩ :=
        outcome_of_directory ha hsource hnames hchosen hsorted hne
      rw [houtcome, hlisted]
      exact ⟨rfl, rfl⟩

end

/-- A tree with a directory of files that hold this of some scenes: two of one name, one that
reaches too far, and one behind it. There is also a file that is no scene. -/
def sky (text : Scene → ByteArray) : FileTree where
  here := ["work"]
  entries := (["work"], .directory) :: (["work", "scenes"], .directory) ::
    [("d.json", text hill), ("b.json", text day), ("notes.txt", .empty), ("a.json", text night),
      ("c.json", text flood)].map fun (name, bytes) =>
        (["work", "scenes", name], .file (.bytes bytes))
where
  night : Scene := ⟨"moon", 1, 1, .gray8, .upright, 0, []⟩
  day : Scene := ⟨"moon", 1, 1, .gray8, .upright, 255, []⟩
  flood : Scene :=
    ⟨"sea", 1, 1, .gray8, .upright, 9, [.fillRect ⟨1, 0, 0xffff_ffff_ffff_ffff, 1⟩ 0]⟩
  hill : Scene := ⟨"hill", 1, 1, .gray8, .upright, 3, []⟩

namespace sky

/-- What is in the files of scenes. -/
def asJson (s : Scene) : ByteArray := (s.toString .json).toUTF8

/-- The path of a file among the scenes. -/
def path (name : String) : Path := (Path.ofString "scenes").join (.ofString name)

def arguments (names : List String) : Arguments where
  scenes := names.map path
  all := false
  scenesDirectory := some (.ofString "scenes")
  outDirectory := some (.ofString "out")
  format := some .rgb24
  rotation := none
  logDirectory := none

def config (names : List String) : Config where
  source := .files (names.map path)
  outDirectory := .ofString "out"
  overrides := ⟨some .rgb24, none⟩
  logDirectory := none

/-- A scene as it is rendered. -/
def drawn (s : Scene) : Scene := s.override ⟨some .rgb24, none⟩

theorem load : (sky asJson).load (path "a.json") = .ok night ∧
    (sky asJson).load (path "b.json") = .ok day ∧ (sky asJson).load (path "c.json") = .ok flood ∧
    (sky asJson).load (path "d.json") = .ok hill := by
  have hread (text : Scene → ByteArray) :
      (sky text).read (path "a.json") = .ok (text night) ∧
      (sky text).read (path "b.json") = .ok (text day) ∧
      (sky text).read (path "c.json") = .ok (text flood) ∧
      (sky text).read (path "d.json") = .ok (text hill) := ⟨rfl, rfl, rfl, rfl⟩
  obtain ⟨ha, hb, hc, hd⟩ := hread asJson
  exact ⟨load_of_read (by decide) (by decide) ha, load_of_read (by decide) (by decide) hb,
    load_of_read (by decide) (by decide) hc, load_of_read (by decide) (by decide) hd⟩

theorem drawn_eq (names : List String) (scenes : List Scene)
    (h : names.map (fun name => (sky asJson).load (path name)) = scenes.map .ok) :
    (config names).drawn (((config names).started (sky asJson)).loaded (names.map path)) =
      scenes.map drawn := by
  show (config names).drawn ((sky asJson).loaded (names.map path)) = _
  induction names generalizing scenes with
  | nil =>
      cases scenes with
      | nil => rfl
      | cons s scenes => cases h
  | cons name names ih =>
      cases scenes with
      | nil => cases h
      | cons s scenes =>
          obtain ⟨hname, hrest⟩ := List.cons.inj h
          rw [List.map_cons, loaded_cons hname]
          exact congrArg (drawn s :: ·) (ih scenes hrest)

theorem accepts (text : Scene → ByteArray) : ∀ s ∈ [night, day, flood, hill].map drawn,
    (sky text).Accepts ((Path.ofString "out").join (.ofString (s.name ++ ".png"))) := by
  have hmoon : (sky text).Accepts ((Path.ofString "out").join (.ofString ("moon" ++ ".png"))) :=
    ⟨_, _, rfl, rfl, fun _ => ⟨_, rfl⟩⟩
  have hsea : (sky text).Accepts ((Path.ofString "out").join (.ofString ("sea" ++ ".png"))) :=
    ⟨_, _, rfl, rfl, fun _ => ⟨_, rfl⟩⟩
  have hhill : (sky text).Accepts ((Path.ofString "out").join (.ofString ("hill" ++ ".png"))) :=
    ⟨_, _, rfl, rfl, fun _ => ⟨_, rfl⟩⟩
  simp only [List.map_cons, List.map_nil, List.forall_mem_cons]
  exact ⟨hmoon, hmoon, hsea, hhill, nofun⟩

end sky

/-- Of the scenes of one name the second one is left, in the format that the arguments give, and the
one behind the refused one is not rendered. A missing file keeps all from being rendered, and the
whole directory is rendered as its files are. -/
theorem run_leaves_sky :
    let outcome (a : Arguments) := a.outcome (sky sky.asJson)
    let files := sky.arguments ["a.json", "b.json", "c.json", "d.json"]
    let missing := sky.arguments ["a.json", "e.json", "d.json"]
    ((outcome files).exitCode = 1 ∧ ∃ l image, { sky.day with format := .rgb24 }.Shows image ∧
      (outcome files).files.find (.ofString "out/moon.png") = .ok (l, .file (.image image))) ∧
    ((outcome missing).exitCode = 1 ∧ (outcome missing).files = sky sky.asJson) ∧
    ((outcome { files with scenes := [], all := true }).ended = (outcome files).ended ∧
      (outcome { files with scenes := [], all := true }).files = (outcome files).files) := by
  intro outcome files missing
  obtain ⟨ha, hb, hc, hd⟩ := sky.load
  have hmissing (text : Scene → ByteArray) : (sky text).load (sky.path "e.json") =
      .error (.unreadable (sky.path "e.json") .missing) := rfl
  have hnotes (text : Scene → ByteArray) : (sky text).load (sky.path "notes.txt") =
      .error (.unknownExtension (sky.path "notes.txt")) := rfl
  refine ⟨?_, ?_, ?_⟩
  · obtain ⟨-, -, hfiles, -⟩ := (run_leaves files (sky sky.asJson)).2 (sky.config _) rfl
    have hloads : ∀ p ∈ files.scenes, ∃ s, (sky sky.asJson).load p = .ok s := by
      simp [files, sky.arguments, ha, hb, hc, hd]
    have hdrawn : _ = [sky.night, sky.day, sky.flood, sky.hill].map sky.drawn :=
      sky.drawn_eq ["a.json", "b.json", "c.json", "d.json"] _ (by simp [ha, hb, hc, hd])
    have hregular : ∀ s ∈ [sky.night, sky.day, sky.flood, sky.hill].map sky.drawn, s.Regular := by
      decide +kernel
    have hbefore : ([sky.night, sky.day, sky.flood, sky.hill].map sky.drawn).takeWhile
        (·.render.isOk) = [sky.drawn sky.night, sky.drawn sky.day] := by decide +kernel
    have hrefused : ([sky.night, sky.day, sky.flood, sky.hill].map sky.drawn).all
        (·.render.isOk) = false := by decide +kernel
    have hrun := ((hfiles _ rfl).2 hloads).2
    rw [hdrawn] at hrun
    obtain ⟨⟨m, hleaves⟩, hcode⟩ := hrun fun s hs => ⟨hregular s hs, sky.accepts _ s hs⟩
    rw [hbefore] at hleaves
    rw [hrefused] at hcode
    obtain ⟨image, hshows, hfind⟩ := hleaves.shows [sky.drawn sky.night] _ [] rfl nofun
    exact ⟨hcode, _, image, hshows, hfind⟩
  · obtain ⟨-, -, hfiles, -⟩ := (run_leaves missing (sky sky.asJson)).2 (sky.config _) rfl
    refine (hfiles _ rfl).1 ⟨sky.path "e.json", by simp, fun s => ?_⟩
    show (sky sky.asJson).load _ ≠ _
    rw [hmissing]
    nofun
  · let whole : Arguments := { files with scenes := [], all := true }
    obtain ⟨-, -, -, hwhole⟩ := (run_leaves whole (sky sky.asJson)).2 _ rfl
    have hnames (text : Scene → ByteArray) : (sky text).names (.ofString "scenes") =
      .ok ["d.json", "b.json", "notes.txt", "a.json", "c.json"] := rfl
    have hchosen : ["d.json", "b.json", "notes.txt", "a.json", "c.json"].filter
        (fun name => ((sky sky.asJson).load (sky.path name)).isOk) =
          ["d.json", "b.json", "a.json", "c.json"] := by
      simp [ha, hb, hc, hd, hnotes, Except.isOk, Except.toBool]
    have hrun := hwhole (.ofString "scenes") _ ["a.json", "b.json", "c.json", "d.json"] rfl
      (hnames _)
      (by
        show List.Perm _ (List.filter (fun name => ((sky sky.asJson).load (sky.path name)).isOk) _)
        rw [hchosen]
        decide)
      (by decide) nofun
    have hlisted : { whole with
      all := false
      scenes := ["a.json", "b.json", "c.json", "d.json"].map fun name =>
        (Path.ofString "scenes").join (.ofString name) } = files := rfl
    dsimp only at hrun
    rw [hlisted] at hrun
    exact hrun

end Command

end Raster
