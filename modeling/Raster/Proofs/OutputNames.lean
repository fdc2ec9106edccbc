import Mathlib.Data.List.Forall2
import Mathlib.Data.List.Nodup
import Mathlib.Data.List.Perm.Subperm
import Raster.Proofs.RunOutcome

/-!
# Outputs and the names of scenes

An output is named by its scene and not by the file that the scene is loaded from. So a run
reports each scene as saved, but leaves no more outputs than there are names.
-/

namespace Raster

/-- Every scene has a file of its own that shows it. -/
def FileTree.ShowsEach (t : FileTree) (scenes : List Scene) : Prop :=
  ∃ places : List Location, places.Nodup ∧
    List.Forall₂ (fun s l => ∃ image, s.Shows image ∧ t.get? l = some (.file (.image image)))
      scenes places

namespace Command

section

variable {a : Arguments} {config : Config} {t : FileTree}

/-- The scenes of a run, as they are rendered. -/
def Config.rendered (config : Config) (t : FileTree) : List Scene :=
  config.drawn ((config.started t).loaded (config.source.paths (config.started t)))

theorem exitCode_eq_zero {o : Outcome} : o.exitCode = 0 ↔ o.ended = .ok () := by
  rw [Outcome.exitCode]
  cases o.ended with
  | ok _ => exact iff_of_true rfl rfl
  | error e => cases e <;> simp [RunError.exitCode]

theorem savesAll_of_exitCode (ha : a.config = .ok config) (hexit : (a.outcome t).exitCode = 0)
    (hnames : ∀ s ∈ config.rendered t, '/' ∉ s.name.toList) :
    SavesAll config (config.rendered t) (config.started t) (a.outcome t).files := by
  rw [exitCode_eq_zero] at hexit
  obtain ⟨loads, said, hload, hscenes⟩ :=
    exists_gives_loadScenes config.source (config.started t)
  cases loads with
  | error e =>
      obtain ⟨said', houtcome⟩ := outcome_of_load_error ha hload
      rw [houtcome] at hexit
      cases hexit
  | ok scenes =>
      obtain rfl := hscenes scenes rfl
      obtain ⟨r, said', v, hall, hsaved⟩ := exists_gives_renderAll config
        ((config.started t).loaded (config.source.paths (config.started t))) (config.started t)
      obtain ⟨said'', houtcome⟩ := outcome_of_loaded ha hload hall
      rw [houtcome] at hexit ⊢
      exact hsaved hexit hnames

variable {scenes : List Scene} {v : FileTree} {m : Location}

theorem Leaves.find_of_nodup (h : Leaves config scenes t v m)
    (hdistinct : (scenes.map Scene.name).Nodup) {s : Scene} (hs : s ∈ scenes) :
    ∃ image, s.Shows image ∧
      v.find (config.output s.name) = .ok (m ++ [s.name ++ ".png"], .file (.image image)) := by
  obtain ⟨front, back, rfl⟩ := List.append_of_mem hs
  refine h.shows front s back rfl fun s' hs' => ?_
  rw [List.map_append, List.map_cons, List.nodup_append, List.nodup_cons] at hdistinct
  exact fun heq => hdistinct.2.1.1 (heq ▸ List.mem_map_of_mem hs')

theorem get?_of_find {p : Path} {l : Location} {e : Entry} (h : t.find p = .ok (l, e)) :
    t.get? l = some e := by
  rw [FileTree.find] at h
  cases hlocate : t.locate p with
  | error e => rw [hlocate] at h; cases h
  | ok k =>
      rw [hlocate] at h
      simp only [bind, Except.bind] at h
      split at h
      · cases h
        assumption
      · cases h

theorem Leaves.showsEach (h : Leaves config scenes t v m)
    (hdistinct : (scenes.map Scene.name).Nodup) : v.ShowsEach scenes := by
  refine ⟨(scenes.map Scene.name).map fun name => m ++ [name ++ ".png"], ?_, ?_⟩
  · exact hdistinct.map fun name name' heq => by simpa using heq
  · rw [List.map_map, List.forall₂_map_right_iff, List.forall₂_same]
    intro s hs
    obtain ⟨image, hshows, hfind⟩ := h.find_of_nodup hdistinct hs
    exact ⟨image, hshows, get?_of_find hfind⟩

theorem Leaves.nodup_of_showsEach (h : Leaves config scenes t v m)
    (hclean : ∀ l image, t.get? l ≠ some (.file (.image image))) (heach : v.ShowsEach scenes) :
    (scenes.map Scene.name).Nodup := by
  obtain ⟨places, hplaces, hshow⟩ := heach
  obtain ⟨hlength, hget⟩ := List.forall₂_iff_get.mp hshow
  have hsub : places ⊆ (scenes.map Scene.name).map fun name => m ++ [name ++ ".png"] := by
    intro l hl
    obtain ⟨i, hi⟩ := List.get_of_mem hl
    obtain ⟨image, -, himage⟩ := hget i (by rw [hlength]; exact i.isLt) i.isLt
    rw [hi] at himage
    by_contra hnone
    have hother : ∀ s ∈ scenes, l ≠ m ++ [s.name ++ ".png"] := by
      rintro s hs rfl
      exact hnone (by simpa using ⟨s, hs, rfl⟩)
    exact hclean l image ((h.others l hother).get?_file himage)
  have hperm := (hplaces.subperm hsub).perm_of_length_le (by simp [hlength])
  exact (hperm.nodup_iff.mp hplaces).of_map _

end

namespace sky

theorem rendered_eq (names : List String) (scenes : List Scene)
    (h : names.map (fun name => (sky asJson).load (path name)) = scenes.map .ok) :
    (config names).rendered (sky asJson) = scenes.map drawn :=
  drawn_eq names scenes h

theorem get?_ne_image (text : Scene → ByteArray) (l : Location) (image : Image) :
    (sky text).get? l ≠ some (.file (.image image)) := by
  intro h
  rw [FileTree.get?] at h
  split at h
  · cases h
  · have hmem := mem_of_lookup h
    simp [sky] at hmem

theorem exitCode_eq_zero {names : List String} {scenes : List Scene}
    (h : names.map (fun name => (sky asJson).load (path name)) = scenes.map .ok)
    (hne : names ≠ []) (hsub : scenes ⊆ [night, day, hill]) :
    ((arguments names).outcome (sky asJson)).exitCode = 0 := by
  have hregular : ∀ s ∈ [night, day, hill].map drawn, s.Regular ∧ s.render.isOk = true := by
    decide +kernel
  have hdrawn : ∀ s ∈ scenes.map drawn, s ∈ [night, day, hill].map drawn :=
    List.map_subset drawn hsub
  have hconfig : (arguments names).config = .ok (config names) := by
    cases names with
    | nil => exact absurd rfl hne
    | cons name names => rfl
  have hloads : ∀ p ∈ names.map path,
      ∃ s, ((config names).started (sky asJson)).load p = .ok s := by
    intro p hp
    obtain ⟨name, hname, rfl⟩ := List.mem_map.mp hp
    have hmem := List.mem_map_of_mem (f := fun name => (sky asJson).load (path name)) hname
    rw [h] at hmem
    obtain ⟨s, -, hs⟩ := List.mem_map.mp hmem
    exact ⟨s, hs.symm⟩
  have hcode := (outcome_of_loadable hconfig rfl hloads (by
    rw [drawn_eq names scenes h]
    intro s hs
    refine ⟨(hregular s (hdrawn s hs)).1, accepts _ s ?_⟩
    exact List.map_subset drawn (by decide) (hdrawn s hs))).2
  rw [drawn_eq names scenes h, if_pos] at hcode
  · exact hcode
  · exact List.all_eq_true.mpr fun s hs => (hregular s (hdrawn s hs)).2

end sky

/-- A run that ends without an error leaves an output of its own for every scene, under the
scene's name, if the names are distinct; and only if they are, unless there were images before. -/
theorem outputs_of_names (a : Arguments) (t : FileTree) (config : Config)
    (ha : a.config = .ok config) (hexit : (a.outcome t).exitCode = 0)
    (hnames : ∀ s ∈ config.rendered t, '/' ∉ s.name.toList) :
    (((config.rendered t).map Scene.name).Nodup →
      (a.outcome t).files.ShowsEach (config.rendered t) ∧
      ∀ s ∈ config.rendered t, ∃ l image, s.Shows image ∧
        (a.outcome t).files.find (config.output s.name) = .ok (l, .file (.image image))) ∧
    ((∀ l image, t.get? l ≠ some (.file (.image image))) →
      (a.outcome t).files.ShowsEach (config.rendered t) →
      ((config.rendered t).map Scene.name).Nodup) := by
  obtain ⟨m, hleaves⟩ := (savesAll_of_exitCode ha hexit hnames).leaves hnames
  refine ⟨fun hdistinct => ⟨hleaves.showsEach hdistinct, fun s hs => ?_⟩, fun hclean => ?_⟩
  · obtain ⟨image, hshows, hfind⟩ := hleaves.find_of_nodup hdistinct hs
    exact ⟨_, image, hshows, hfind⟩
  · refine hleaves.nodup_of_showsEach fun l image himage => ?_
    obtain hkept | hnew := started_kept config t l
    · exact hclean l image (hkept.get?_file himage)
    · rw [hnew] at himage
      cases himage

/-- Two scenes with names of their own. -/
theorem outputs_of_names_sky :
    let o := (sky.arguments ["a.json", "d.json"]).outcome (sky sky.asJson)
    o.exitCode = 0 ∧ o.files.ShowsEach [sky.drawn sky.night, sky.drawn sky.hill] ∧
      ∃ l image, (sky.drawn sky.night).Shows image ∧
        o.files.find (.ofString "out/moon.png") = .ok (l, .file (.image image)) := by
  intro o
  obtain ⟨ha, -, -, hd⟩ := sky.load
  have hloads : ["a.json", "d.json"].map (fun name => (sky sky.asJson).load (sky.path name)) =
      [sky.night, sky.hill].map .ok := by simp [ha, hd]
  have hexit := sky.exitCode_eq_zero hloads (List.cons_ne_nil _ _) (by decide)
  have hrun := outputs_of_names (sky.arguments ["a.json", "d.json"]) (sky sky.asJson)
    (sky.config ["a.json", "d.json"]) rfl hexit
  rw [sky.rendered_eq _ _ hloads] at hrun
  obtain ⟨heach, hfind⟩ := (hrun (by decide)).1 (by decide)
  exact ⟨hexit, heach, hfind (sky.drawn sky.night) List.mem_cons_self⟩

/-- Of two scenes of one name, the run reports both as saved and leaves one. -/
theorem not_all_outputs_left :
    ¬ ∀ (a : Arguments) (t : FileTree) (config : Config), a.config = .ok config →
      (a.outcome t).exitCode = 0 → (∀ s ∈ config.rendered t, s.Regular) →
      (a.outcome t).files.ShowsEach (config.rendered t) := by
  intro h
  obtain ⟨ha, hb, -⟩ := sky.load
  have hloads : ["a.json", "b.json"].map (fun name => (sky sky.asJson).load (sky.path name)) =
      [sky.night, sky.day].map .ok := by simp [ha, hb]
  have hrendered := sky.rendered_eq _ _ hloads
  have hexit := sky.exitCode_eq_zero hloads (List.cons_ne_nil _ _) (by decide)
  have heach := h (sky.arguments ["a.json", "b.json"]) (sky sky.asJson)
    (sky.config ["a.json", "b.json"]) rfl hexit (by rw [hrendered]; decide +kernel)
  have hconfig : (sky.arguments ["a.json", "b.json"]).config =
      .ok (sky.config ["a.json", "b.json"]) := rfl
  have hsaves := savesAll_of_exitCode hconfig hexit (by rw [hrendered]; decide)
  obtain ⟨m, hleaves⟩ := hsaves.leaves (by rw [hrendered]; decide)
  have hdistinct := hleaves.nodup_of_showsEach (sky.get?_ne_image _) heach
  rw [hrendered] at hdistinct
  exact absurd hdistinct (by decide)

end Command

end Raster
