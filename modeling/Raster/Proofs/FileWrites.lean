import Raster.Files.Tree

/-!
# Directories that are made and files that are written

A path is followed over directories, so whatever keeps these keeps where paths lead. Making a
directory adds directories where nothing was; writing a file changes one location.
-/

namespace Raster

namespace Path

/-! ### The files of a directory -/

/-- A name that is one step of a path, into what it names. -/
structure IsStep (name : String) : Prop where
  slash : '/' ∉ name.toList
  idle : isIdle name = false
  upward : name ≠ ".."

/-- The way to the files of a directory. -/
def steps (p : Path) : List String :=
  if p.segments.getLast? == some "" then p.segments.dropLast else p.segments

/-- The directory in which the files of a directory are, as `parent?` writes it. -/
def folder (p : Path) : Path :=
  match trimEnd p.steps with
  | [] => if !p.absolute && p.steps.head? == some "." then ⟨false, ["."]⟩ else ⟨p.absolute, [""]⟩
  | rest => ⟨p.absolute, rest⟩

variable {p : Path} {name : String}

theorem isStep_append_extension (h : '/' ∉ name.toList) : IsStep (name ++ ".png") := by
  have hlength : 4 ≤ (name ++ ".png").length := by
    rw [String.length_append]
    exact Nat.le_add_left 4 name.length
  have hne {s : String} (hs : s.length < 4) : name ++ ".png" ≠ s := by
    rintro rfl
    omega
  refine ⟨?_, ?_, hne (by decide)⟩
  · rw [String.toList_append, List.mem_append, not_or]
    exact ⟨h, by decide⟩
  · rw [isIdle, Bool.or_eq_false_iff, beq_eq_false_iff_ne, beq_eq_false_iff_ne]
    exact ⟨hne (by decide), hne (by decide)⟩

theorem join_ofString (h : IsStep name) :
    p.join (.ofString name) = ⟨p.absolute, p.steps ++ [name]⟩ := by
  have hof : ofString name = ⟨false, [name]⟩ := by
    rw [ofString]
    split
    case h_1 cs hcs => exact absurd (hcs ▸ List.mem_cons_self) h.slash
    case h_2 => rw [split_eq_singleton h.slash, List.map_singleton, String.ofList_toList]
  rw [hof, join, if_neg (by simp)]
  rfl

theorem trimEnd_concat (segments : List String) (h : isIdle name = false) :
    trimEnd (segments ++ [name]) = segments ++ [name] := by
  rw [trimEnd, List.reverse_concat, List.dropWhile_cons_of_neg (by simp [h]), ← List.reverse_concat,
    List.reverse_reverse]

theorem parent?_join_ofString (h : IsStep name) :
    (p.join (.ofString name)).parent? = some p.folder := by
  have hdot : name ≠ "." := fun e => by simpa [e, isIdle] using h.idle
  have hhead : ((p.steps ++ [name]).head? == some ".") = (p.steps.head? == some ".") := by
    cases p.steps with
    | nil => simpa using hdot
    | cons segment segments => rfl
  rw [join_ofString h, parent?]
  simp only [trimEnd_concat _ h.idle, folder]
  split
  case h_1 hnil => simp at hnil
  case h_2 =>
    rw [List.dropLast_concat, hhead]
    cases trimEnd p.steps with
    | nil => exact (apply_ite some _ _ _).symm
    | cons segment segments => rfl

theorem extension?_join (hne : name ≠ "")
    (hslash : '/' ∉ name.toList) :
    (p.join (.ofString (name ++ ".png"))).extension?.isSome = true := by
  have hstep := isStep_append_extension hslash
  have hname : (p.join (.ofString (name ++ ".png"))).fileName? = some (name ++ ".png") := by
    rw [join_ofString hstep, fileName?, trimEnd_concat _ hstep.idle, List.getLast?_concat]
    simp [hstep.upward]
  have hpng : ".png".toList.reverse = ['g', 'n', 'p', '.'] := by decide
  have hdrop : (name ++ ".png").toList.reverse.dropWhile (· != '.') =
      '.' :: name.toList.reverse := by
    rw [String.toList_append, List.reverse_append, hpng]
    rfl
  obtain ⟨c, cs, hcs⟩ := List.exists_cons_of_ne_nil
    (List.reverse_ne_nil_iff.mpr (mt String.toList_eq_nil_iff.mp hne))
  rw [extension?, hname]
  simp only [Option.bind_eq_bind, Option.bind_some, hdrop, hcs]
  rfl

end Path

namespace FileTree

variable {t u v : FileTree} {k l m : Location} {p : Path} {name : String} {c : Content}
  {segments : List String}

/-! ### Following a path -/

theorem follow_append (k : Location) (front back : List String) :
    t.follow k (front ++ back) = (t.follow k front).bind fun l => t.follow l back := by
  induction front generalizing k with
  | nil => rfl
  | cons segment front ih =>
      rw [List.cons_append, follow, follow]
      split
      · rfl
      · rfl
      · split
        · exact ih _
        · split <;> exact ih _

/-- The first tree's directories are directories of the second. -/
structure Keeps (t u : FileTree) : Prop where
  here_eq : u.here = t.here
  directory : ∀ {l}, t.get? l = some .directory → u.get? l = some .directory

theorem Keeps.refl (t : FileTree) : t.Keeps t := ⟨rfl, id⟩

theorem Keeps.trans (h : t.Keeps u) (h' : u.Keeps v) : t.Keeps v :=
  ⟨h'.here_eq.trans h.here_eq, fun hl => h'.directory (h.directory hl)⟩

theorem Keeps.follow (h : t.Keeps u) (hl : t.follow k segments = .ok l) :
    u.follow k segments = .ok l := by
  induction segments generalizing k with
  | nil => exact hl
  | cons segment segments ih =>
      rw [FileTree.follow] at hl ⊢
      split at hl
      · cases hl
      · cases hl
      · rw [h.directory ‹_›]
        dsimp only
        split
        · rw [if_pos ‹_›] at hl
          exact ih hl
        · rw [if_neg ‹_›] at hl
          split
          · rw [if_pos ‹_›] at hl
            exact ih hl
          · rw [if_neg ‹_›] at hl
            exact ih hl

theorem Keeps.locate (h : t.Keeps u) (hl : t.locate p = .ok l) : u.locate p = .ok l := by
  rw [FileTree.locate] at hl ⊢
  split
  · rw [if_pos ‹_›] at hl
    cases hl
  · rw [if_neg ‹_›] at hl
    rw [h.here_eq]
    exact h.follow hl

/-- Where a path starts. -/
def start (t : FileTree) (p : Path) : Location := if p.absolute then [] else t.here

theorem Keeps.start_eq (h : t.Keeps u) (p : Path) : u.start p = t.start p := by
  rw [start, start, h.here_eq]

theorem locate_eq (h : p.segments ≠ [""] ∨ p.absolute = true) :
    t.locate p = t.follow (t.start p) p.segments := by
  rw [locate, if_neg]
  · rfl
  · obtain h | h := h <;> simp [h]

/-- Empty segments lead nowhere, and are passed over in directories only. -/
theorem follow_blank {blank : List String} (hblank : ∀ s ∈ blank, s = "") :
    (t.follow k blank = .ok l → l = k) ∧
      (t.get? k = some .directory → t.follow k blank = .ok k) := by
  induction blank with
  | nil => exact ⟨fun h => (Except.ok.inj h).symm, fun _ => rfl⟩
  | cons segment blank ih =>
      obtain rfl := hblank segment List.mem_cons_self
      obtain ⟨hstay, hpass⟩ := ih fun s hs => hblank s (List.mem_cons_of_mem _ hs)
      rw [follow]
      refine ⟨fun h => ?_, fun h => ?_⟩
      · split at h
        · cases h
        · cases h
        · exact hstay (by simpa [Path.isIdle] using h)
      · simpa [h, Path.isIdle] using hpass h

/-! ### Making directories -/

theorem exists_blank (p : Path) :
    ∃ blank : List String, (∀ s ∈ blank, s = "") ∧ p.segments = (bare p).segments ++ blank := by
  refine ⟨(p.segments.reverse.takeWhile (· == "")).reverse, fun s hs => ?_, ?_⟩
  · rw [List.mem_reverse] at hs
    exact beq_iff_eq.mp (List.all_eq_true.mp List.all_takeWhile s hs)
  · rw [bare, ← List.reverse_append, List.takeWhile_append_dropWhile, List.reverse_reverse]

theorem locate_bare (t : FileTree) (p : Path) :
    t.locate (bare p) = t.follow (t.start p) (bare p).segments := by
  refine locate_eq (.inl fun h => ?_)
  have hlast := congrArg List.reverse h
  rw [bare, List.reverse_reverse] at hlast
  have hhead := List.head?_dropWhile_not (· == "") p.segments.reverse
  rw [hlast] at hhead
  simp at hhead

theorem isDirectory_iff : t.isDirectory p = true ↔
    ∃ l, t.locate p = .ok l ∧ t.get? l = some .directory := by
  rw [isDirectory, find]
  cases hlocate : t.locate p with
  | error e => simp [bind, Except.bind]
  | ok l =>
      simp only [bind, Except.bind, Except.ok.injEq, exists_eq_left']
      cases t.get? l with
      | none => simp [throw, throwThe, MonadExceptOf.throw]
      | some e => cases e <;> simp [pure, Except.pure]

theorem eq_put_of_makeOne (h : t.makeOne p = .ok u) :
    ∃ l, t.locate (bare p) = .ok l ∧ t.get? l = none ∧ u = t.put l .directory := by
  rw [makeOne] at h
  cases hlocate : t.locate (bare p) with
  | error e => rw [hlocate] at h; cases h
  | ok l =>
      simp only [hlocate, bind, Except.bind] at h
      split at h
      · cases h
      · rename_i hfree
        rw [Bool.or_eq_true] at hfree
        cases h
        exact ⟨l, rfl, by simpa using (not_or.mp hfree).2, rfl⟩

theorem makeOne_of_isDirectory (h : t.isDirectory p = true) : t.makeOne p = .error .present := by
  obtain ⟨l, hlocate, hl⟩ := isDirectory_iff.mp h
  obtain ⟨blank, hblank, hsegments⟩ := exists_blank p
  rw [locate] at hlocate
  split at hlocate
  case isTrue => cases hlocate
  case isFalse =>
    change t.follow (t.start p) p.segments = _ at hlocate
    rw [hsegments, follow_append] at hlocate
    cases hbare : t.follow (t.start p) (bare p).segments with
    | error e => rw [hbare] at hlocate; cases hlocate
    | ok k =>
        rw [hbare] at hlocate
        obtain rfl := (follow_blank hblank).1 hlocate
        rw [makeOne, locate_bare, hbare]
        simp [bind, Except.bind, hl, throw, throwThe, MonadExceptOf.throw]

theorem makeDirectory_of_isDirectory (h : t.isDirectory p = true) : t.makeDirectory p = .ok t := by
  rw [makeDirectory, ensure, makeOne_of_isDirectory h]
  simp [ensureOne, makeOne_of_isDirectory h, h, pure, Except.pure]

/-- What is at the location stays, but for a directory where nothing was. -/
def KeptAt (t u : FileTree) (l : Location) : Prop :=
  u.get? l = t.get? l ∨ t.get? l = none ∧ u.get? l = some .directory

theorem KeptAt.trans (h : t.KeptAt u l) (h' : u.KeptAt v l) : t.KeptAt v l := by
  obtain hl | ⟨hnone, hnew⟩ := h
  · rw [KeptAt, ← hl]
    exact h'
  · obtain hl' | ⟨hnone', -⟩ := h'
    · exact .inr ⟨hnone, hl'.trans hnew⟩
    · rw [hnew] at hnone'
      cases hnone'

theorem KeptAt.get?_eq (h : t.KeptAt u l) (hl : t.get? l ≠ none) : u.get? l = t.get? l :=
  h.resolve_right fun hnone => hl hnone.1

theorem KeptAt.get?_file (h : t.KeptAt u l) (hl : u.get? l = some (.file c)) :
    t.get? l = some (.file c) := by
  obtain hsame | ⟨-, hnew⟩ := h
  · exact hsame.symm.trans hl
  · rw [hnew] at hl
    cases hl

/-- Directories are all that is new in the second tree. -/
structure Extends (t u : FileTree) : Prop where
  here_eq : u.here = t.here
  kept : ∀ l, t.KeptAt u l

theorem Extends.refl (t : FileTree) : t.Extends t := ⟨rfl, fun _ => .inl rfl⟩

theorem Extends.trans (h : t.Extends u) (h' : u.Extends v) : t.Extends v :=
  ⟨h'.here_eq.trans h.here_eq, fun l => (h.kept l).trans (h'.kept l)⟩

theorem Extends.keeps (h : t.Extends u) : t.Keeps u := by
  refine ⟨h.here_eq, fun {l} hl => ?_⟩
  obtain heq | ⟨-, hnew⟩ := h.kept l
  · exact heq.trans hl
  · exact hnew

theorem extends_put_directory (hl : t.get? l = none) : t.Extends (t.put l .directory) := by
  have hroot : l ≠ [] := by
    rintro rfl
    cases hl
  refine ⟨rfl, fun k => ?_⟩
  rw [KeptAt, get?_put t hroot]
  split
  · exact .inr ⟨by rwa [‹k = l›], rfl⟩
  · exact .inl rfl

theorem extends_of_ensureOne (h : t.ensureOne p = .ok u) : t.Extends u := by
  rw [ensureOne] at h
  split at h
  · split at h
    · cases h
      exact .refl t
    · cases h
  · obtain ⟨l, -, hl, rfl⟩ := eq_put_of_makeOne h
    exact extends_put_directory hl

/-- Only directories are made, whichever of those on the way are missing. -/
theorem extends_of_ensure {n : Nat} (h : t.ensure p n = .ok u) : t.Extends u := by
  induction n generalizing p u with
  | zero => cases h
  | succ n ih =>
      rw [ensure] at h
      split at h
      · cases h
        exact .refl t
      · split at h
        · rename_i parent _ _
          cases hparent : t.ensure parent n with
          | error e => rw [hparent] at h; cases h
          | ok v =>
              rw [hparent] at h
              exact (ih hparent).trans (extends_of_ensureOne h)
        · exact extends_of_ensureOne h

theorem extends_of_makeDirectory (h : t.makeDirectory p = .ok u) : t.Extends u :=
  extends_of_ensure h

theorem isDirectory_of_ensureOne (hp : p.segments ≠ [""] ∨ p.absolute = true)
    (h : t.ensureOne p = .ok u) : u.isDirectory p = true := by
  have hextends := extends_of_ensureOne h
  rw [ensureOne] at h
  split at h
  · split at h
    · cases h
      assumption
    · cases h
  · obtain ⟨l, hlocate, hl, rfl⟩ := eq_put_of_makeOne h
    obtain ⟨blank, hblank, hsegments⟩ := exists_blank p
    have hroot : l ≠ [] := by
      rintro rfl
      cases hl
    have hget : (t.put l .directory).get? l = some .directory := by
      rw [get?_put t hroot, if_pos rfl]
    rw [locate_bare] at hlocate
    refine isDirectory_iff.mpr ⟨l, ?_, hget⟩
    rw [locate_eq hp, hextends.keeps.start_eq, hsegments, follow_append,
      hextends.keeps.follow hlocate]
    exact (follow_blank (l := l) hblank).2 hget

/-- A directory that was made is not made again, however many files were written since. -/
theorem makeDirectory_again (h : t.makeDirectory p = .ok u) (hkeeps : u.Keeps v) :
    v.makeDirectory p = .ok v := by
  by_cases hp : p.segments ≠ [""] ∨ p.absolute = true
  · refine makeDirectory_of_isDirectory ?_
    have hmade : u.isDirectory p = true := by
      rw [makeDirectory, ensure, if_neg (by obtain hp | hp := hp <;> simp [hp])] at h
      split at h
      · rename_i parent _ _
        cases hparent : t.ensure parent p.segments.length with
        | error e => rw [hparent] at h; cases h
        | ok w =>
            rw [hparent] at h
            exact isDirectory_of_ensureOne hp h
      · exact isDirectory_of_ensureOne hp h
    obtain ⟨l, hlocate, hl⟩ := isDirectory_iff.mp hmade
    exact isDirectory_iff.mpr ⟨l, hkeeps.locate hlocate, hkeeps.directory hl⟩
  · rw [makeDirectory, ensure, if_pos (by simpa [and_comm] using hp)]
    rfl

/-! ### Writing files -/

theorem keeps_put_file (hl : l ≠ []) (hfile : t.get? l ≠ some .directory) :
    t.Keeps (t.put l (.file c)) := by
  refine ⟨rfl, fun {k} hk => ?_⟩
  rw [get?_put t hl, if_neg]
  · exact hk
  · rintro rfl
    exact hfile hk

theorem eq_put_of_write {p : Path} {c : Content} {t' : FileTree} (h : t.write p c = .ok t') :
    ∃ l, t.locate p = .ok l ∧ t.get? l ≠ some .directory ∧ t' = t.put l (.file c) := by
  rw [write] at h
  cases hlocate : t.locate (bare p) with
  | error e => rw [hlocate] at h; cases h
  | ok l =>
      simp only [hlocate, bind, Except.bind] at h
      split at h
      · cases h
      · rename_i hfile
        split at h
        · cases h
          rename_i hbare
          exact ⟨l, hbare ▸ hlocate, hfile, rfl⟩
        · cases h

theorem read_write {p : Path} {b : ByteArray} {t' : FileTree} (h : t.write p (.bytes b) = .ok t') :
    t'.read p = .ok b := by
  obtain ⟨l, hlocate, hfile, rfl⟩ := eq_put_of_write h
  have hl : l ≠ [] := by
    rintro rfl
    exact hfile rfl
  have hget : (t.put l (.file (.bytes b))).get? l = some (.file (.bytes b)) := by
    rw [get?_put t hl, if_pos rfl]
  have hfind : (t.put l (.file (.bytes b))).find p = .ok (l, .file (.bytes b)) := by
    simp only [find, (keeps_put_file hl hfile).locate hlocate, bind, Except.bind, hget]
    rfl
  rw [read, hfind]
  rfl

/-- The files of a directory have their names behind this location. -/
structure Opens (t : FileTree) (p : Path) (m : Location) : Prop where
  follow_eq : t.follow (t.start p) p.steps = .ok m
  get?_eq : t.get? m = some .directory

theorem Opens.keep (h : t.Opens p m) (hkeeps : t.Keeps u) : u.Opens p m :=
  ⟨hkeeps.start_eq p ▸ hkeeps.follow h.follow_eq, hkeeps.directory h.get?_eq⟩

theorem Opens.unique (h : t.Opens p m) (h' : t.Opens p l) : l = m := by
  cases h'.follow_eq.symm.trans h.follow_eq
  rfl

theorem locate_join (hname : Path.IsStep name) : t.locate (p.join (.ofString name)) =
    (t.follow (t.start p) p.steps).bind fun m => t.follow m [name] := by
  have hblank : name ≠ "" := fun e => by simpa [e, Path.isIdle] using hname.idle
  rw [Path.join_ofString hname, locate_eq, follow_append]
  · rfl
  · refine .inl fun h => hblank ?_
    have hlast := congrArg List.getLast? h
    rw [List.getLast?_concat] at hlast
    exact Option.some.inj hlast

theorem Opens.locate_eq (h : t.Opens p m) (hname : Path.IsStep name) :
    t.locate (p.join (.ofString name)) = .ok (m ++ [name]) := by
  rw [locate_join hname, h.follow_eq]
  simp [Except.bind, FileTree.follow, h.get?_eq, hname.idle, hname.upward, pure, Except.pure]

theorem opens_of_locate (hname : Path.IsStep name)
    (h : t.locate (p.join (.ofString name)) = .ok l) : ∃ m, t.Opens p m ∧ l = m ++ [name] := by
  rw [locate_join hname] at h
  cases hfollow : t.follow (t.start p) p.steps with
  | error e => rw [hfollow] at h; cases h
  | ok m =>
      rw [hfollow] at h
      simp only [Except.bind, FileTree.follow] at h
      split at h
      · cases h
      · cases h
      · refine ⟨m, ⟨hfollow, ‹_›⟩, ?_⟩
        simpa [hname.idle, hname.upward, pure, Except.pure] using h.symm

theorem bare_join (hname : Path.IsStep name) :
    bare (p.join (.ofString name)) = p.join (.ofString name) := by
  have hblank : name ≠ "" := fun e => by simpa [e, Path.isIdle] using hname.idle
  rw [Path.join_ofString hname, bare]
  simp [hblank]

theorem write_join (hname : Path.IsStep name) : t.write (p.join (.ofString name)) c = .ok u ↔
    ∃ m, t.Opens p m ∧ t.get? (m ++ [name]) ≠ some .directory ∧
      u = t.put (m ++ [name]) (.file c) := by
  constructor
  · intro h
    obtain ⟨l, hlocate, hl, rfl⟩ := eq_put_of_write h
    obtain ⟨m, hopens, rfl⟩ := opens_of_locate hname hlocate
    exact ⟨m, hopens, hl, rfl⟩
  · rintro ⟨m, hopens, hl, rfl⟩
    simp only [write, bare_join hname, hopens.locate_eq hname, bind, Except.bind, if_true]
    rfl

theorem concat_ne_nil : m ++ [name] ≠ [] :=
  List.append_ne_nil_of_right_ne_nil m (List.cons_ne_nil _ _)

end FileTree

end Raster
