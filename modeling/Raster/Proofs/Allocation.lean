import Raster.Proofs.Agreement
import Raster.Scene.Render

/-!
# New surfaces

A surface that is allocated for a view shows zero everywhere, whatever the rotation. Whether it
can be allocated depends on its size alone.
-/

namespace Raster

namespace Rotation

variable (q : Rotation) (w h : Nat)

theorem logicalSize_logicalSize :
    q.logicalSize (q.logicalSize w h).1 (q.logicalSize w h).2 = (w, h) := by
  unfold logicalSize
  cases q.swapsAxes <;> rfl

theorem logicalSize_area (b : Nat) :
    (q.logicalSize w h).1 * b * (q.logicalSize w h).2 = w * b * h := by
  rw [logicalSize]
  cases q.swapsAxes with
  | false => rfl
  | true =>
      show h * b * w = w * b * h
      rw [Nat.mul_comm h b, Nat.mul_comm w b, Nat.mul_right_comm]

theorem logicalSize_pos {w h : Nat} (hw : 0 < w) (hh : 0 < h) :
    0 < (q.logicalSize w h).1 ∧ 0 < (q.logicalSize w h).2 := by
  rw [logicalSize]
  cases q.swapsAxes
  · exact ⟨hw, hh⟩
  · exact ⟨hh, hw⟩

end Rotation

namespace Surface

variable {w h : Nat} {f : PixelFormat}

/-- A surface of this format and size that shows zero everywhere. -/
structure Blank (s : Surface) (w h : Nat) (f : PixelFormat) : Prop where
  usable : s.Usable
  format_eq : s.format = f
  width_eq : s.width = w
  height_eq : s.height = h
  pixel?_eq : ∀ x < w, ∀ y < h, s.pixel? x y = some (.ofBytes f fun _ => 0)

theorem blank_of_zero {s : Surface} (hs : s.Usable) (hf : s.format = f) (hw : s.width = w)
    (hh : s.height = h) (hzero : ∀ i, s.data.getD i 0 = 0) : s.Blank w h f := by
  subst hf hw hh
  refine ⟨hs, rfl, rfl, rfl, fun x hx y hy => ?_⟩
  rw [pixel?_eq_some hs hx hy]
  congr 1
  apply Pixel.ofBytes_congr
  intro k _
  exact hzero _

theorem Blank.agrees {s t : Surface} (hs : s.Blank w h f) (ht : t.Blank w h f) : s.Agrees t := by
  refine agrees_of_points ⟨hs.usable, ht.usable, ht.format_eq.trans hs.format_eq.symm,
    ht.width_eq.trans hs.width_eq.symm, ht.height_eq.trans hs.height_eq.symm⟩ ?_
  intro x hx y hy
  rw [hs.width_eq] at hx
  rw [hs.height_eq] at hy
  rw [hs.pixel?_eq x hx y hy, ht.pixel?_eq x hx y hy]

theorem allocView_ok (hw : 0 < w) (hh : 0 < h) (hsize : w * f.bytes * h < Offset.bound)
    (q : Rotation) : ∃ s, allocView w h f q = .ok s ∧ s.Blank w h f := by
  have hview := q.logicalSize_logicalSize w h
  have harea := q.logicalSize_area w h f.bytes
  obtain ⟨hnw, hnh⟩ := q.logicalSize_pos hw hh
  rw [allocView]
  generalize q.logicalSize w h = size at *
  obtain ⟨nw, nh⟩ := size
  dsimp only at *
  have hline : nw * f.bytes ≤ nw * f.bytes * nh := Nat.le_mul_of_pos_right _ hnh
  have hword := Offset.bound_lt_word
  rw [alloc, if_pos (by omega), dif_pos (by omega)]
  refine ⟨_, rfl, blank_of_zero ⟨hnw, hnh, ?_⟩ rfl ?_ ?_ ?_⟩
  · show nw * f.bytes < Offset.bound
    omega
  · exact congrArg Prod.fst hview
  · exact congrArg Prod.snd hview
  · intro i
    simp only [rotated, Array.getD_eq_getD_getElem?, Array.getElem?_replicate]
    split <;> rfl

theorem allocView_error (hsize : ¬ w * f.bytes * h < Offset.bound)
    (q : Rotation) : allocView w h f q = .error .fault := by
  have harea := q.logicalSize_area w h f.bytes
  rw [allocView]
  generalize q.logicalSize w h = size at *
  obtain ⟨nw, nh⟩ := size
  dsimp only at *
  rw [alloc]
  split
  · rw [dif_neg (by omega)]
    rfl
  · rfl

theorem layout_of_allocView {q : Rotation} {h' : Nat} {s : Surface}
    (h : allocView w h' f q = .ok s) :
    s.toLayout =
      { packed (q.logicalSize w h').1 (q.logicalSize w h').2 f with rotation := q } := by
  unfold allocView alloc at h
  dsimp only at h
  split at h
  · split at h
    · cases h
      rfl
    · cases h
  · cases h

theorem format_of_allocView {q : Rotation} {s : Surface} (h : allocView w h f q = .ok s) :
    s.format = f := by
  rw [layout_of_allocView h]
  rfl

theorem rotation_of_allocView {q : Rotation} {h' : Nat} {s : Surface}
    (h : allocView w h' f q = .ok s) : s.rotation = q := by
  rw [layout_of_allocView h]

theorem size_of_allocView {q : Rotation} {h' : Nat} {s : Surface} (h : allocView w h' f q = .ok s) :
    s.width = w ∧ s.height = h' := by
  have hview := q.logicalSize_logicalSize w h'
  rw [layout_of_allocView h]
  exact ⟨congrArg Prod.fst hview, congrArg Prod.snd hview⟩

theorem eq_fault_of_allocView {q : Rotation} {e : Failure} (he : allocView w h f q = .error e) :
    e = .fault := by
  unfold allocView alloc at he
  dsimp only at he
  split at he
  · split at he
    · cases he
    · cases he
      rfl
  · cases he
    rfl

theorem paint_of_painted_error {s : Surface} {p : Paint Unit} {e : Failure}
    (h : s.painted p = .error e) : (s.paint p).1 = .error e := by
  revert h
  rw [painted]
  split
  case h_1 => exact nofun
  case h_2 cause t hpaint =>
    intro h
    cases h
    rw [hpaint]

theorem eq_of_painted {s t : Surface} {p : Paint Unit} (h : s.painted p = .ok t) :
    t = (s.paint p).2 := by
  revert h
  rw [painted]
  cases s.paint p with
  | mk out u =>
      cases out with
      | ok a =>
          intro h
          cases h
          rfl
      | error e => exact nofun

end Surface

end Raster
