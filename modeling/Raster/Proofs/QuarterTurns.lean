import Mathlib.Data.Set.Function
import Raster.Proofs.RectAlgebra
import Raster.Proofs.Turning

/-!
# Quarter turns of rectangles

A rotation maps a rectangle as it maps the points of it, one to one and onto the native rectangle,
and the inverse rotation maps both back. Nothing is asked of the surface but its size, and a
rectangle only has to lie within what the rotation shows of it.
-/

namespace Raster

namespace Rotation

/-- A native `w × h` grid seen through the rotation. -/
def view (q : Rotation) (w h : Nat) : Layout := ⟨w, h, w, w, .gray8, q⟩

/-- Through the rotation, `r` shows the native rectangle of a `w × h` grid, point by point. -/
structure Shows (q : Rotation) (w h : Nat) (r image : Rect) : Prop where
  mapRect?_eq : q.mapRect? r w h = some image
  within : image.x + image.w ≤ w ∧ image.y + image.h ≤ h
  bijOn : Set.BijOn (fun p => q.mapPoint? p.1 p.2 w h) r.points (some '' image.points)
  inverse_mapRect?_eq :
    q.inverse.mapRect? image (q.logicalSize w h).1 (q.logicalSize w h).2 = some r

variable {q : Rotation} {w h x y : Nat} {r : Rect}

theorem inverse_andThen (q : Rotation) : q.inverse.andThen q = .upright := by cases q <;> rfl

theorem inverse_view_size (q : Rotation) (w h : Nat) :
    (q.inverse.view (q.logicalSize w h).1 (q.logicalSize w h).2).width = w ∧
      (q.inverse.view (q.logicalSize w h).1 (q.logicalSize w h).2).height = h := by
  have hsize : q.inverse.logicalSize (q.logicalSize w h).1 (q.logicalSize w h).2 = (w, h) := by
    cases q <;> rfl
  exact Prod.ext_iff.mp hsize

/-- Seen through the inverse rotation, a view is the grid that it is a view of. -/
theorem view_turned (q : Rotation) (w h : Nat) :
    (q.inverse.view (q.logicalSize w h).1 (q.logicalSize w h).2).Turned (q.view w h)
      (upright.view (q.logicalSize w h).1 (q.logicalSize w h).2) where
  width_eq := (q.inverse_view_size w h).1.symm
  height_eq := (q.inverse_view_size w h).2.symm
  nativeWidth_eq := rfl
  nativeHeight_eq := rfl
  rotation_eq := q.inverse_andThen.symm

/-! ## Points -/

theorem mapPoint?_inverse (hx : x < (q.logicalSize w h).1) (hy : y < (q.logicalSize w h).2) :
    ∃ column row, q.mapPoint? x y w h = some (column, row) ∧ column < w ∧ row < h ∧
      q.inverse.mapPoint? column row (q.logicalSize w h).1 (q.logicalSize w h).2 = some (x, y) := by
  have hgrid := Layout.native_lt (l := q.view w h) hx hy
  obtain ⟨hwidth, hheight⟩ := q.inverse_view_size w h
  have hback := Layout.mapPoint?_eq (hgrid.1.trans_eq hwidth.symm) (hgrid.2.trans_eq hheight.symm)
  rw [(q.view_turned w h).native_native hx hy] at hback
  exact ⟨_, _, Layout.mapPoint?_eq (l := q.view w h) hx hy, hgrid.1, hgrid.2, hback⟩

theorem mapPoint?_bijOn_points (hr : (q.view w h).Holds r) :
    Set.BijOn (fun p => q.mapPoint? p.1 p.2 w h) r.points
      (some '' ((q.view w h).nativeRect r).points) := by
  have hlt {x y : Nat} (hc : r.Covers x y) : x < (q.view w h).width ∧ y < (q.view w h).height :=
    ⟨Nat.lt_of_lt_of_le hc.1.2 hr.1, Nat.lt_of_lt_of_le hc.2.2 hr.2⟩
  have hmap {x y : Nat} (hc : r.Covers x y) :
      q.mapPoint? x y w h = some ((q.view w h).native x y) :=
    Layout.mapPoint?_eq (hlt hc).1 (hlt hc).2
  refine ⟨?_, ?_, ?_⟩
  · rintro ⟨x, y⟩ hc
    exact ⟨_, (Layout.covers_nativeRect_iff hr (hlt hc).1 (hlt hc).2).mpr hc, (hmap hc).symm⟩
  · rintro ⟨x, y⟩ hc ⟨x', y'⟩ hc' heq
    dsimp only at heq
    rw [hmap hc, hmap hc'] at heq
    exact Prod.ext_iff.mpr
      (Layout.native_inj (hlt hc).1 (hlt hc).2 (hlt hc').1 (hlt hc').2 (Option.some.inj heq))
  · rintro _ ⟨⟨column, row⟩, hcell, rfl⟩
    have hgrid := Layout.nativeRect_within hr
    obtain ⟨x, y, hx, hy, hnative⟩ := Layout.exists_native (l := q.view w h)
      (Nat.lt_of_lt_of_le hcell.1.2 hgrid.1) (Nat.lt_of_lt_of_le hcell.2.2 hgrid.2)
    have hc : r.Covers x y := by
      rw [← Layout.covers_nativeRect_iff hr hx hy, hnative]
      exact hcell
    exact ⟨(x, y), hc, (hmap hc).trans (congrArg some hnative)⟩

/-! ## Rectangles -/

theorem nativeRect_nativeRect (hr : (q.view w h).Holds r) :
    (q.inverse.view (q.logicalSize w h).1 (q.logicalSize w h).2).nativeRect
      ((q.view w h).nativeRect r) = r := by
  revert hr
  obtain ⟨x, y, width, height⟩ := r
  simp only [Layout.Holds, Layout.width, Layout.height, Layout.nativeRect, view, logicalSize]
  cases q <;> simp [inverse, ofTurns, swapsAxes, turns] <;> omega

theorem shows_nativeRect (hr : (q.view w h).Holds r) :
    q.Shows w h r ((q.view w h).nativeRect r) where
  mapRect?_eq := Layout.nativeRect?_eq hr
  within := Layout.nativeRect_within hr
  bijOn := mapPoint?_bijOn_points hr
  inverse_mapRect?_eq := by
    obtain ⟨hwidth, hheight⟩ := q.inverse_view_size w h
    obtain ⟨hright, hbottom⟩ := Layout.nativeRect_within hr
    have hnative : (q.inverse.view (q.logicalSize w h).1 (q.logicalSize w h).2).Holds
        ((q.view w h).nativeRect r) :=
      ⟨hright.trans_eq hwidth.symm, hbottom.trans_eq hheight.symm⟩
    exact (Layout.nativeRect?_eq hnative).trans (congrArg some (nativeRect_nativeRect hr))

/-- Every rectangle within what a rotation shows of a grid has a native rectangle. It lies within
the grid, it is what the points of the rectangle show, and the inverse rotation leads back from it,
as it does from the cell of every point. -/
theorem shows_image (q : Rotation) (w h : Nat) :
    (∀ r : Rect, r.x + r.w ≤ (q.logicalSize w h).1 → r.y + r.h ≤ (q.logicalSize w h).2 →
      ∃ image, q.Shows w h r image) ∧
    ∀ x y, x < (q.logicalSize w h).1 → y < (q.logicalSize w h).2 →
      ∃ column row, q.mapPoint? x y w h = some (column, row) ∧ column < w ∧ row < h ∧
        q.inverse.mapPoint? column row (q.logicalSize w h).1 (q.logicalSize w h).2 =
          some (x, y) :=
  ⟨fun _ hright hbottom => ⟨_, shows_nativeRect ⟨hright, hbottom⟩⟩,
    fun _ _ hx hy => mapPoint?_inverse hx hy⟩

theorem shows_image_corner :
    (∃ image, clockwise.Shows 5 3 ⟨1, 3, 2, 2⟩ image ∧ image = ⟨0, 1, 2, 2⟩) ∧
    ∃ column row, clockwise.mapPoint? 2 4 5 3 = some (column, row) ∧ column < 5 ∧ row < 3 ∧
      counterClockwise.mapPoint? column row 3 5 = some (2, 4) := by
  obtain ⟨image, himage⟩ :=
    (shows_image clockwise 5 3).1 ⟨1, 3, 2, 2⟩ (by decide) (by decide)
  refine ⟨⟨image, himage, Option.some.inj (himage.mapRect?_eq.symm.trans (by decide))⟩, ?_⟩
  exact (shows_image clockwise 5 3).2 2 4 (by decide) (by decide)

end Rotation

end Raster
