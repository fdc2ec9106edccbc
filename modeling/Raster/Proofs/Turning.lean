import Raster.Proofs.Allocation
import Raster.Proofs.WholeCopy

/-!
# Turning a copy of a view

A view that was copied out upright and is then seen through a second rotation shows what the
surface shows through both turns at once. Turning the copy back undoes the view.
-/

namespace Raster

namespace Rotation

/-- The quarter turns of both. -/
def andThen (a b : Rotation) : Rotation := ofTurns (a.turns + b.turns)

theorem andThen_inverse (a : Rotation) : a.andThen a.inverse = .upright := by cases a <;> rfl

end Rotation

namespace Layout

/-- The grid of `k` is what `l` shows, and `m` turns the grid of `l` by the rotations of both. -/
structure Turned (l k m : Layout) : Prop where
  width_eq : k.nativeWidth = l.width
  height_eq : k.nativeHeight = l.height
  nativeWidth_eq : m.nativeWidth = l.nativeWidth
  nativeHeight_eq : m.nativeHeight = l.nativeHeight
  rotation_eq : m.rotation = l.rotation.andThen k.rotation

namespace Turned

variable {l k m : Layout} {x y : Nat} (h : l.Turned k m)

include h

theorem size_eq : k.width = m.width ∧ k.height = m.height := by
  obtain ⟨hw, hh, hnw, hnh, hrot⟩ := h
  revert hw hh
  simp only [width, height, Rotation.logicalSize, hnw, hnh, hrot]
  cases l.rotation <;> cases k.rotation <;>
    simp +contextual [Rotation.andThen, Rotation.ofTurns, Rotation.swapsAxes, Rotation.turns]

theorem native_native (hx : x < m.width) (hy : y < m.height) :
    l.native (k.native x y).1 (k.native x y).2 = m.native x y := by
  obtain ⟨hw, hh, hnw, hnh, hrot⟩ := h
  revert hw hh hx hy
  simp only [width, height, Rotation.logicalSize, native, hnw, hnh, hrot]
  cases l.rotation <;> cases k.rotation <;>
    simp [Rotation.andThen, Rotation.ofTurns, Rotation.swapsAxes, Rotation.turns] <;> omega

end Turned

end Layout

namespace Surface

variable {s : Surface} {q : Rotation} {x y : Nat}

theorem rotated_usable (hs : s.Usable) (q : Rotation) : (s.rotated q).Usable :=
  ⟨hs.width_pos, hs.height_pos, hs.stride_lt⟩

theorem pixel?_rotated (hs : s.Usable) (hx : x < (s.rotated q).width)
    (hy : y < (s.rotated q).height) :
    (s.rotated q).pixel? x y = (s.rotated .upright).pixel? ((s.rotated q).native x y).1
      ((s.rotated q).native x y).2 := by
  have hn := Layout.native_lt hx hy
  rw [pixel?_eq_some (rotated_usable hs q) hx hy,
    pixel?_eq_some (rotated_usable hs .upright) hn.1 hn.2]
  rfl

theorem area_le_size (hs : s.Usable) (q : Rotation) :
    (s.rotated q).width * s.pixelBytes * (s.rotated q).height ≤ s.data.size := by
  calc (s.rotated q).width * s.pixelBytes * (s.rotated q).height
      = s.nativeWidth * s.pixelBytes * s.nativeHeight := q.logicalSize_area _ _ _
    _ = (s.nativeHeight - 1) * (s.nativeWidth * s.pixelBytes) + s.nativeWidth * s.pixelBytes := by
        rw [← Nat.succ_mul, Nat.mul_comm, Nat.succ_eq_add_one, Nat.sub_add_cancel hs.height_pos]
    _ ≤ (s.nativeHeight - 1) * s.stride + s.nativeWidth * s.pixelBytes :=
        Nat.add_le_add_right (Nat.mul_le_mul_left _ s.line_le_stride) _
    _ ≤ s.data.size := lastLine_le hs.width_pos hs.height_pos

theorem exists_alloc_view (hs : s.Usable) (q : Rotation) :
    ∃ blank, alloc (s.rotated q).width (s.rotated q).height s.format = .ok blank ∧
      blank.toLayout = packed (s.rotated q).width (s.rotated q).height s.format := by
  have hsize := area_le_size hs q
  have hlt := s.fits.size_lt
  have hpos := (Layout.usable_iff.mp (rotated_usable hs q)).1.2
  have hline := Nat.le_mul_of_pos_right ((s.rotated q).width * s.pixelBytes) hpos
  have hword := Offset.bound_lt_word
  unfold Layout.pixelBytes at hsize hline
  rw [alloc, if_pos (by omega), dif_pos (by omega)]
  exact ⟨_, rfl, rfl⟩

theorem packed_usable {t : Surface} (hs : s.Usable) (q : Rotation)
    (ht : t.toLayout = packed (s.rotated q).width (s.rotated q).height s.format) : t.Usable := by
  obtain ⟨hpos, -⟩ := Layout.usable_iff.mp (rotated_usable hs q)
  have hline := Nat.le_mul_of_pos_right ((s.rotated q).width * s.pixelBytes) hpos.2
  refine ⟨by rw [ht]; exact hpos.1, by rw [ht]; exact hpos.2, ?_⟩
  rw [ht]
  exact Nat.lt_of_le_of_lt (Nat.le_trans hline (area_le_size hs q)) s.fits.size_lt

/-- A copy of the view through `a` that has the view as its own grid, seen through `b`, is the
surface seen through both turns. -/
theorem agrees_turned {out : Surface} {a b : Rotation} (hs : s.Usable) (hout : out.Usable)
    (hformat : out.format = s.format)
    (hturned : (s.rotated a).Turned (out.rotated b).toLayout (s.rotated (a.andThen b)).toLayout)
    (hcopied : ∀ x y, (out.rotated .upright).pixel? x y = (s.rotated a).pixel? x y) :
    (s.rotated (a.andThen b)).Agrees (out.rotated b) := by
  have hsize := hturned.size_eq
  refine agrees_of_points ⟨rotated_usable hs _, rotated_usable hout b, hformat, hsize.1, hsize.2⟩ ?_
  intro x hx y hy
  have hx' : x < (out.rotated b).width := hsize.1 ▸ hx
  have hy' : y < (out.rotated b).height := hsize.2 ▸ hy
  obtain ⟨hcolumn, hrow⟩ := Layout.native_lt hx' hy'
  calc (out.rotated b).pixel? x y
      = (out.rotated .upright).pixel? ((out.rotated b).native x y).1
          ((out.rotated b).native x y).2 := pixel?_rotated hout hx' hy'
    _ = (s.rotated a).pixel? ((out.rotated b).native x y).1 ((out.rotated b).native x y).2 :=
        hcopied _ _
    _ = (s.rotated .upright).pixel? ((s.rotated (a.andThen b)).native x y).1
          ((s.rotated (a.andThen b)).native x y).2 := by
        rw [pixel?_rotated hs (hturned.width_eq ▸ hcolumn) (hturned.height_eq ▸ hrow),
          hturned.native_native hx hy]
    _ = (s.rotated (a.andThen b)).pixel? x y := (pixel?_rotated hs hx hy).symm

/-- Copying the view through `a` to an upright surface without gaps succeeds. The copy, seen
through `b`, shows what the surface shows through both turns; turned back, it shows the upright
surface. -/
theorem turned_copy (s : Surface) (hs : s.Usable) (a b : Rotation) :
    (∃ blank, alloc (s.rotated a).width (s.rotated a).height s.format = .ok blank ∧
      blank.toLayout = packed (s.rotated a).width (s.rotated a).height s.format) ∧
    ∀ blank : Surface,
      blank.toLayout = packed (s.rotated a).width (s.rotated a).height s.format →
        ∃ copy, blank.paint (Paint.blit (s.rotated a) (s.rotated a).bounds 0 0) = (.ok (), copy) ∧
          (s.rotated (a.andThen b)).Agrees (copy.rotated b) ∧
          (s.rotated .upright).Agrees (copy.rotated a.inverse) := by
  refine ⟨exists_alloc_view hs a, fun blank hblank => ?_⟩
  have hview := rotated_usable hs a
  obtain ⟨copy, hpaint, hlayout, hpixel⟩ :=
    Paint.blit_whole hview (packed_usable hs a hblank) (by rw [hblank]; rfl) (by rw [hblank]; rfl)
  have hcopy : copy.toLayout = packed (s.rotated a).width (s.rotated a).height s.format :=
    hlayout.trans hblank
  have hrotated : copy.rotated .upright = copy := by
    rw [← show copy.rotation = .upright from congrArg Layout.rotation hcopy]
    rfl
  have hcopied (x y : Nat) : (copy.rotated .upright).pixel? x y = (s.rotated a).pixel? x y := by
    rw [hrotated, hpixel, hblank]
    cases hp : (s.rotated a).pixel? x y with
    | none => rfl
    | some p =>
        have hformat : p.format = s.format := format_of_pixel? (s := s.rotated a) hp
        exact congrArg some (Pixel.convert_eq_self hformat)
  have hagrees (q : Rotation) : (s.rotated (a.andThen q)).Agrees (copy.rotated q) :=
    agrees_turned hs (packed_usable hs a hcopy) (by rw [hcopy]; rfl)
      ⟨congrArg Layout.nativeWidth hcopy, congrArg Layout.nativeHeight hcopy, rfl, rfl, rfl⟩ hcopied
  exact ⟨copy, hpaint, hagrees b, a.andThen_inverse ▸ hagrees a.inverse⟩

theorem turned_copy_words :
    ∃ copy, packedWords.paint (Paint.blit (turnedWords.rotated .counterClockwise)
        (turnedWords.rotated .counterClockwise).bounds 0 0) = (.ok (), copy) ∧
      (turnedWords.rotated .clockwise).Agrees (copy.rotated .upsideDown) ∧
      (turnedWords.rotated .upright).Agrees (copy.rotated .clockwise) :=
  (turned_copy turnedWords ⟨by decide, by decide, by decide⟩ .counterClockwise .upsideDown).2
    packedWords rfl

end Surface

end Raster
