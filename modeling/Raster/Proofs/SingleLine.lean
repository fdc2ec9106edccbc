import Raster.Proofs.Copying

/-!
# Surfaces of a single scanline

The distance between scanlines is bounded by the size of the storage, unless there is only one
scanline. Then it may be any number and means nothing: the surface has the pixels of the same
bytes packed.
-/

namespace Raster

namespace Surface

variable {s : Surface} {x y : Nat}

/-- Scanlines farther apart than any offset leave room for one of them. -/
theorem nativeHeight_eq_one (hw : 0 < s.nativeWidth) (hh : 0 < s.nativeHeight)
    (hstride : ¬ s.stride < Offset.bound) : s.nativeHeight = 1 := by
  have hneeded := s.fits.needed_le
  have hsize := s.fits.size_lt
  rw [Layout.neededBytes, if_neg (by omega)] at hneeded
  refine Nat.le_antisymm (Nat.le_of_not_lt fun h => ?_) hh
  have hlines := Nat.mul_le_mul_left s.stride (show 1 ≤ s.nativeHeight - 1 by omega)
  omega

theorem singleLine_le_size (hline : s.nativeHeight = 1) :
    s.nativeWidth * s.pixelBytes ≤ s.data.size := by
  have hneeded := s.fits.needed_le
  rw [Layout.neededBytes, hline] at hneeded
  split at hneeded
  case isTrue hzero => simp [show s.nativeWidth = 0 by omega]
  case isFalse => omega

/-- The same bytes, with nothing behind the pixels of the one scanline. -/
def packLine (s : Surface) (hline : s.nativeHeight = 1) : Surface :=
  { s with
    pixelStride := s.nativeWidth
    stride := s.nativeWidth * s.pixelBytes
    fits := by
      refine ⟨Nat.le_refl _, Nat.le_refl _, ?_, s.fits.size_lt⟩
      have hpixels := singleLine_le_size hline
      rw [Layout.neededBytes]
      dsimp only
      rw [hline, Nat.sub_self, Nat.mul_zero, Nat.zero_add]
      split
      · exact Nat.zero_le _
      · exact hpixels }

theorem packLine_usable (hw : 0 < s.nativeWidth) (hline : s.nativeHeight = 1) :
    (s.packLine hline).Usable :=
  ⟨hw, hline ▸ Nat.one_pos, Nat.lt_of_le_of_lt (singleLine_le_size hline) s.fits.size_lt⟩

theorem place_packLine (hline : s.nativeHeight = 1) (hx : x < s.width) (hy : y < s.height) :
    (s.packLine hline).place x y = s.place x y := by
  have hrow := (Layout.native_lt hx hy).2
  have hzero : (s.native x y).2 = 0 := by omega
  have hnative : (s.packLine hline).native x y = s.native x y := rfl
  rw [Layout.place, Layout.place, hnative, Layout.cell, Layout.cell, hzero, Nat.zero_mul,
    Nat.zero_mul]
  rfl

/-! ## Addresses on a single scanline -/

/-- The step from one scanline to the next has no part in the addresses of the first. -/
theorem offset?_of_line {rotation : Rotation} {w line line' bytes : Nat} {a b : Addressing}
    (ha : Addressing.of? rotation w 1 line bytes = some a)
    (hb : Addressing.of? rotation w 1 line' bytes = some b)
    (hx : x < (rotation.logicalSize w 1).1) (hy : y < (rotation.logicalSize w 1).2) :
    a.offset? x y = b.offset? x y := by
  have hrow : Offset.sub (Word.signed 1) 1 = some 0 := by decide
  have hzero : Word.signed 0 = 0 := rfl
  have hstill (step : Int) : Offset.mul 0 step = some 0 := by
    rw [Offset.mul, Int.zero_mul]
    rfl
  simp only [Addressing.of?, hrow, Int.max_self, hstill, Option.bind_eq_bind, Option.bind_some,
    Option.bind_eq_some_iff] at ha hb
  obtain ⟨column, hcolumn, ha⟩ := ha
  obtain ⟨_, hcolumn', hb⟩ := hb
  cases hcolumn.symm.trans hcolumn'
  cases rotation with
  | upright =>
      cases ha
      cases hb
      cases Nat.lt_one_iff.mp hy
      simp only [Addressing.offset?, hzero, hstill]
  | clockwise =>
      simp only [Option.bind_eq_some_iff] at ha hb
      obtain ⟨origin, horigin, step, hstep, ha⟩ := ha
      obtain ⟨_, horigin', _, hstep', hb⟩ := hb
      cases horigin.symm.trans horigin'
      cases hstep.symm.trans hstep'
      cases ha
      cases hb
      cases Nat.lt_one_iff.mp hx
      simp only [Addressing.offset?, hzero, hstill]
  | upsideDown =>
      simp only [Option.bind_eq_some_iff] at ha hb
      obtain ⟨first, hfirst, origin, horigin, step, hstep, _, _, ha⟩ := ha
      obtain ⟨_, hfirst', _, horigin', _, hstep', _, _, hb⟩ := hb
      cases hfirst.symm.trans hfirst'
      cases horigin.symm.trans horigin'
      cases hstep.symm.trans hstep'
      cases ha
      cases hb
      cases Nat.lt_one_iff.mp hy
      simp only [Addressing.offset?, hzero, hstill]
  | counterClockwise =>
      simp only [Option.bind_eq_some_iff] at ha hb
      obtain ⟨_, _, ha⟩ := ha
      obtain ⟨_, _, hb⟩ := hb
      cases ha
      cases hb
      cases Nat.lt_one_iff.mp hx
      simp only [Addressing.offset?, hzero, hstill]

theorem addressed_of_line (hw : 0 < s.nativeWidth) (hline : s.nativeHeight = 1) {a : Addressing}
    (ha : s.addressing? = some a) : s.Addressed := by
  intro x y hx hy
  obtain ⟨b, hb, hfinds⟩ := addressing_finds (packLine_usable hw hline)
  rw [← place_packLine hline hx hy, ← hfinds x y hx hy, Layout.offset?, ha]
  rw [Layout.addressing?, hline] at ha
  rw [Layout.width, hline] at hx
  rw [Layout.height, hline] at hy
  have hb' : Addressing.of? s.rotation s.nativeWidth 1 (s.nativeWidth * s.pixelBytes)
      s.pixelBytes = some b := hline ▸ hb
  exact offset?_of_line ha hb' hx hy

/-- Any surface with points and an addressing is addressed. -/
theorem addressed_of_addressing? (hw : 0 < s.nativeWidth) (hh : 0 < s.nativeHeight) {a : Addressing}
    (ha : s.addressing? = some a) : s.Addressed := by
  by_cases hstride : s.stride < Offset.bound
  · exact addressed ⟨hw, hh, hstride⟩
  · exact addressed_of_line hw (nativeHeight_eq_one hw hh hstride) ha

theorem exists_addressing_of_pixel? {p : Pixel} (hp : s.pixel? x y = some p) :
    ∃ a, s.addressing? = some a := by
  simp only [pixel?, if_pos (lt_of_pixel? hp), Layout.offset?, Option.bind_eq_bind,
    Option.bind_eq_some_iff] at hp
  obtain ⟨_, ⟨a, ha, _⟩, _⟩ := hp
  exact ⟨a, ha⟩

theorem addressed_of_pixel? (h : ∀ x y, x < s.width → y < s.height → ∃ p, s.pixel? x y = some p) :
    s.Addressed := by
  intro x y hx hy
  have hnative := Layout.native_lt hx hy
  obtain ⟨p, hp⟩ := h x y hx hy
  obtain ⟨a, ha⟩ := exists_addressing_of_pixel? hp
  exact addressed_of_addressing? (by omega) (by omega) ha x y hx hy

end Surface

end Raster
