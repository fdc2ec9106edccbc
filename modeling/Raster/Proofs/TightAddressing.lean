import Mathlib.Data.Set.Function
import Mathlib.Order.Bounds.Defs
import Raster.Proofs.Addressing

/-!
# Addressing is tight

The points of a usable surface are in bijection with the cells of its native grid, the signed
address computation is exact, and the cells lie apart and reach just as far as the length that a
descriptor is checked for. A descriptor is too small for its storage exactly when some pixel
would lie behind the end.
-/

namespace Raster

/-! ## Exact sums -/

theorem Addressing.sum_eq_of_offset? {a : Addressing} {x y n : Nat} (hx : x < Offset.bound)
    (hy : y < Offset.bound) (hn : n < Offset.bound) (h : a.offset? x y = some n) :
    a.origin + x * a.stepX + y * a.stepY = n := by
  simp only [Addressing.offset?, Word.signed_of_lt hx, Word.signed_of_lt hy, Offset.add,
    Offset.mul, Option.bind_eq_bind, Option.bind_eq_some_iff, Option.pure_def,
    Option.some.injEq, Offset.fit_eq_some_iff] at h
  obtain ⟨_, ⟨-, rfl⟩, _, ⟨-, rfl⟩, _, ⟨-, rfl⟩, _, ⟨hfits, rfl⟩, hunsigned⟩ := h
  simp only [Offset.unsigned, Offset.bound, Word.bound] at hunsigned hfits hn
  omega

/-! ## Points and cells -/

namespace Layout

/-- The points as seen through the rotation. -/
def points (l : Layout) : Set (Nat × Nat) := {p | p.1 < l.width ∧ p.2 < l.height}

/-- The columns and rows of the native grid. -/
def grid (l : Layout) : Set (Nat × Nat) := {p | p.1 < l.nativeWidth ∧ p.2 < l.nativeHeight}

theorem mapPoint?_bijOn (l : Layout) :
    Set.BijOn (fun p => l.rotation.mapPoint? p.1 p.2 l.nativeWidth l.nativeHeight) l.points
      (some '' l.grid) := by
  refine ⟨?_, ?_, ?_⟩
  · rintro ⟨x, y⟩ ⟨hx, hy⟩
    exact ⟨l.native x y, native_lt hx hy, (mapPoint?_eq hx hy).symm⟩
  · rintro ⟨x, y⟩ ⟨hx, hy⟩ ⟨x', y'⟩ ⟨hx', hy'⟩ h
    dsimp only at h
    rw [mapPoint?_eq hx hy, mapPoint?_eq hx' hy'] at h
    exact Prod.ext_iff.mpr (native_inj hx hy hx' hy' (Option.some.inj h))
  · rintro _ ⟨⟨column, row⟩, ⟨hc, hr⟩, rfl⟩
    obtain ⟨x, y, hx, hy, hn⟩ := exists_native hc hr
    exact ⟨(x, y), ⟨hx, hy⟩, (mapPoint?_eq hx hy).trans (congrArg some hn)⟩

variable {l : Layout}

/-- The cells end where the needed bytes do, wherever the storage may end. -/
theorem cell_add_le_needed {c r : Nat} (hc : c < l.nativeWidth) (hr : r < l.nativeHeight) :
    l.cell c r + l.pixelBytes ≤ l.neededBytes := by
  have hrow := Nat.mul_le_mul_right l.stride (show r ≤ l.nativeHeight - 1 by omega)
  have hcolumn := Nat.mul_le_mul_right l.pixelBytes (show c + 1 ≤ l.nativeWidth from hc)
  rw [Nat.succ_mul] at hcolumn
  rw [neededBytes, if_neg (by omega), cell, Nat.mul_comm l.stride]
  omega

theorem lastCell_add_eq_needed (hw : 0 < l.nativeWidth) (hh : 0 < l.nativeHeight) :
    l.cell (l.nativeWidth - 1) (l.nativeHeight - 1) + l.pixelBytes = l.neededBytes := by
  have hlast : (l.nativeWidth - 1) * l.pixelBytes + l.pixelBytes = l.nativeWidth * l.pixelBytes := by
    rw [← Nat.succ_mul, Nat.succ_eq_add_one, Nat.sub_add_cancel hw]
  rw [neededBytes, if_neg (by omega), cell, Nat.mul_comm l.stride, Nat.add_assoc, hlast]

theorem lt_needed_iff (hw : 0 < l.nativeWidth) (hh : 0 < l.nativeHeight) (size : Nat) :
    size < l.neededBytes ↔ ∃ x y column row, x < l.width ∧ y < l.height ∧
      l.rotation.mapPoint? x y l.nativeWidth l.nativeHeight = some (column, row) ∧
      size < row * l.stride + column * l.pixelBytes + l.pixelBytes := by
  constructor
  · intro h
    obtain ⟨x, y, hx, hy, hn⟩ := exists_native (l := l) (Nat.sub_one_lt_of_lt hw)
      (Nat.sub_one_lt_of_lt hh)
    refine ⟨x, y, _, _, hx, hy, (mapPoint?_eq hx hy).trans (congrArg some hn), ?_⟩
    rwa [← lastCell_add_eq_needed hw hh] at h
  · rintro ⟨x, y, column, row, hx, hy, hmap, h⟩
    rw [mapPoint?_eq hx hy] at hmap
    obtain ⟨hc, hr⟩ := native_lt hx hy
    rw [Option.some.inj hmap] at hc hr
    exact Nat.lt_of_lt_of_le h (cell_add_le_needed hc hr)

end Layout

/-! ## Usable surfaces -/

namespace Surface

/-- The pixels of a surface lie apart in its storage, each at the cell that it shows, and reach
as far as the bytes that are needed. -/
structure TightlyAddressed (s : Surface) : Prop where
  bijOn : Set.BijOn (fun p => s.rotation.mapPoint? p.1 p.2 s.nativeWidth s.nativeHeight) s.points
    (some '' s.grid)
  located : ∃ a, s.addressing? = some a ∧ ∀ x y column row, (x, y) ∈ s.points →
    s.rotation.mapPoint? x y s.nativeWidth s.nativeHeight = some (column, row) →
      a.origin + x * a.stepX + y * a.stepY = (row * s.stride + column * s.pixelBytes : Nat) ∧
      a.offset? x y = some (row * s.stride + column * s.pixelBytes)
  apart : ∀ p ∈ s.points, ∀ q ∈ s.points, p ≠ q → ∀ i j, s.offset? p.1 p.2 = some i →
    s.offset? q.1 q.2 = some j → i + s.pixelBytes ≤ j ∨ j + s.pixelBytes ≤ i
  within : ∀ p ∈ s.points, ∀ i, s.offset? p.1 p.2 = some i → i + s.pixelBytes ≤ s.data.size
  tight : IsGreatest {n | ∃ p ∈ s.points, ∃ i, s.offset? p.1 p.2 = some i ∧ n = i + s.pixelBytes}
    s.neededBytes

theorem tightlyAddressed {s : Surface} (hs : s.Usable) : s.TightlyAddressed where
  bijOn := s.mapPoint?_bijOn
  located := by
    obtain ⟨a, ha, hfinds⟩ := addressing_finds hs
    refine ⟨a, ha, ?_⟩
    rintro x y column row ⟨hx, hy⟩ hmap
    rw [Layout.mapPoint?_eq hx hy] at hmap
    have hplace : s.place x y = row * s.stride + column * s.pixelBytes := by
      rw [Layout.place, Option.some.inj hmap, Layout.cell]
    have hinside := place_add_le_size hx hy
    have hsize := s.fits.size_lt
    have hfound := hfinds x y hx hy
    rw [hplace] at hinside hfound
    exact ⟨Addressing.sum_eq_of_offset? (Nat.lt_trans hx (width_lt hs))
      (Nat.lt_trans hy (height_lt hs)) (by omega) hfound, hfound⟩
  apart := by
    rintro ⟨x, y⟩ ⟨hx, hy⟩ ⟨x', y'⟩ ⟨hx', hy'⟩ hne i j hi hj
    rw [offset?_eq hs hx hy] at hi
    rw [offset?_eq hs hx' hy'] at hj
    cases hi
    cases hj
    exact place_disjoint hx hy hx' hy' fun h => hne (Prod.ext h.1 h.2)
  within := by
    rintro ⟨x, y⟩ ⟨hx, hy⟩ i hi
    rw [offset?_eq hs hx hy] at hi
    cases hi
    exact place_add_le_size hx hy
  tight := by
    constructor
    · obtain ⟨x, y, hx, hy, hn⟩ := Layout.exists_native (l := s.toLayout)
        (Nat.sub_one_lt_of_lt hs.width_pos) (Nat.sub_one_lt_of_lt hs.height_pos)
      refine ⟨(x, y), ⟨hx, hy⟩, s.place x y, offset?_eq hs hx hy, ?_⟩
      rw [Layout.place, hn]
      exact (Layout.lastCell_add_eq_needed hs.width_pos hs.height_pos).symm
    · rintro n ⟨⟨x, y⟩, ⟨hx, hy⟩, i, hi, rfl⟩
      rw [offset?_eq hs hx hy] at hi
      cases hi
      obtain ⟨hc, hr⟩ := Layout.native_lt hx hy
      exact Layout.cell_add_le_needed hc hr

/-! ## Descriptors -/

variable {data : Array UInt8} {width height pixelStride stride : Nat} {format : PixelFormat}

theorem ofParts_bufferTooSmall_iff (hwidth : width ≤ pixelStride)
    (hpixelStride : pixelStride * format.bytes ≤ stride) (hstride : stride < Word.bound)
    (hneeded : Layout.neededBytes ⟨width, height, pixelStride, stride, format, .upright⟩ <
      Word.bound) :
    (∃ needed actual, ofParts data width height pixelStride stride format =
        .error (.refused (.bufferTooSmall needed actual))) ↔
      data.size <
        Layout.neededBytes ⟨width, height, pixelStride, stride, format, .upright⟩ := by
  have hfit := Word.fit_eq_some_iff.mpr ⟨hneeded, rfl⟩
  rw [ofParts, dif_neg (Nat.not_lt_of_le hwidth), Word.mul_of_lt (by omega)]
  dsimp only
  rw [dif_neg (Nat.not_lt_of_le hpixelStride), hfit]
  dsimp only
  split
  case isTrue hsmall => exact ⟨fun _ => hsmall, fun _ => ⟨_, _, rfl⟩⟩
  case isFalse hlarge =>
    refine ⟨fun ⟨needed, actual, h⟩ => ?_, fun h => absurd h hlarge⟩
    split at h <;> cases h

theorem layout_of_ofParts {s : Surface}
    (h : ofParts data width height pixelStride stride format = .ok s) :
    s.toLayout = ⟨width, height, pixelStride, stride, format, .upright⟩ := by
  unfold ofParts at h
  dsimp only at h
  repeat' split at h
  all_goals cases h
  rfl

/-- The pixels of an accepted descriptor are addressed tightly through every rotation, and one
that passes the stride checks is refused exactly when some pixel would lie behind the end of the
storage, through whichever rotation the pixels are seen. -/
theorem ofParts_tight (data : Array UInt8) (width height pixelStride stride : Nat)
    (format : PixelFormat) (hw : 0 < width) (hh : 0 < height) (hstride : stride < Word.bound) :
    (∀ s, ofParts data width height pixelStride stride format = .ok s → stride < Offset.bound →
      ∀ q, (s.rotated q).TightlyAddressed) ∧
    (width ≤ pixelStride → pixelStride * format.bytes ≤ stride →
      Layout.neededBytes ⟨width, height, pixelStride, stride, format, .upright⟩ < Word.bound →
      ∀ q : Rotation, (∃ needed actual,
          ofParts data width height pixelStride stride format =
            .error (.refused (.bufferTooSmall needed actual))) ↔
        ∃ x y column row, x < (q.logicalSize width height).1 ∧
          y < (q.logicalSize width height).2 ∧
          q.mapPoint? x y width height = some (column, row) ∧
          data.size < row * stride + column * format.bytes + format.bytes) := by
  constructor
  · intro s hs hbound q
    have hlayout := layout_of_ofParts hs
    apply tightlyAddressed
    refine ⟨?_, ?_, ?_⟩
    · show 0 < s.nativeWidth
      rwa [hlayout]
    · show 0 < s.nativeHeight
      rwa [hlayout]
    · show s.stride < Offset.bound
      rwa [hlayout]
  · intro hwidth hpixelStride hneeded q
    rw [ofParts_bufferTooSmall_iff hwidth hpixelStride hstride hneeded]
    exact Layout.lt_needed_iff (l := ⟨width, height, pixelStride, stride, format, q⟩) hw hh
      data.size

/-- Three by two points of three bytes, with scanlines that are not a multiple of a pixel apart:
22 bytes are enough, 21 are not. -/
theorem ofParts_tight_gapped :
    (∃ s, ofParts (.replicate 22 0) 3 2 4 13 .rgb24 = .ok s ∧
      (s.rotated .counterClockwise).TightlyAddressed) ∧
    ((∃ needed actual, ofParts (.replicate 21 0) 3 2 4 13 .rgb24 =
        .error (.refused (.bufferTooSmall needed actual))) ↔
      ∃ x y column row, x < (Rotation.clockwise.logicalSize 3 2).1 ∧
        y < (Rotation.clockwise.logicalSize 3 2).2 ∧
        Rotation.clockwise.mapPoint? x y 3 2 = some (column, row) ∧
        (Array.replicate 21 (0 : UInt8)).size < row * 13 + column * 3 + 3) :=
  ⟨⟨_, rfl, (ofParts_tight (.replicate 22 0) 3 2 4 13 .rgb24 (by decide) (by decide)
      (by decide)).1 _ rfl (by decide) .counterClockwise⟩,
    (ofParts_tight (.replicate 21 0) 3 2 4 13 .rgb24 (by decide) (by decide) (by decide)).2
      (by decide) (by decide) (by decide) .clockwise⟩

end Surface

end Raster
