import Raster.Proofs.Addressing
import Raster.Surface.Region

/-! # Rectangles on a surface: what they cover, natively and clipped -/

namespace Raster

namespace Rect

/-- The point lies in the rectangle. -/
def Covers (r : Rect) (x y : Nat) : Prop :=
  (r.x ≤ x ∧ x < r.x + r.w) ∧ r.y ≤ y ∧ y < r.y + r.h

instance (r : Rect) (x y : Nat) : Decidable (r.Covers x y) :=
  inferInstanceAs (Decidable ((r.x ≤ x ∧ x < r.x + r.w) ∧ r.y ≤ y ∧ y < r.y + r.h))

theorem isEmpty_iff {r : Rect} : r.isEmpty = true ↔ r.w = 0 ∨ r.h = 0 := by
  simp [isEmpty]

theorem sides_pos {r : Rect} (h : r.isEmpty = false) : 0 < r.w ∧ 0 < r.h := by
  simp only [isEmpty, Bool.or_eq_false_iff, beq_eq_false_iff_ne] at h
  omega

theorem not_covers_of_isEmpty {r : Rect} (h : r.isEmpty = true) (x y : Nat) : ¬ r.Covers x y := by
  have := isEmpty_iff.mp h
  rw [Covers]
  omega

theorem isAddressable_iff {r : Rect} :
    r.isAddressable = true ↔ r.x + r.w < Word.bound ∧ r.y + r.h < Word.bound := by
  simp [isAddressable, right?, bottom?, Option.isSome_iff_exists, Word.add_eq_some_iff]

/-- A rectangle with representable far edges lies in one at the origin when both of its far edges
do. -/
theorem containsRect?_sized {r : Rect} {w h : Nat} (hw : w < Word.bound) (hh : h < Word.bound) :
    (sized w h).containsRect? r = some true ↔ r.x + r.w ≤ w ∧ r.y + r.h ≤ h := by
  simp only [containsRect?, right?, bottom?, sized, Word.add, Word.fit, Nat.zero_add, hw, hh]
  by_cases hr : r.x + r.w < Word.bound
  · by_cases hb : r.y + r.h < Word.bound
    · simp only [Nat.not_lt_zero, decide_false, Bool.or_self, Bool.false_eq_true, if_false, if_true,
        hr, hb, Option.pure_def, Option.bind_eq_bind, Option.bind_some]
      split
      case isTrue hlt => simp [Nat.not_le_of_lt hlt]
      case isFalse hge => simp [Nat.le_of_not_lt hge]
    · simp [hr, hb]
      omega
  · simp [hr]
    omega

/-- The part of the rectangle on a surface of this size. -/
def clipped (r : Rect) (w h : Nat) : Rect :=
  if r.x < min (r.x + r.w) w ∧ r.y < min (r.y + r.h) h then
    ⟨r.x, r.y, min (r.x + r.w) w - r.x, min (r.y + r.h) h - r.y⟩
  else
    empty

/-- Intersecting rectangles whose far edges are representable does not fail. -/
theorem intersect?_eq {a b : Rect} (ha : a.isAddressable = true) (hb : b.isAddressable = true) :
    a.intersect? b = some
      (if max a.x b.x < min (a.x + a.w) (b.x + b.w) ∧ max a.y b.y < min (a.y + a.h) (b.y + b.h) then
        some ⟨max a.x b.x, max a.y b.y, min (a.x + a.w) (b.x + b.w) - max a.x b.x,
          min (a.y + a.h) (b.y + b.h) - max a.y b.y⟩
      else none) := by
  obtain ⟨hright, hbottom⟩ := isAddressable_iff.mp ha
  obtain ⟨hright', hbottom'⟩ := isAddressable_iff.mp hb
  simp only [intersect?, right?, bottom?, Word.add_of_lt hright, Word.add_of_lt hbottom,
    Word.add_of_lt hright', Word.add_of_lt hbottom', Option.bind_eq_bind, Option.bind_some,
    Option.pure_def]
  split <;> rfl

/-- Intersecting with a rectangle at the origin is clipping, if all far edges are representable. -/
theorem intersect?_sized {r : Rect} {w h : Nat} (hw : w < Word.bound) (hh : h < Word.bound)
    (hr : r.isAddressable = true) :
    r.intersect? (sized w h) =
      some (if (r.clipped w h).isEmpty then none else some (r.clipped w h)) := by
  have hsized : (sized w h).isAddressable = true :=
    isAddressable_iff.mpr (by simpa only [sized, Nat.zero_add] using ⟨hw, hh⟩)
  rw [intersect?_eq hr hsized, clipped]
  simp only [sized, Nat.zero_add, Nat.max_zero]
  split
  case isTrue hlt =>
    rw [if_neg]
    rw [isEmpty_iff]
    dsimp only
    omega
  case isFalse => rfl

theorem covers_clipped_iff {r : Rect} {w h x y : Nat} (hx : x < w) (hy : y < h) :
    (r.clipped w h).Covers x y ↔ r.Covers x y := by
  unfold clipped Covers
  split <;> simp only [empty] <;> omega

end Rect

namespace Layout

/-- The rectangle lies within the surface. -/
def Holds (l : Layout) (r : Rect) : Prop :=
  r.x + r.w ≤ l.width ∧ r.y + r.h ≤ l.height

instance (l : Layout) (r : Rect) : Decidable (l.Holds r) :=
  inferInstanceAs (Decidable (r.x + r.w ≤ l.width ∧ r.y + r.h ≤ l.height))

theorem holds_bounds (l : Layout) : l.Holds l.bounds := by
  simp [Holds, bounds, Rect.sized]

theorem covers_bounds_iff {l : Layout} {x y : Nat} :
    l.bounds.Covers x y ↔ x < l.width ∧ y < l.height := by
  simp [Rect.Covers, bounds, Rect.sized]

variable {l : Layout} {r : Rect} {x y : Nat}

/-- The native rectangle that a logical one shows. -/
def nativeRect (l : Layout) (r : Rect) : Rect :=
  match l.rotation with
  | .upright => r
  | .clockwise => ⟨l.nativeWidth - r.y - r.h, r.x, r.h, r.w⟩
  | .upsideDown =>
    ⟨l.nativeWidth - r.x - r.w, l.nativeHeight - r.y - r.h, r.w, r.h⟩
  | .counterClockwise => ⟨r.y, l.nativeHeight - r.x - r.w, r.h, r.w⟩

theorem nativeRect?_eq (h : l.Holds r) : l.nativeRect? r = some (l.nativeRect r) := by
  revert h
  simp only [Holds, width, height, Rotation.logicalSize, nativeRect?, nativeRect]
  cases l.rotation <;>
    simp [Rotation.mapRect?, Rotation.swapsAxes, Rotation.turns, Word.sub] <;> intros <;>
    grind

theorem nativeRect_within (h : l.Holds r) :
    (l.nativeRect r).x + (l.nativeRect r).w ≤ l.nativeWidth ∧
      (l.nativeRect r).y + (l.nativeRect r).h ≤ l.nativeHeight := by
  revert h
  simp only [Holds, width, height, Rotation.logicalSize, nativeRect]
  cases l.rotation <;> simp [Rotation.swapsAxes, Rotation.turns] <;> omega

/-- The native rectangle covers exactly the cells of the rectangle's points. -/
theorem covers_nativeRect_iff (h : l.Holds r) (hx : x < l.width) (hy : y < l.height) :
    (l.nativeRect r).Covers (l.native x y).1 (l.native x y).2 ↔ r.Covers x y := by
  revert h hx hy
  simp only [Holds, width, height, Rotation.logicalSize, nativeRect, native, Rect.Covers]
  cases l.rotation <;> simp [Rotation.swapsAxes, Rotation.turns] <;> omega

/-- The rectangle shows whole scanlines. -/
def SpansLines (l : Layout) (r : Rect) : Prop :=
  (l.nativeRect r).x = 0 ∧ (l.nativeRect r).w = l.nativeWidth

theorem SpansLines.covers_iff (hspan : l.SpansLines r) (h : l.Holds r) (hx : x < l.width)
    (hy : y < l.height) :
    r.Covers x y ↔ (l.nativeRect r).y ≤ (l.native x y).2 ∧
      (l.native x y).2 < (l.nativeRect r).y + (l.nativeRect r).h := by
  have hn := (native_lt hx hy).1
  rw [← covers_nativeRect_iff h hx hy, Rect.Covers, hspan.1, hspan.2]
  constructor
  · intro hc
    exact hc.2
  · intro hrow
    exact ⟨⟨Nat.zero_le _, by omega⟩, hrow⟩

/-- Under one rotation, points at the same place of two rectangles of one size show cells at the
same place of the native rectangles. -/
theorem native_sub_nativeRect {k : Layout} (hrot : k.rotation = l.rotation) {sx sy : Nat}
    (hk : k.Holds ⟨sx, sy, r.w, r.h⟩) (hl : l.Holds r) (hc : r.Covers x y) :
    k.native (sx + (x - r.x)) (sy + (y - r.y)) =
      ((k.nativeRect ⟨sx, sy, r.w, r.h⟩).x + ((l.native x y).1 - (l.nativeRect r).x),
        (k.nativeRect ⟨sx, sy, r.w, r.h⟩).y + ((l.native x y).2 - (l.nativeRect r).y)) := by
  revert hk hl hc
  simp only [Holds, width, height, Rotation.logicalSize, nativeRect, native, Rect.Covers, hrot]
  cases l.rotation <;> simp [Rotation.swapsAxes, Rotation.turns] <;> omega

theorem nativeRect_size {k : Layout} (hrot : k.rotation = l.rotation) (sx sy : Nat) :
    (k.nativeRect ⟨sx, sy, r.w, r.h⟩).w = (l.nativeRect r).w ∧
      (k.nativeRect ⟨sx, sy, r.w, r.h⟩).h = (l.nativeRect r).h := by
  simp only [nativeRect, hrot]
  cases l.rotation <;> exact ⟨rfl, rfl⟩

end Layout

namespace Surface

/-- Operators may touch a rectangle that is empty or lies within the surface. -/
theorem admits_iff {s : Surface} (hs : s.Usable) {r : Rect} :
    s.admits r = true ↔ r.isEmpty = true ∨ s.Holds r := by
  have hw := Nat.lt_trans (width_lt hs) Offset.bound_lt_word
  have hh := Nat.lt_trans (height_lt hs) Offset.bound_lt_word
  simp [Layout.admits, Layout.bounds, Rect.containsRect?_sized hw hh, Layout.Holds]

theorem admits_iff_holds {s : Surface} (hs : s.Usable) {r : Rect} (hr : r.isEmpty = false) :
    s.admits r = true ↔ s.Holds r := by
  rw [admits_iff hs, hr]
  simp

/-- Clipping to the surface never fails on a rectangle with representable far edges. -/
theorem intersect?_bounds {s : Surface} (hs : s.Usable) {r : Rect} (hr : r.isAddressable = true) :
    r.intersect? s.bounds = some (if (r.clipped s.width s.height).isEmpty then none
      else some (r.clipped s.width s.height)) :=
  Rect.intersect?_sized (Nat.lt_trans (width_lt hs) Offset.bound_lt_word)
    (Nat.lt_trans (height_lt hs) Offset.bound_lt_word) hr

end Surface

end Raster
