import Raster.Proofs.Allocation
import Raster.Proofs.CornerFootprint

/-!
# Operations confined to their footprint

An operation is about a rectangle that may reach beyond the canvas. It is confined to the points
of this rectangle that are on the canvas, and leaves the layout of the canvas as it is.
-/

namespace Raster

namespace Rect

variable {r s : Rect}

theorem eq_of_intersect? {part : Option Rect} (h : r.intersect? s = some part) :
    part = if max r.x s.x < min (r.x + r.w) (s.x + s.w) ∧
        max r.y s.y < min (r.y + r.h) (s.y + s.h) then
      some ⟨max r.x s.x, max r.y s.y, min (r.x + r.w) (s.x + s.w) - max r.x s.x,
        min (r.y + r.h) (s.y + s.h) - max r.y s.y⟩
    else none := by
  simp only [intersect?, right?, bottom?, Option.bind_eq_bind, Option.bind_eq_some_iff,
    Word.add_eq_some_iff] at h
  obtain ⟨_, ⟨-, rfl⟩, _, ⟨-, rfl⟩, _, ⟨-, rfl⟩, _, ⟨-, rfl⟩, h⟩ := h
  split at h
  case isTrue hlt =>
    cases h
    rw [if_pos hlt]
  case isFalse hlt =>
    cases h
    rw [if_neg hlt]

theorem covers_of_intersect? {part : Rect} (h : r.intersect? s = some (some part)) {x y : Nat}
    (hc : part.Covers x y) : r.Covers x y := by
  have hpart := eq_of_intersect? h
  split at hpart
  case isTrue =>
    cases hpart
    unfold Covers at hc ⊢
    dsimp only at hc
    omega
  case isFalse => cases hpart

end Rect

variable {l : Layout}

theorem BlitMode.transfer_confined (mode : BlitMode) (src : Surface) (r : Rect) (sx sy : Nat)
    (alpha : UInt8) (color : Rgba) :
    (mode.transfer src r sx sy alpha color).Confined l (l.bytesOf r) := by
  cases mode with
  | copy => exact Paint.blit_confined src r sx sy
  | dither => exact Paint.ditherBlit_confined src r sx sy
  | add => exact Paint.addBlit_confined src r sx sy alpha
  | invert => exact Paint.invertBlit_confined src r sx sy
  | gray => exact Paint.maskBlit_confined src r sx sy _
  | color => exact Paint.maskBlit_confined src r sx sy color
  | _ => exact Paint.compositeBlit_confined _ _ _ src r sx sy

namespace Op

/-- The rectangle that the operation is about; none if it is about the whole canvas. -/
def rect? : Op → Option Rect
  | fill _ => none
  | fillRect r _ | replaceRect r _ | blendGray r _ | blendColor r _ | multiplyRect r _
  | invertRect r | hatchRect r .. | roundedCorner r .. => some r
  | blit layer x y .. => some ⟨x, y, layer.width, layer.height⟩

/-- The rectangle of the operation on a canvas of this size. -/
def footprint (op : Op) (width height : Nat) : Rect := op.rect?.getD (.sized width height)

variable {name : String} {r : Rect} {B : Set Nat}

theorem requireAddressable_confined : (requireAddressable name r).Confined l B :=
  .ite (fun _ => .pure ()) fun _ => .throw _

theorem intersect_confined {k : Option Rect → Paint Unit}
    (hk : ∀ part, (∀ q ∈ part, ∀ x y, q.Covers x y → r.Covers x y) → (k part).Confined l B) :
    Paint.Confined (do
      requireAddressable name r
      let part ← Paint.ofOption (r.intersect? (← get).bounds)
      k part) l B := by
  refine .bind requireAddressable_confined fun _ => ?_
  refine .get_bind (fun s _ => .ofOption_bind fun part hpart => hk part ?_) fun s t h => by rw [h]
  rintro q rfl x y hc
  exact Rect.covers_of_intersect? hpart hc

theorem clip_confined {k : Rect → Paint Unit} (hk : ∀ part, (k part).Confined l (l.bytesOf part)) :
    Paint.Confined (do k (← clip name r)) l (l.bytesOf r) := by
  rw [clip]
  simp only [bind_assoc, pure_bind]
  refine intersect_confined (k := fun part => k (part.getD .empty)) fun part hpart => ?_
  refine (hk _).mono (Layout.bytesOf_mono fun x y hc => ?_)
  cases part with
  | none => exact absurd hc (Rect.not_covers_of_isEmpty rfl x y)
  | some q => exact hpart q rfl x y hc

theorem apply_confined (op : Op) :
    op.apply.Confined l (l.bytesOf (op.footprint l.width l.height)) := by
  cases op with
  | fill v => exact Paint.fill_confined v
  | fillRect r v => exact clip_confined fun part => Paint.fillRect_confined part v
  | replaceRect r c => exact clip_confined fun part => Paint.replaceRect_confined part c
  | blendGray r c => exact clip_confined fun part => Paint.blendRect_confined part c.toRgba
  | blendColor r c => exact clip_confined fun part => Paint.blendRect_confined part c
  | multiplyRect r c => exact clip_confined fun part => Paint.multiplyBlendRect_confined part c
  | invertRect r => exact clip_confined Paint.invertRect_confined
  | hatchRect r stripe v alpha =>
      exact clip_confined fun part => Paint.hatchRect_confined part stripe v alpha
  | roundedCorner r border radius v smooth =>
      refine .bind requireAddressable_confined fun _ => .ite (fun _ => ?_) fun _ => ?_
      · exact Paint.smoothCorner_confined r border radius v
      · exact Paint.roundedCorner_confined r border radius v
  | blit layer x y mode alpha color =>
      refine intersect_confined fun part hpart => ?_
      cases part with
      | none => exact .pure ()
      | some q =>
          refine .ofExcept_bind fun src => ?_
          exact .mono (mode.transfer_confined src q _ _ alpha color)
            (Layout.bytesOf_mono (hpart q rfl))

theorem layout_of_apply (op : Op) (s : Surface) : (s.paint op.apply).2.toLayout = s.toLayout :=
  op.apply_confined.layout_eq rfl

end Op

namespace Scene

theorem layout_of_applyAll {index : Nat} {a b : Surface} {ops : List Op}
    (h : applyAll index a ops = .ok b) : b.toLayout = a.toLayout := by
  induction ops generalizing index a with
  | nil =>
      cases h
      rfl
  | cons op ops ih =>
      have hlayout := op.layout_of_apply a
      rw [applyAll] at h
      split at h
      case h_1 c hc =>
        rw [hc] at hlayout
        exact (ih h).trans hlayout
      case h_2 => cases h
      case h_3 => cases h

/-- A canvas has the size and the format of its scene. -/
theorem shape_of_canvas {s : Scene} {a : Surface} (h : s.canvas = .ok a) :
    a.width = s.width ∧ a.height = s.height ∧ a.format = s.format := by
  rw [canvas] at h
  cases hblank : Surface.allocView s.width s.height s.format s.rotation with
  | error e =>
      rw [hblank] at h
      cases h
  | ok blank =>
      rw [hblank] at h
      obtain ⟨hwidth, hheight⟩ := Surface.size_of_allocView hblank
      have hformat := Surface.format_of_allocView hblank
      obtain rfl := Surface.eq_of_painted h
      have hlayout := (Paint.mapRegion_confined blank.holds_bounds
        (f := fun _ => .ofGray s.format s.background)
        fun _ _ => (Pixel.format_ofRgba ..).trans hformat.symm).layout_eq (s := blank) rfl
      rw [hlayout]
      exact ⟨hwidth, hheight, hformat⟩

end Scene

end Raster
