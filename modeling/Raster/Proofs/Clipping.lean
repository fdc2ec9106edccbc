import Raster.Proofs.Agreement
import Raster.Scene.Render

/-!
# Operations clipped to their canvas

Before it paints, an operation refuses a rectangle that is not addressable and takes the part of
it that is on the canvas. Neither can fail in any other way.
-/

namespace Raster

namespace Rect

variable {r : Rect} {w h : Nat}

theorem clipped_eq_empty (he : (r.clipped w h).isEmpty = true) : r.clipped w h = .empty := by
  unfold clipped at *
  split
  case isTrue hlt =>
    rw [if_pos hlt] at he
    have := isEmpty_iff.mp he
    dsimp only at this
    omega
  case isFalse => rfl

theorem clipped_corner (hne : (r.clipped w h).isEmpty = false) :
    (r.clipped w h).x = r.x ∧ (r.clipped w h).y = r.y ∧ 0 < r.w ∧ 0 < r.h := by
  unfold clipped at *
  split
  case isTrue hlt => exact ⟨rfl, rfl, by omega, by omega⟩
  case isFalse hlt =>
    rw [if_neg hlt] at hne
    cases hne

end Rect

namespace Op

open Effect

variable {l : Layout} {r : Rect} {e : Effect}

theorem requireAddressable_hasEffect (name : String) (r : Rect) :
    (requireAddressable name r).HasEffect l
      (if r.isAddressable then .skip else .fail (.refused (.invalidRect name r))) :=
  .ite (fun _ => .skip) fun _ => .fail _

/-- The effect of what comes after a rectangle was intersected with the canvas. -/
theorem intersect_hasEffect (hl : l.Usable) (name : String) {k : Option Rect → Paint Unit}
    (hk : r.isAddressable = true → (k (if (r.clipped l.width l.height).isEmpty then none
      else some (r.clipped l.width l.height))).HasEffect l e) :
    Paint.HasEffect (do
        requireAddressable name r
        let part ← Paint.ofOption (r.intersect? (← get).bounds)
        k part) l
      (if r.isAddressable then e else .fail (.refused (.invalidRect name r))) := by
  cases hr : r.isAddressable with
  | true =>
      rw [requireAddressable, if_pos hr, pure_bind, if_pos rfl]
      apply Paint.HasEffect.get_bind
      intro s hs
      subst hs
      exact .ofOption_some (Surface.intersect?_bounds hl hr) (hk hr)
  | false =>
      rw [requireAddressable, hr]
      exact .fail _

theorem clip_hasEffect (hl : l.Usable) (name : String) {k : Rect → Paint Unit}
    (hk : (k (r.clipped l.width l.height)).HasEffect l e) :
    Paint.HasEffect (do k (← clip name r)) l
      (if r.isAddressable then e else .fail (.refused (.invalidRect name r))) := by
  have hpart : (if (r.clipped l.width l.height).isEmpty then none
      else some (r.clipped l.width l.height)).getD .empty = r.clipped l.width l.height := by
    split
    case isTrue he => exact (Rect.clipped_eq_empty he).symm
    case isFalse => rfl
  rw [clip]
  simp only [bind_assoc, pure_bind]
  refine intersect_hasEffect hl name (k := fun part => k (part.getD .empty)) fun _ => ?_
  rw [hpart]
  exact hk

end Op

end Raster
