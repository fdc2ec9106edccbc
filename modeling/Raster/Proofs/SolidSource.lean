import Raster.Proofs.Combination
import Raster.Proofs.Opacity

/-!
# Sources of one alpha

Compositing a region without a translucent pixel is copying it, and compositing a region of clear
pixels is nothing at all. It does not matter whether the source colours carry their alpha, whether
the copy converts pixels or moves bytes, or whether the surface is one that is dithered.
-/

namespace Raster

namespace Pixel

/-- The pixel lets all that is below it through. -/
def IsClear (p : Pixel) : Prop := p.alpha = 0

instance (p : Pixel) : Decidable p.IsOpaque := inferInstanceAs (Decidable (p.alpha = 255))

instance (p : Pixel) : Decidable p.IsClear := inferInstanceAs (Decidable (p.alpha = 0))

end Pixel

namespace Surface

/-- Every pixel in the rectangle has the property. -/
def AllIn (s : Surface) (r : Rect) (P : Pixel → Prop) : Prop :=
  ∀ i < r.w, ∀ j < r.h, ∀ p ∈ s.pixel? (r.x + i) (r.y + j), P p

instance (s : Surface) (r : Rect) (P : Pixel → Prop) [DecidablePred P] : Decidable (s.AllIn r P) :=
  inferInstanceAs (Decidable (∀ i < r.w, ∀ j < r.h, ∀ p ∈ s.pixel? (r.x + i) (r.y + j), P p))

theorem allIn_isOpaque {s : Surface} (h : s.format.hasAlpha = false) (r : Rect) :
    s.AllIn r Pixel.IsOpaque := by
  intro i _ j _ p hp
  exact Pixel.isOpaque_of_hasAlpha (format_of_pixel? hp ▸ h)

end Surface

namespace Combination

open Effect

variable {l : Layout} {src dst : Surface} {r : Rect} {sx sy : Nat}

/-! ## One step on a pixel -/

theorem step_of_isOpaque (mode : AlphaMode) (dithered : Bool) (old : Pixel) {new : Pixel}
    (h : new.IsOpaque) (u v : Nat) :
    (composite mode dithered).step old new u v =
      if dithered ∧ old.format.isGray then (new.convert old.format).dithered u v
      else new.convert old.format := by
  have hfull : new.alpha = 255 := h
  have hzero : new.alpha ≠ 0 := by
    rw [hfull]
    decide
  simp only [step, if_neg hzero, if_pos hfull]

theorem step_of_isClear (mode : AlphaMode) (dithered : Bool) (old : Pixel) {new : Pixel}
    (h : new.IsClear) (u v : Nat) : (composite mode dithered).step old new u v = old :=
  if_pos h

/-! ## Whole regions -/

theorem transfer_congr_of_allIn {p : Paint Unit} {P : Pixel → Prop}
    {f g : Pixel → Pixel → Nat → Nat → Option Pixel} (hall : src.AllIn ⟨sx, sy, r.w, r.h⟩ P)
    (hp : p.HasEffect l (transfer src r sx sy f))
    (hfg : ∀ old new u v, old.format = l.format → P new →
      (g old new u v).getD old = (f old new u v).getD old) :
    p.HasEffect l (transfer src r sx sy g) := by
  apply Paint.HasEffect.region_congr hp
  intro x y old _ _ hold hc
  simp only [transferred]
  cases hnew : src.pixel? (sx + (x - r.x)) (sy + (y - r.y)) with
  | none => rfl
  | some new =>
      have hx : x - r.x < r.w := Nat.sub_lt_left_of_lt_add hc.1.1 hc.1.2
      have hy : y - r.y < r.h := Nat.sub_lt_left_of_lt_add hc.2.1 hc.2.2
      exact hfg old new _ _ hold (hall _ hx _ hy new hnew)

section Inside

variable (hdst : dst.Usable) (hsrc : src.Usable) (hne : r.isEmpty = false) (hr : dst.Holds r)
  (hregion : src.Holds ⟨sx, sy, r.w, r.h⟩)
  (hformats : dst.format.compositesFrom src.format = true)

include hdst hsrc hne hr hregion hformats

theorem composite_of_isOpaque (hall : src.AllIn ⟨sx, sy, r.w, r.h⟩ Pixel.IsOpaque)
    (mode : AlphaMode) :
    ∃ out, dst.paint (Paint.blit src r sx sy) = (.ok (), out) ∧
      dst.paint ((composite mode false).paint src r sx sy) = (.ok (), out) := by
  have hcopy := Paint.blit_hasEffect hdst hsrc r sx sy
  rw [onRegions_eq_transfer hr hregion] at hcopy
  have hcomposite := transfer_congr_of_allIn
    (g := fun _ new _ _ => some (new.convert dst.format)) hall
    (paint_hasEffect hdst hsrc hne hr hregion (composite mode false) hformats)
    fun old new u v hold hnew => by simp [step_of_isOpaque mode false old hnew, hold]
  exact hcopy.exists_paint_eq hdst hcomposite rfl

theorem composite_dithered_of_isOpaque (hall : src.AllIn ⟨sx, sy, r.w, r.h⟩ Pixel.IsOpaque)
    (mode : AlphaMode) :
    ∃ out, dst.paint (Paint.ditherBlit src r sx sy) = (.ok (), out) ∧
      dst.paint ((composite mode true).paint src r sx sy) = (.ok (), out) := by
  have hcopy := Paint.ditherBlit_hasEffect hdst hsrc r sx sy
  rw [onRegions_eq_transfer hr hregion, onRegions_eq_transfer hr hregion] at hcopy
  have hstep := paint_hasEffect hdst hsrc hne hr hregion (composite mode true) hformats
  cases hgray : dst.format.isGray with
  | true =>
      rw [if_pos hgray] at hcopy
      have hcomposite := transfer_congr_of_allIn
        (g := fun _ new u v => some ((new.convert dst.format).dithered u v)) hall hstep
        fun old new u v hold hnew => by simp [step_of_isOpaque mode true old hnew, hold, hgray]
      exact hcopy.exists_paint_eq hdst hcomposite rfl
  | false =>
      rw [if_neg (by simp [hgray])] at hcopy
      have hcomposite := transfer_congr_of_allIn
        (g := fun _ new _ _ => some (new.convert dst.format)) hall hstep
        fun old new u v hold hnew => by simp [step_of_isOpaque mode true old hnew, hold, hgray]
      exact hcopy.exists_paint_eq hdst hcomposite rfl

theorem composite_of_isClear (hall : src.AllIn ⟨sx, sy, r.w, r.h⟩ Pixel.IsClear)
    (mode : AlphaMode) (dithered : Bool) :
    dst.paint ((composite mode dithered).paint src r sx sy) = (.ok (), dst) := by
  have hkeep := transfer_congr_of_allIn (g := fun old _ _ _ => some old) hall
    (paint_hasEffect hdst hsrc hne hr hregion (composite mode dithered) hformats)
    fun old new u v _ hnew => by rw [step_of_isClear mode dithered old hnew]
  rw [transfer_keep] at hkeep
  exact hkeep.paint_eq hdst .skip

end Inside

/-- Whatever the mode, compositing a region of solid pixels, which a source without alpha always
shows, leaves what copying it leaves, and dithered what dithering the copy leaves; compositing a
region of clear pixels changes nothing. -/
theorem composite_collapses (src dst : Surface) (r : Rect) (sx sy : Nat)
    (hsrc : src.stride < Offset.bound) (hdst : dst.stride < Offset.bound)
    (hne : r.isEmpty = false) (hr : dst.Holds r) (hregion : src.Holds ⟨sx, sy, r.w, r.h⟩)
    (hformats : dst.format.compositesFrom src.format = true) :
    (src.AllIn ⟨sx, sy, r.w, r.h⟩ Pixel.IsOpaque → ∀ mode,
      (∃ out, dst.paint (Paint.blit src r sx sy) = (.ok (), out) ∧
        dst.paint ((composite mode false).paint src r sx sy) = (.ok (), out)) ∧
      ∃ out, dst.paint (Paint.ditherBlit src r sx sy) = (.ok (), out) ∧
        dst.paint ((composite mode true).paint src r sx sy) = (.ok (), out)) ∧
    (src.format.hasAlpha = false → src.AllIn ⟨sx, sy, r.w, r.h⟩ Pixel.IsOpaque) ∧
    (src.AllIn ⟨sx, sy, r.w, r.h⟩ Pixel.IsClear → ∀ mode dithered,
      dst.paint ((composite mode dithered).paint src r sx sy) = (.ok (), dst)) := by
  have hs : src.Usable := Layout.usable_of_holds (r := ⟨sx, sy, r.w, r.h⟩) hsrc hne hregion
  have hd : dst.Usable := Layout.usable_of_holds hdst hne hr
  refine ⟨fun hall mode => ⟨?_, ?_⟩, fun h => Surface.allIn_isOpaque h _, fun hall => ?_⟩
  · exact composite_of_isOpaque hd hs hne hr hregion hformats hall mode
  · exact composite_dithered_of_isOpaque hd hs hne hr hregion hformats hall mode
  · exact composite_of_isClear hd hs hne hr hregion hformats hall

/-- Gray points upside down, with a gap between the scanlines: solid ones below, and above them a
clear one beside one that is neither. -/
def frosted : Surface where
  nativeWidth := 2
  nativeHeight := 2
  pixelStride := 2
  stride := 5
  format := .gray8a
  rotation := .upsideDown
  data := #[10, 255, 20, 255, 9, 30, 128, 40, 0]
  fits := ⟨by decide, by decide, by decide, by decide⟩

theorem composite_collapses_frosted :
    (∃ out, Paint.graySource.paint (Paint.ditherBlit frosted ⟨1, 0, 2, 1⟩ 0 1) = (.ok (), out) ∧
      Paint.graySource.paint ((composite .premultiplied true).paint frosted ⟨1, 0, 2, 1⟩ 0 1) =
        (.ok (), out)) ∧
    Paint.graySource.paint ((composite .straight true).paint frosted ⟨1, 0, 1, 1⟩ 0 0) =
      (.ok (), Paint.graySource) :=
  ⟨((composite_collapses frosted Paint.graySource ⟨1, 0, 2, 1⟩ 0 1 (by decide) (by decide)
      (by decide) (by decide) (by decide) rfl).1 (by decide) .premultiplied).2,
    (composite_collapses frosted Paint.graySource ⟨1, 0, 1, 1⟩ 0 0 (by decide) (by decide)
      (by decide) (by decide) (by decide) rfl).2.2 (by decide) .straight true⟩

end Combination

end Raster
