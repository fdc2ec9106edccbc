import Raster.Proofs.Transfer
import Raster.Scene.Render

/-!
# Effects of the blit modes

Onto a rectangle that is not empty, a mode fails, does nothing or combines the pixels of both
surfaces. Which it is, and how it combines, depends on the formats and its arguments alone. Between
regions within their surfaces, an empty rectangle is no exception.
-/

namespace Raster

/-- What an operator between two surfaces does to a rectangle that is not empty. -/
inductive Transfer where
  | fails (cause : Failure)
  | nothing
  | combines (f : Pixel → Pixel → Nat → Nat → Option Pixel)

namespace Transfer

def effect (l : Layout) (src : Surface) (r : Rect) (sx sy : Nat) : Transfer → Effect
  | fails cause => .fail cause
  | nothing => .skip
  | combines f => .between l src r sx sy f

theorem effect_ite {c : Prop} [Decidable c] (a b : Transfer) (l : Layout) (src : Surface)
    (r : Rect) (sx sy : Nat) : (if c then a else b).effect l src r sx sy =
      if c then a.effect l src r sx sy else b.effect l src r sx sy := by
  split <;> rfl

/-- Compositing by the source's alpha. -/
def composite (op : String) (mode : AlphaMode) (dither : Bool) (format source : PixelFormat) :
    Transfer :=
  if format.compositesFrom source then
    combines fun old p u v =>
      (Paint.composite mode old p).map fun out => if dither then out.dithered u v else out
  else fails (.refused (.incompatibleFormats op format source))

/-- Painting a colour through the source. -/
def mask (c : Rgba) : Transfer :=
  if c.alpha = 0 then nothing
  else combines fun old p _ _ => Paint.tint old c (Channel.mul p.coverage c.alpha)

end Transfer

namespace BlitMode

open Transfer

/-- What a mode does is settled by the formats and its arguments. -/
def kind (mode : BlitMode) (format source : PixelFormat) (alpha : UInt8) (color : Rgba) :
    Transfer :=
  match mode with
  | copy => combines fun _ p _ _ => some (p.convert format)
  | dither =>
    if format.isGray then combines fun _ p u v => some ((p.convert format).dithered u v)
    else combines fun _ p _ _ => some (p.convert format)
  | add =>
    if format ≠ source then fails (.refused (.incompatibleFormats "add_blit_from" format source))
    else if alpha = 0 then nothing
    else if alpha = 255 then combines fun _ p _ _ => some (p.convert format)
    else combines fun old p _ _ => some (old.blend p.toRgba alpha)
  | .alpha => composite "alpha_blit_from" .straight false format source
  | ditherAlpha => composite "dither_alpha_blit_from" .straight true format source
  | premultiplied => composite "pmulalpha_blit_from" .premultiplied false format source
  | ditherPremultiplied =>
    composite "dither_pmulalpha_blit_from" .premultiplied true format source
  | invert =>
    if format ≠ source then
      fails (.refused (.incompatibleFormats "invert_blit_from" format source))
    else combines fun _ p _ _ => some p.inverted
  | gray => mask (GrayAlpha.toRgba ⟨color.luminance, color.alpha⟩)
  | .color => mask color

section Kind

variable {l : Layout} {src : Surface} {r : Rect} {sx sy : Nat}

/-! ### Where an empty rectangle needs no treatment of its own -/

section Between

variable (hl : l.Usable) (hsrc : src.Usable)
  (hregions : ∀ f, Effect.onRegions l src r sx sy f = .between l src r sx sy f)

include hl hsrc hregions

theorem compositeBlit_hasKind (op : String) (mode : AlphaMode) (dither : Bool) :
    (Paint.compositeBlit op mode dither src r sx sy).HasEffect l
      ((composite op mode dither l.format src.format).effect l src r sx sy) := by
  have h := Paint.compositeBlit_hasEffect hl hsrc op mode dither r sx sy
  rw [Paint.compositeEffect, hregions] at h
  rw [composite, effect_ite]
  exact h

theorem maskBlit_hasKind (c : Rgba) :
    (Paint.maskBlit src r sx sy c).HasEffect l ((mask c).effect l src r sx sy) := by
  have h := Paint.maskBlit_hasEffect hl hsrc r sx sy c
  rw [hregions] at h
  rw [mask, effect_ite]
  exact h

theorem transfer_hasKind
    (hcombined : ∀ f, Effect.combined l src r sx sy f = .between l src r sx sy f)
    (mode : BlitMode) (alpha : UInt8) (color : Rgba) :
    (mode.transfer src r sx sy alpha color).HasEffect l
      ((mode.kind l.format src.format alpha color).effect l src r sx sy) := by
  cases mode with
  | copy =>
      have h := Paint.blit_hasEffect hl hsrc r sx sy
      rw [hregions] at h
      exact h
  | dither =>
      have h := Paint.ditherBlit_hasEffect hl hsrc r sx sy
      rw [hregions, hregions] at h
      rw [kind, effect_ite]
      exact h
  | add =>
      have h := Paint.addBlit_hasEffect hl hsrc r sx sy alpha
      rw [hregions, hcombined] at h
      rw [kind, effect_ite, effect_ite, effect_ite]
      exact h
  | invert =>
      have h := Paint.invertBlit_hasEffect hl hsrc r sx sy
      rw [hcombined] at h
      rw [kind, effect_ite]
      exact h
  | gray => exact maskBlit_hasKind hl hsrc hregions _
  | color => exact maskBlit_hasKind hl hsrc hregions color
  | _ => exact compositeBlit_hasKind hl hsrc hregions _ _ _

end Between

theorem transfer_hasEffect (mode : BlitMode) (hl : l.Usable) (hsrc : src.Usable)
    (hne : r.isEmpty = false) (sx sy : Nat) (alpha : UInt8) (color : Rgba) :
    (mode.transfer src r sx sy alpha color).HasEffect l
      ((mode.kind l.format src.format alpha color).effect l src r sx sy) := by
  refine transfer_hasKind hl hsrc (fun f => ?_) (fun f => ?_) mode alpha color
  · rw [Effect.onRegions, hne, if_neg Bool.false_ne_true]
  · rw [Effect.combined, hne, if_neg Bool.false_ne_true]

/-- Between regions within their surfaces it does not matter whether the rectangle is empty. -/
theorem transfer_hasEffect_within (mode : BlitMode) (hl : l.Usable) (hsrc : src.Usable)
    (hr : l.Holds r) (hregion : src.Holds ⟨sx, sy, r.w, r.h⟩) (alpha : UInt8) (color : Rgba) :
    (mode.transfer src r sx sy alpha color).HasEffect l
      ((mode.kind l.format src.format alpha color).effect l src r sx sy) := by
  apply Paint.HasEffect.of_surface
  intro s hs
  subst hs
  have hregions (f) :
      Effect.onRegions s.toLayout src r sx sy f = .between s.toLayout src r sx sy f :=
    (Effect.onRegions_eq_transfer hr hregion).trans (Effect.between_eq_transfer hr hregion).symm
  refine transfer_hasKind hl hsrc hregions (fun f => ?_) mode alpha color
  have hword := Offset.bound_lt_word
  have hheight := Surface.height_lt hl
  have hheight' := Surface.height_lt hsrc
  obtain ⟨-, hbottom⟩ := hr
  obtain ⟨-, hbottom'⟩ := hregion
  dsimp only at hbottom'
  exact (Effect.combined_eq_onRegions (by omega) (by omega)).trans (hregions f)

end Kind

end BlitMode

end Raster
