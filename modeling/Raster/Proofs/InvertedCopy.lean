import Raster.Proofs.SteppedCorner
import Raster.Proofs.Transfer

/-!
# Copying inverted

Copying pixels inverted is copying them and inverting the copy. Inverting once more brings the
plain copy back.
-/

namespace Raster

@[simp] theorem Pixel.inverted_inverted (p : Pixel) : p.inverted.inverted = p := by
  cases p <;> simp [inverted]

namespace Paint

open Effect

variable {src dst : Surface} {r : Rect} {sx sy : Nat}

theorem HasEffect.transfer_region {l : Layout} {p q : Paint Unit}
    {f k : Pixel → Pixel → Nat → Nat → Option Pixel} {g : Pixel → Pixel} (hsrc : src.Usable)
    (hregion : src.Holds ⟨sx, sy, r.w, r.h⟩) (hp : p.HasEffect l (transfer src r sx sy f))
    (hq : q.HasEffect l (region r fun _ _ => g))
    (hk : ∀ old new u v, new.format = src.format →
      k old new u v = some (g ((f old new u v).getD old))) :
    HasEffect (do p; q) l (transfer src r sx sy k) := by
  refine (hp.seq hq).congr rfl fun x y old _ _ _ => ?_
  by_cases hc : r.Covers x y
  · obtain ⟨new, hnew, hformat⟩ := exists_source_pixel (Surface.addressed hsrc) hregion hc
    simp [transfer, region, transferred, hc, hnew, hk old new _ _ hformat]
  · simp [transfer, region, hc]

section SameFormat

variable (hdst : dst.Usable) (hsrc : src.Usable) (hne : r.isEmpty = false) (hr : dst.Holds r)
  (hregion : src.Holds ⟨sx, sy, r.w, r.h⟩) (hformat : src.format = dst.format)

include hdst hsrc hr hregion

theorem blit_hasEffect_transfer :
    (blit src r sx sy).HasEffect dst.toLayout
      (transfer src r sx sy fun _ new _ _ => some (new.convert dst.format)) :=
  onRegions_eq_transfer hr hregion ▸ blit_hasEffect hdst hsrc r sx sy

include hne hformat in
theorem invertBlit_hasEffect_transfer :
    (invertBlit src r sx sy).HasEffect dst.toLayout
      (transfer src r sx sy fun _ new _ _ => some new.inverted) := by
  have h := invertBlit_hasEffect hdst hsrc r sx sy
  rwa [if_neg fun hne => hne hformat.symm, combined, hne, if_neg Bool.false_ne_true,
    between_eq_transfer hr hregion] at h

omit hsrc hregion in
theorem invertRect_hasEffect_region :
    (invertRect r).HasEffect dst.toLayout (region r fun _ _ => Pixel.inverted) :=
  onRegion_eq_region hr _ ▸ invertRect_hasEffect hdst r

include hformat in
theorem blit_invertRect_hasEffect :
    HasEffect (do blit src r sx sy; invertRect r) dst.toLayout
      (transfer src r sx sy fun _ new _ _ => some new.inverted) :=
  (blit_hasEffect_transfer hdst hsrc hr hregion).transfer_region hsrc hregion
    (invertRect_hasEffect_region hdst hr) fun _ new _ _ hnew => by
      rw [Option.getD_some, Pixel.convert_eq_self (hnew.trans hformat)]

include hne hformat in
theorem invertBlit_invertRect_hasEffect :
    HasEffect (do invertBlit src r sx sy; invertRect r) dst.toLayout
      (transfer src r sx sy fun _ new _ _ => some (new.convert dst.format)) :=
  (invertBlit_hasEffect_transfer hdst hsrc hne hr hregion hformat).transfer_region hsrc hregion
    (invertRect_hasEffect_region hdst hr) fun _ new _ _ hnew => by
      rw [Option.getD_some, Pixel.inverted_inverted, Pixel.convert_eq_self (hnew.trans hformat)]

end SameFormat

/-- Between two surfaces of one format, turned and laid out as they may be, copying a region
inverted leaves the bytes that copying it and inverting the copy leaves. Inverting the inverted
copy leaves those of the plain copy. -/
theorem invertBlit_eq_blit_then_invert (src dst : Surface) (r : Rect) (sx sy : Nat)
    (hsrc : src.stride < Offset.bound) (hdst : dst.stride < Offset.bound)
    (hne : r.isEmpty = false) (hr : dst.Holds r) (hregion : src.Holds ⟨sx, sy, r.w, r.h⟩)
    (hformat : src.format = dst.format) :
    (∃ out, dst.paint (invertBlit src r sx sy) = (.ok (), out) ∧
      dst.paint (do blit src r sx sy; invertRect r) = (.ok (), out)) ∧
    ∃ out, dst.paint (blit src r sx sy) = (.ok (), out) ∧
      dst.paint (do invertBlit src r sx sy; invertRect r) = (.ok (), out) := by
  have hs : src.Usable := Layout.usable_of_holds (r := ⟨sx, sy, r.w, r.h⟩) hsrc hne hregion
  have hd : dst.Usable := Layout.usable_of_holds hdst hne hr
  constructor
  · exact (invertBlit_hasEffect_transfer hd hs hne hr hregion hformat).exists_paint_eq hd
      (blit_invertRect_hasEffect hd hs hr hregion hformat) rfl
  · exact (blit_hasEffect_transfer hd hs hr hregion).exists_paint_eq hd
      (invertBlit_invertRect_hasEffect hd hs hne hr hregion hformat) rfl

/-- From an overturned picture to an upright one, both in RGB565. -/
theorem invertBlit_eq_blit_then_invert_dusk :
    (∃ out, colorTarget.paint (invertBlit dusk ⟨1, 0, 2, 2⟩ 3 2) = (.ok (), out) ∧
      colorTarget.paint (do blit dusk ⟨1, 0, 2, 2⟩ 3 2; invertRect ⟨1, 0, 2, 2⟩) = (.ok (), out)) ∧
    ∃ out, colorTarget.paint (blit dusk ⟨1, 0, 2, 2⟩ 3 2) = (.ok (), out) ∧
      colorTarget.paint (do invertBlit dusk ⟨1, 0, 2, 2⟩ 3 2; invertRect ⟨1, 0, 2, 2⟩) =
        (.ok (), out) :=
  invertBlit_eq_blit_then_invert dusk colorTarget ⟨1, 0, 2, 2⟩ 3 2 (by decide) (by decide)
    (by decide) (by decide) (by decide) rfl

end Paint

end Raster
