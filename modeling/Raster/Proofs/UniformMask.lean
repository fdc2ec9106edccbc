import Raster.Proofs.SolidSource
import Raster.Proofs.Tiling

/-!
# Masks of one coverage

Where a mask covers all pixels alike, painting through it is blending the rectangle with a colour
that is as much fainter.
-/

namespace Raster

/-- The colour as it shows through a mask that covers by `k`. -/
def Rgba.through (c : Rgba) (k : UInt8) : Rgba :=
  { c with alpha := .ofNat (Channel.div255 (k.toNat * c.alpha.toNat)) }

theorem Pixel.channelwise_through (f : UInt8 → UInt8 → UInt8) (p : Pixel) (c : Rgba) (k : UInt8) :
    p.channelwise f (c.through k) = p.channelwise f c := by
  cases p <;> rfl

namespace Combination

open Effect

variable {src : Surface} {r : Rect} {sx sy : Nat}

/-- What one pixel of a mask leaves is what blending with the fainter colour leaves, and the
products for which nothing is painted, or nothing mixed, are the same. -/
theorem masked_eq_transform (old mask : Pixel) (c : Rgba) :
    masked old mask c = (RegionOperator.blend (c.through mask.coverage)).transform old := by
  have halpha : (c.through mask.coverage).alpha = Channel.mul mask.coverage c.alpha := rfl
  simp only [← getD_tint, RegionOperator.transform, RegionOperator.byAlpha, Paint.tint, halpha,
    Pixel.recolor, Pixel.blend, Pixel.channelwise_through]
  split
  · rfl
  · split <;> rfl

theorem transfer_eq_region {l : Layout} {p : Paint Unit} {g : Pixel → Pixel}
    (hsrc : src.Addressed) (hregion : src.Holds ⟨sx, sy, r.w, r.h⟩)
    (hp : p.HasEffect l (transfer src r sx sy fun old _ _ _ => some (g old))) :
    p.HasEffect l (region r fun _ _ => g) := by
  refine hp.region_congr fun x y old _ _ _ hc => ?_
  obtain ⟨new, hnew, -⟩ := Paint.exists_source_pixel hsrc hregion hc
  simp [transferred, hnew]

/-- Painting a colour through a region in which every mask pixel covers by `k`, which is its alpha
where the mask has one and its luminance elsewhere, leaves the bytes that blending the rectangle
leaves, with the colour whose alpha is the product of both. -/
theorem maskBlit_eq_blendRect (mask dst : Surface) (r : Rect) (sx sy : Nat) (k : UInt8) (c : Rgba)
    (hmask : mask.stride < Offset.bound) (hdst : dst.stride < Offset.bound)
    (hne : r.isEmpty = false) (hr : dst.Holds r) (hregion : mask.Holds ⟨sx, sy, r.w, r.h⟩)
    (huniform : mask.AllIn ⟨sx, sy, r.w, r.h⟩ fun p =>
      (if mask.format.hasAlpha then p.alpha else p.luminance) = k) :
    ∃ out, dst.paint (Paint.maskBlit mask r sx sy c) = (.ok (), out) ∧
      dst.paint (Paint.blendRect r
        { c with alpha := .ofNat (Channel.div255 (k.toNat * c.alpha.toNat)) }) = (.ok (), out) := by
  have hm : mask.Usable := Layout.usable_of_holds (r := ⟨sx, sy, r.w, r.h⟩) hmask hne hregion
  have hd : dst.Usable := Layout.usable_of_holds hdst hne hr
  have hcovers : mask.AllIn ⟨sx, sy, r.w, r.h⟩ (·.coverage = k) := by
    intro i hi j hj p hp
    rw [Pixel.coverage, Surface.format_of_pixel? hp]
    exact huniform i hi j hj p hp
  have hstep := transfer_congr_of_allIn
    (g := fun old _ _ _ => some ((RegionOperator.blend (c.through k)).transform old)) hcovers
    (maskBlit_step hd hm hr hregion c) fun old new _ _ _ hnew => by
      rw [Option.getD_some, Option.getD_some, masked_eq_transform, hnew]
  exact (transfer_eq_region (Surface.addressed hm) hregion hstep).exists_paint_eq hd
    (RegionOperator.paint_hasEffect (.blend (c.through k)) hd trivial hr) rfl

theorem maskBlit_eq_blendRect_frosted :
    (∃ out, Paint.colorTarget.paint
          (Paint.maskBlit frosted ⟨1, 0, 2, 1⟩ 0 1 ⟨200, 100, 50, 77⟩) = (.ok (), out) ∧
      Paint.colorTarget.paint (Paint.blendRect ⟨1, 0, 2, 1⟩ ⟨200, 100, 50, 77⟩) = (.ok (), out)) ∧
    ∃ out, Paint.colorTarget.paint
          (Paint.maskBlit frosted ⟨1, 0, 1, 1⟩ 1 0 ⟨200, 100, 50, 77⟩) = (.ok (), out) ∧
      Paint.colorTarget.paint (Paint.blendRect ⟨1, 0, 1, 1⟩ ⟨200, 100, 50, 39⟩) = (.ok (), out) :=
  ⟨maskBlit_eq_blendRect frosted Paint.colorTarget ⟨1, 0, 2, 1⟩ 0 1 255 ⟨200, 100, 50, 77⟩
      (by decide) (by decide) (by decide) (by decide) (by decide) (by decide),
    maskBlit_eq_blendRect frosted Paint.colorTarget ⟨1, 0, 1, 1⟩ 1 0 128 ⟨200, 100, 50, 77⟩
      (by decide) (by decide) (by decide) (by decide) (by decide) (by decide)⟩

end Combination

end Raster
