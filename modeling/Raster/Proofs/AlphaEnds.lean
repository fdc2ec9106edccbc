import Raster.Proofs.Conversion

/-!
# Blending at the ends of the alpha scale

Division by 255 is exact on the multiples of 255. Blending by none of a colour therefore gives every
pixel back, and blending by all of it gives the colour, also where a pixel has to be widened for it
and packed again. Blending never looks at the stored alpha.
-/

namespace Raster

namespace Channel

theorem div255_mul {n : Nat} (h : n ≤ 255) : div255 (n * 255) = n := by
  rw [div255]
  omega

theorem mix_none (old new : UInt8) : mix 0 old new = old := by
  have hold := old.toNat_lt
  have hsum : old.toNat * (255 - (0 : UInt8).toNat) + new.toNat * (0 : UInt8).toNat =
      old.toNat * 255 := by simp
  rw [mix, hsum, div255_mul (by omega), UInt8.ofNat_toNat]

theorem mix_all (old new : UInt8) : mix 255 old new = new := by
  have hnew := new.toNat_lt
  have hsum : old.toNat * (255 - (255 : UInt8).toNat) + new.toNat * (255 : UInt8).toNat =
      new.toNat * 255 := by simp
  rw [mix, hsum, div255_mul (by omega), UInt8.ofNat_toNat]

theorem mixPremultiplied_all (old new : UInt8) : mixPremultiplied 255 old new = new := by
  have hnew := new.toNat_lt
  have hsum : old.toNat * (255 - (255 : UInt8).toNat) + new.toNat * 255 = new.toNat * 255 := by simp
  rw [mixPremultiplied, hsum, div255_mul (by omega), Nat.min_eq_right (by omega),
    UInt8.ofNat_toNat]

end Channel

namespace Pixel

/-- The pixel with this stored alpha, if its format has one. -/
def withAlpha (p : Pixel) (alpha : UInt8) : Pixel :=
  match p with
  | gray8a v _ => gray8a v alpha
  | rgb32 r g b _ => rgb32 r g b alpha
  | gray8 .. | rgb565 .. | rgb24 .. => p

theorem withAlpha_alpha (p : Pixel) : p.withAlpha p.alpha = p := by cases p <;> rfl

theorem alpha_convert (p : Pixel) (f : PixelFormat) :
    (p.convert f).alpha = if f.hasAlpha then p.alpha else 255 := by
  cases f <;> rfl

/-- Keeping every channel keeps the pixel, packed or not. -/
theorem channelwise_old (p : Pixel) (c : Rgba) : p.channelwise (fun old _ => old) c = p := by
  cases p with
  | rgb565 word => exact congrArg rgb565 (Channel.pack565_channels word)
  | _ => rfl

/-- Taking over a colour is being replaced by it, but for the stored alpha. -/
theorem recolor_eq_withAlpha (p : Pixel) (c : Rgba) :
    p.recolor c = (ofRgba p.format c).withAlpha p.alpha := by
  cases p <;> rfl

theorem blend_none (p : Pixel) (c : Rgba) : p.blend c 0 = p := by
  have hmix : Channel.mix 0 = fun old _ => old := by
    funext old new
    exact Channel.mix_none old new
  rw [blend, hmix, channelwise_old]

theorem blend_all (p : Pixel) (c : Rgba) : p.blend c 255 = p.recolor c := by
  have hmix : Channel.mix 255 = fun _ new => new := by
    funext old new
    exact Channel.mix_all old new
  rw [blend, hmix, recolor]

/-- Taking the colour over at full alpha comes to what mixing would. -/
theorem blend_ite (p : Pixel) (c : Rgba) (alpha : UInt8) :
    (if alpha = 255 then p.recolor c else p.blend c alpha) = p.blend c alpha := by
  split
  case isTrue h => rw [h, blend_all]
  case isFalse => rfl

theorem blendPremultiplied_all (p : Pixel) (c : Rgba) :
    p.blendPremultiplied c 255 = p.recolor c := by
  have hmix : Channel.mixPremultiplied 255 = fun _ new => new := by
    funext old new
    exact Channel.mixPremultiplied_all old new
  rw [blendPremultiplied, hmix, recolor]

/-- Blending all of the product in leaves the product. -/
theorem blend_multiply_all (p : Pixel) (c : Rgba) :
    p.blend (p.multiply c).toRgba 255 = p.multiply c := by
  have hformat : (p.multiply c).format = p.format := format_channelwise ..
  have halpha : (p.multiply c).alpha = p.alpha := alpha_channelwise ..
  have hsame : ofRgba p.format (p.multiply c).toRgba = p.multiply c := convert_eq_self hformat
  rw [blend_all, recolor_eq_withAlpha, hsame, ← halpha, withAlpha_alpha]

end Pixel

end Raster
