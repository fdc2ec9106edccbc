import Raster.Pixel

/-! # Conversions that lose nothing -/

namespace Raster

namespace Channel

theorem widen5_div {n : Nat} (h : n < 32) : (widen5 (.ofNat n)).toNat / 8 = n := by
  have hall : ∀ m : Fin 32, (widen5 (.ofNat m)).toNat / 8 = m := by decide
  exact hall ⟨n, h⟩

theorem widen6_div {n : Nat} (h : n < 64) : (widen6 (.ofNat n)).toNat / 4 = n := by
  have hall : ∀ m : Fin 64, (widen6 (.ofNat m)).toNat / 4 = m := by decide
  exact hall ⟨n, h⟩

theorem toNat_pack565 (r g b : UInt8) :
    (pack565 r g b).toNat = r.toNat / 8 * 2048 + g.toNat / 4 * 32 + b.toNat / 8 := by
  have hr := r.toNat_lt
  have hg := g.toNat_lt
  have hb := b.toNat_lt
  rw [pack565, UInt16.toNat_ofNat', Nat.mod_eq_of_lt (by omega)]

theorem pack565_channels (word : UInt16) :
    pack565 (red565 word) (green565 word) (blue565 word) = word := by
  have hword := word.toNat_lt
  unfold pack565 red565 green565 blue565
  rw [widen5_div (by omega), widen6_div (by omega), widen5_div (by omega)]
  have hsum : word.toNat / 2048 * 2048 + word.toNat / 32 % 64 * 32 + word.toNat % 32 =
      word.toNat := by omega
  rw [hsum, UInt16.ofNat_toNat]

end Channel

/-- The formats that have room for all that a pixel of this format says. -/
def PixelFormat.widensTo : (narrow wide : PixelFormat) → Bool
  | .gray8, wide => wide != .rgb565
  | .gray8a, wide => wide == .gray8a || wide == .rgb32
  | .rgb565, wide => wide == .rgb565 || wide == .rgb24 || wide == .rgb32
  | .rgb24, wide => wide == .rgb24 || wide == .rgb32
  | .rgb32, wide => wide == .rgb32

namespace Pixel

theorem convert_eq_self {p : Pixel} {f : PixelFormat} (h : p.format = f) : p.convert f = p := by
  subst h
  cases p with
  | gray8 v => exact congrArg gray8 (Channel.luma_self v)
  | gray8a v alpha => exact congrArg (gray8a · alpha) (Channel.luma_self v)
  | rgb565 word => exact congrArg rgb565 (Channel.pack565_channels word)
  | rgb24 r g b => rfl
  | rgb32 r g b alpha => rfl

theorem convert_convert {p : Pixel} {f : PixelFormat} (h : p.format.widensTo f = true) :
    (p.convert f).convert p.format = p := by
  by_cases hsame : p.format = f
  · rw [convert_eq_self hsame, convert_eq_self rfl]
  cases p with
  | gray8 v =>
      cases f with
      | gray8 => exact absurd rfl hsame
      | rgb565 => cases h
      | _ => simp [convert, toRgba, ofRgba, format, Rgba.gray, Rgba.luminance, Channel.luma_self]
  | gray8a v alpha =>
      cases f with
      | rgb32 => exact congrArg (gray8a · alpha) (Channel.luma_self v)
      | gray8a => exact absurd rfl hsame
      | _ => cases h
  | rgb565 word =>
      cases f with
      | rgb24 => exact congrArg rgb565 (Channel.pack565_channels word)
      | rgb32 => exact congrArg rgb565 (Channel.pack565_channels word)
      | rgb565 => exact absurd rfl hsame
      | _ => cases h
  | rgb24 r g b =>
      cases f with
      | rgb32 => rfl
      | rgb24 => exact absurd rfl hsame
      | _ => cases h
  | rgb32 r g b alpha =>
      cases f with
      | rgb32 => exact absurd rfl hsame
      | _ => cases h

/-- No other pair of formats has this: each loses some pixel. -/
theorem widensTo_iff {f g : PixelFormat} :
    f.widensTo g = true ↔ ∀ p : Pixel, p.format = f → (p.convert g).convert f = p := by
  constructor
  · rintro h p rfl
    exact convert_convert h
  · intro h
    cases f with
    | gray8 =>
        have hkept := h (gray8 1) rfl
        revert hkept
        cases g <;> decide
    | gray8a =>
        have hkept := h (gray8a 1 0) rfl
        revert hkept
        cases g <;> decide
    | rgb565 =>
        have hkept := h (rgb565 1) rfl
        revert hkept
        cases g <;> decide
    | rgb24 =>
        have hkept := h (rgb24 1 0 0) rfl
        revert hkept
        cases g <;> decide
    | rgb32 =>
        have hkept := h (rgb32 1 0 0 0) rfl
        revert hkept
        cases g <;> decide

/-- A gray has the same byte everywhere in the formats that store nothing but channels. -/
theorem recolor_gray_of_solid {p : Pixel} (h : p.format = .gray8 ∨ p.format = .rgb24)
    (v : UInt8) : p.recolor (.gray v) = ofBytes p.format fun _ => v := by
  cases p with
  | gray8 w => exact congrArg gray8 (Channel.luma_self v)
  | rgb24 r g b => rfl
  | _ => simp [format] at h

end Pixel

end Raster
