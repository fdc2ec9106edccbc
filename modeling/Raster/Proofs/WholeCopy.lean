import Raster.Proofs.Agreement

/-!
# Copies of whole surfaces

A copy of a whole surface shows the converted pixels, whatever the strides and rotations of the
two. Where the other format has room for all that a pixel says, copying back restores the surface.
-/

namespace Raster

theorem Layout.Usable.of_size_eq {l k : Layout} (hl : l.Usable) (hstride : k.stride < Offset.bound)
    (hwidth : k.width = l.width) (hheight : k.height = l.height) : k.Usable := by
  obtain ⟨hpos, -⟩ := usable_iff.mp hl
  rw [← hwidth, ← hheight] at hpos
  exact usable_iff.mpr ⟨hpos, hstride⟩

/-- Copying a whole surface onto one that is seen in the same size succeeds, and every point shows
the converted pixel. -/
theorem Paint.blit_whole {src dst : Surface} (hsrc : src.Usable) (hdst : dst.Usable)
    (hwidth : dst.width = src.width) (hheight : dst.height = src.height) :
    ∃ out, dst.paint (blit src src.bounds 0 0) = (.ok (), out) ∧ out.toLayout = dst.toLayout ∧
      ∀ x y, out.pixel? x y = (src.pixel? x y).map (·.convert dst.format) := by
  have hbounds : dst.bounds = src.bounds := by
    rw [Layout.bounds, Layout.bounds, hwidth, hheight]
  have hr : dst.Holds src.bounds := hbounds ▸ Layout.holds_bounds dst.toLayout
  have hregion : src.Holds ⟨0, 0, src.bounds.w, src.bounds.h⟩ := Layout.holds_bounds src.toLayout
  obtain ⟨hout, hrw⟩ := blit_hasEffect hdst hsrc src.bounds 0 0 dst rfl
  rw [Effect.onRegions_eq_transfer hr hregion] at hout hrw
  refine ⟨_, Prod.ext hout rfl, hrw.layout_eq, fun x y => ?_⟩
  by_cases hin : x < src.width ∧ y < src.height
  · obtain ⟨_, new, -, -, hnew, hpixel⟩ := hrw.transfer_point (Surface.addressed hsrc)
      (Surface.addressed hdst) hr hregion hin.1 hin.2
    simp only [Layout.bounds, Rect.sized, Nat.zero_add, Option.getD_some] at hnew hpixel
    rw [hnew, Option.map_some]
    exact hpixel
  · have hout : ¬ (x < dst.width ∧ y < dst.height) := by rwa [hwidth, hheight]
    rw [hrw.pixel?_eq, Surface.pixel?_eq_none hin, Surface.pixel?_eq_none hout]
    rfl

namespace Surface

/-- Copied to a surface of a wider format and on to one of its own format, a surface comes back
as it was. -/
theorem copied_back {src wide back : Surface} (hsrc : src.Usable)
    (hwide : wide.stride < Offset.bound) (hback : back.stride < Offset.bound)
    (hwideSize : wide.width = src.width ∧ wide.height = src.height)
    (hbackSize : back.width = src.width ∧ back.height = src.height)
    (hwidens : src.format.widensTo wide.format = true) (hformat : back.format = src.format) :
    ∃ copy result, wide.paint (Paint.blit src src.bounds 0 0) = (.ok (), copy) ∧
      back.paint (Paint.blit copy copy.bounds 0 0) = (.ok (), result) ∧ src.Agrees result := by
  have hwide := hsrc.of_size_eq hwide hwideSize.1 hwideSize.2
  have hback := hsrc.of_size_eq hback hbackSize.1 hbackSize.2
  obtain ⟨copy, hcopy, hcopyLayout, hcopied⟩ :=
    Paint.blit_whole hsrc hwide hwideSize.1 hwideSize.2
  have hwidth : copy.width = src.width := hcopyLayout ▸ hwideSize.1
  have hheight : copy.height = src.height := hcopyLayout ▸ hwideSize.2
  obtain ⟨result, hresult, hlayout, hpixel⟩ := Paint.blit_whole (hcopyLayout ▸ hwide) hback
    (hbackSize.1.trans hwidth.symm) (hbackSize.2.trans hheight.symm)
  refine ⟨copy, result, hcopy, hresult, ⟨hsrc, hlayout ▸ hback, ?_, ?_, ?_⟩, fun x y => ?_⟩
  · rw [hlayout, hformat]
  · rw [hlayout, hbackSize.1]
  · rw [hlayout, hbackSize.2]
  · rw [hpixel, hcopied, hformat]
    cases hp : src.pixel? x y with
    | none => rfl
    | some p =>
        have hp := format_of_pixel? hp
        rw [Option.map_some, Option.map_some, ← hp, Pixel.convert_convert (hp ▸ hwidens)]

/-- A turned surface of 3 × 2 points in RGB565, with a byte behind each scanline. -/
def turnedWords : Surface where
  nativeWidth := 2
  nativeHeight := 3
  pixelStride := 2
  stride := 5
  format := .rgb565
  rotation := .clockwise
  data := #[1, 2, 3, 4, 0, 5, 6, 7, 8, 0, 9, 10, 11, 12]
  fits := ⟨by decide, by decide, by decide, by decide⟩

def upsideDownChannels : Surface where
  nativeWidth := 3
  nativeHeight := 2
  pixelStride := 3
  stride := 13
  format := .rgb32
  rotation := .upsideDown
  data := Array.replicate 25 7
  fits := ⟨by decide, by decide, by decide, by decide⟩

def packedWords : Surface where
  toLayout := packed 3 2 .rgb565
  data := Array.replicate 12 0
  fits := packed_fits (by decide)

theorem copied_back_words :
    ∃ copy result,
      upsideDownChannels.paint (Paint.blit turnedWords turnedWords.bounds 0 0) = (.ok (), copy) ∧
      packedWords.paint (Paint.blit copy copy.bounds 0 0) = (.ok (), result) ∧
      turnedWords.Agrees result :=
  copied_back ⟨by decide, by decide, by decide⟩ (by decide) (by decide) ⟨by decide, by decide⟩
    ⟨by decide, by decide⟩ (by decide) (by decide)

end Surface

end Raster
