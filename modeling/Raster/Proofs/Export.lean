import Raster.Proofs.Construction
import Raster.Proofs.PixelAccess
import Raster.Surface.Image

/-!
# Reading a surface out is copying it

The export goes through the points row by row and appends four bytes for each. An upright surface
with four channels and no gaps stores its pixels in the same order, so that the exported bytes are
the ones that a copy to such a surface leaves.
-/

namespace Raster

namespace Surface

/-! ## Appending pixels -/

/-- The bytes with the four channels of a colour behind them. -/
def pushColor (bytes : Array UInt8) (c : Rgba) : Array UInt8 :=
  (((bytes.push c.r).push c.g).push c.b).push c.alpha

theorem pushColor_eq_append (bytes : Array UInt8) (c : Rgba) :
    pushColor bytes c = bytes ++ #[c.r, c.g, c.b, c.alpha] := by
  apply Array.toList_inj.mp
  simp [pushColor]

theorem size_pushColor (bytes : Array UInt8) (c : Rgba) :
    (pushColor bytes c).size = bytes.size + 4 := by
  simp [pushColor]

theorem stored_pushColor (bytes : Array UInt8) (c : Rgba) :
    Pixel.stored .rgb32 (pushColor bytes c) bytes.size = .ofRgba .rgb32 c := by
  have hbehind : Pixel.stored .rgb32 (pushColor bytes c) bytes.size =
      Pixel.stored .rgb32 #[c.r, c.g, c.b, c.alpha] 0 := by
    apply Pixel.stored_congr
    intro k _
    rw [pushColor_eq_append, Array.getElem?_append_right (Nat.le_add_right _ _),
      Nat.add_sub_cancel_left, Nat.zero_add]
  exact hbehind.trans rfl

theorem stored_pushColor_of_le {bytes : Array UInt8} {i : Nat} (h : i + 4 ≤ bytes.size) (c : Rgba) :
    Pixel.stored .rgb32 (pushColor bytes c) i = Pixel.stored .rgb32 bytes i := by
  apply Pixel.stored_congr
  intro k hk
  have hk : k < 4 := hk
  rw [pushColor_eq_append, Array.getElem?_append_left (by omega)]

/-- The first `n` points of the surface, row by row, are read out: four bytes for each, which show
its colour. -/
structure Exported (s : Surface) (bytes : Array UInt8) (n : Nat) : Prop where
  size_eq : bytes.size = 4 * n
  shown : ∀ x y, x < s.width → y * s.width + x < n → ∃ p, s.pixel? x y = some p ∧
    Pixel.stored .rgb32 bytes (4 * (y * s.width + x)) = p.convert .rgb32

variable {s t : Surface} {bytes : Array UInt8} {x y : Nat}

theorem exported_empty (s : Surface) : s.Exported #[] 0 :=
  ⟨rfl, fun _ _ _ h => absurd h (Nat.not_lt_zero _)⟩

theorem point_of_index {w x' y' : Nat} (hx : x < w) (hx' : x' < w)
    (h : y' * w + x' = y * w + x) : x' = x ∧ y' = y := by
  have hw : 0 < w := Nat.zero_lt_of_lt hx
  obtain ⟨hrow, hcolumn⟩ := (Nat.div_mod_unique hw).mpr
    ⟨show x + w * y = y * w + x by rw [Nat.add_comm, Nat.mul_comm], hx⟩
  obtain ⟨hrow', hcolumn'⟩ := (Nat.div_mod_unique hw).mpr
    ⟨show x' + w * y' = y * w + x by rw [← h, Nat.add_comm, Nat.mul_comm], hx'⟩
  exact ⟨hcolumn'.symm.trans hcolumn, hrow'.symm.trans hrow⟩

theorem Exported.push (h : s.Exported bytes (y * s.width + x)) (hx : x < s.width) {p : Pixel}
    (hp : s.pixel? x y = some p) :
    s.Exported (pushColor bytes p.toRgba) (y * s.width + (x + 1)) where
  size_eq := by
    rw [size_pushColor, h.size_eq]
    omega
  shown x' y' hx' hlt := by
    have hsize := h.size_eq
    by_cases hbefore : y' * s.width + x' < y * s.width + x
    · obtain ⟨q, hq, hstored⟩ := h.shown x' y' hx' hbefore
      exact ⟨q, hq, by rw [stored_pushColor_of_le (by omega), hstored]⟩
    · obtain ⟨rfl, rfl⟩ := point_of_index hx hx' (show y' * s.width + x' = y * s.width + x by omega)
      exact ⟨p, hp, by rw [← hsize, stored_pushColor]; rfl⟩

section Loops

variable (hs : s.Usable)

include hs

theorem rgbaRow_exported (hy : y < s.height) {n : Nat} (hn : x + n = s.width)
    (h : s.Exported bytes (y * s.width + x)) :
    ∃ out, s.rgbaRow y x bytes n = some out ∧ s.Exported out ((y + 1) * s.width) := by
  induction n generalizing x bytes with
  | zero =>
      have hend : (y + 1) * s.width = y * s.width + x := by
        rw [Nat.succ_mul]
        omega
      exact ⟨bytes, rfl, hend ▸ h⟩
  | succ n ih =>
      have hx : x < s.width := by omega
      have hp := pixel?_eq_some hs hx hy
      obtain ⟨out, hout, hexported⟩ := ih (by omega) (h.push hx hp)
      refine ⟨out, ?_, hexported⟩
      rw [rgbaRow, hp]
      exact hout

theorem rgbaRows_exported {n : Nat} (hn : y + n = s.height)
    (h : s.Exported bytes (y * s.width)) :
    ∃ out, s.rgbaRows y bytes n = some out ∧ s.Exported out (s.height * s.width) := by
  induction n generalizing y bytes with
  | zero =>
      refine ⟨bytes, rfl, ?_⟩
      rwa [← hn]
  | succ n ih =>
      obtain ⟨row, hrow, hexported⟩ :=
        rgbaRow_exported hs (show y < s.height by omega) (Nat.zero_add _) h
      obtain ⟨out, hout, hexported⟩ := ih (by omega) hexported
      refine ⟨out, ?_, hexported⟩
      rw [rgbaRows, hrow]
      exact hout

theorem toRgba8_exported (hsize : 4 * s.width * s.height < Offset.bound) :
    ∃ bytes, s.toRgba8 = .ok bytes ∧ s.Exported bytes (s.height * s.width) := by
  have hfits : s.width * s.height * 4 < Offset.bound := by
    rwa [Nat.mul_comm _ 4, ← Nat.mul_assoc]
  obtain ⟨bytes, hbytes, hexported⟩ := rgbaRows_exported hs (Nat.zero_add _)
    (Nat.zero_mul s.width ▸ s.exported_empty)
  refine ⟨bytes, ?_, hexported⟩
  rw [toRgba8, if_pos hfits, hbytes]
  rfl

end Loops

/-! ## The surface over the exported bytes -/

theorem place_packed {w h : Nat} (x y : Nat) :
    (packed w h .rgb32).place x y = 4 * (y * w + x) := by
  show y * (w * 4) + x * 4 = _
  rw [← Nat.mul_assoc, ← Nat.add_mul, Nat.mul_comm]

theorem Exported.pixel?_eq (h : s.Exported t.data (s.height * s.width)) (ht : t.Usable)
    (hlayout : t.toLayout = packed s.width s.height .rgb32) (x y : Nat) :
    t.pixel? x y = (s.pixel? x y).map (·.convert .rgb32) := by
  by_cases hin : x < s.width ∧ y < s.height
  · obtain ⟨hx, hy⟩ := hin
    have hrow := Nat.mul_le_mul_right s.width (show y + 1 ≤ s.height from hy)
    rw [Nat.succ_mul] at hrow
    obtain ⟨p, hp, hstored⟩ := h.shown x y hx (by omega)
    rw [pixel?_eq_some ht (by rw [hlayout]; exact hx) (by rw [hlayout]; exact hy), hlayout,
      place_packed, hp, Option.map_some]
    exact congrArg some hstored
  · have hin' : ¬ (x < t.width ∧ y < t.height) := by
      rw [hlayout]
      exact hin
    rw [pixel?_eq_none hin, pixel?_eq_none hin']
    rfl

theorem exists_byteOf_packed {w h i : Nat} (ht : t.Usable)
    (hlayout : t.toLayout = packed w h .rgb32) (hi : i < 4 * (h * w)) :
    ∃ x y, t.ByteOf x y i := by
  refine exists_byteOf_lines (r := 0) (n := h) ht (by rw [hlayout]; rfl)
    (by rw [hlayout]; exact Nat.le_of_eq (Nat.zero_add _)) (by omega) ?_
  rw [hlayout]
  show i < 0 * (w * 4) + h * (w * 4)
  rwa [Nat.zero_mul, Nat.zero_add, ← Nat.mul_assoc, Nat.mul_comm _ 4]

theorem getElem?_append_extract (a b : Array UInt8) (i : Nat) :
    (a ++ b.extract a.size)[i]? = if i < a.size then a[i]? else b[i]? := by
  split
  case isTrue hi => exact Array.getElem?_append_left hi
  case isFalse hi =>
    have hle := Nat.le_of_not_lt hi
    rw [Array.getElem?_append_right hle, Array.getElem?_extract, Nat.add_sub_cancel' hle]
    split
    case isTrue => rfl
    case isFalse hend => rw [Array.getElem?_eq_none (by omega)]

section Whole

variable (hs : s.Usable) (hsize : 4 * s.width * s.height < Offset.bound)

include hs hsize

omit hs in
theorem Exported.fits (h : s.Exported bytes (s.height * s.width)) :
    (packed s.width s.height .rgb32).Fits bytes.size := by
  have harea : bytes.size = s.width * PixelFormat.rgb32.bytes * s.height := by
    rw [h.size_eq, Nat.mul_comm s.height, ← Nat.mul_assoc, Nat.mul_comm s.width]
    rfl
  rw [Nat.mul_comm 4] at hsize
  rw [harea]
  exact packed_fits hsize

theorem packed_rgb32_usable {l : Layout} (hl : l = packed s.width s.height .rgb32) :
    l.Usable := by
  obtain ⟨⟨hw, hh⟩, -⟩ := Layout.usable_iff.mp hs
  have hline := Nat.le_mul_of_pos_right (4 * s.width) hh
  subst hl
  refine ⟨hw, hh, ?_⟩
  show s.width * 4 < Offset.bound
  omega

theorem Exported.exists_new (h : s.Exported bytes (s.height * s.width)) :
    ∃ image, new bytes s.width s.height .rgb32 = .ok image ∧ image.data = bytes ∧
      image.toLayout = packed s.width s.height .rgb32 := by
  have hfits := h.fits hsize
  have hstride := (packed_rgb32_usable hs hsize rfl).stride_lt
  have hbuilds : Layout.Builds (packed s.width s.height .rgb32) bytes
      (new bytes s.width s.height .rgb32) := withPixelStride_builds hfits.size_lt
  obtain ⟨image, himage⟩ := hbuilds.accepted.mpr
    ⟨Nat.lt_trans hstride Offset.bound_lt_word, hfits.sound⟩
  obtain ⟨hlayout, hdata⟩ := hbuilds.surface image himage
  exact ⟨image, himage, hdata, hlayout⟩

theorem Exported.blit_eq (h : s.Exported bytes (s.height * s.width))
    (hlayout : t.toLayout = packed s.width s.height .rgb32) :
    ∃ out, t.paint (Paint.blit s s.bounds 0 0) = (.ok (), out) ∧ out.toLayout = t.toLayout ∧
      out.data = bytes ++ t.data.extract bytes.size := by
  have ht := packed_rgb32_usable hs hsize hlayout
  obtain ⟨out, hpaint, hout, hcopied⟩ :=
    Paint.blit_whole hs ht (by rw [hlayout]; rfl) (by rw [hlayout]; rfl)
  have hrw := (Paint.blit_hasEffect ht hs s.bounds 0 0 t rfl).2
  rw [hpaint] at hrw
  obtain ⟨image, -, rfl, himage⟩ := h.exists_new hs hsize
  have hsame : image.toLayout = t.toLayout := himage.trans hlayout.symm
  have himageUsable : image.Usable := hsame ▸ ht
  refine ⟨out, hpaint, hout, Array.ext_getElem? fun i => ?_⟩
  rw [getElem?_append_extract]
  split
  case isTrue hi =>
    obtain ⟨x, y, hbyte⟩ := exists_byteOf_packed himageUsable himage (h.size_eq ▸ hi)
    have hpixel : out.pixel? x y = image.pixel? x y := by
      rw [hcopied, h.pixel?_eq himageUsable himage, hlayout]
      rfl
    exact getElem?_congr (addressed himageUsable) (hout.trans hsame.symm) hpixel hbyte
  case isFalse hi =>
    refine hrw.margin_eq i fun x y hbyte => ?_
    rw [← hsame] at hbyte
    obtain ⟨hx, hy, -, hend⟩ := (byteOf_iff (addressed himageUsable)).mp hbyte
    have hfit := place_add_le_size hx hy
    omega

end Whole

/-- The export of a surface has four bytes a point. They are the bytes that a copy of the whole
surface leaves in an upright surface with four channels and no gaps, whatever lies behind its last
pixel, and taken for the storage of such a surface they show the colours of the original. -/
theorem export_eq_blit (s : Surface) (hs : s.Usable)
    (hsize : 4 * s.width * s.height < Offset.bound) :
    ∃ bytes, s.toRgba8 = .ok bytes ∧ bytes.size = 4 * s.width * s.height ∧
      (∀ t : Surface, t.toLayout = packed s.width s.height .rgb32 →
        ∃ out, t.paint (Paint.blit s s.bounds 0 0) = (.ok (), out) ∧ out.toLayout = t.toLayout ∧
          out.data = bytes ++ t.data.extract bytes.size) ∧
      ∃ image, new bytes s.width s.height .rgb32 = .ok image ∧ image.data = bytes ∧
        ∀ x y, x < s.width → y < s.height →
          ∃ c, s.color? x y = some c ∧ image.color? x y = some c := by
  obtain ⟨bytes, hbytes, hexported⟩ := toRgba8_exported hs hsize
  obtain ⟨image, himage, hdata, hlayout⟩ := hexported.exists_new hs hsize
  refine ⟨bytes, hbytes, ?_, fun t ht => hexported.blit_eq hs hsize ht, image, himage, hdata,
    fun x y hx hy => ?_⟩
  · rw [hexported.size_eq, Nat.mul_comm s.height, Nat.mul_assoc]
  · have himageUsable := packed_rgb32_usable hs hsize hlayout
    have hshown : s.Exported image.data (s.height * s.width) := hdata.symm ▸ hexported
    have hpixel := pixel?_eq_some hs hx hy
    refine ⟨_, by rw [color?, hpixel]; rfl, ?_⟩
    rw [color?, hshown.pixel?_eq himageUsable hlayout, hpixel]
    rfl

/-- An upright surface of 3 × 2 points with four channels and one byte more than it needs. -/
def blankChannels : Surface where
  toLayout := packed 3 2 .rgb32
  data := Array.replicate 25 9
  fits := ⟨by decide, by decide, by decide, by decide⟩

/-- Words that are turned, exported and copied. -/
theorem export_eq_blit_words :
    ∃ bytes out image, turnedWords.toRgba8 = .ok bytes ∧ bytes.size = 24 ∧
      blankChannels.paint (Paint.blit turnedWords turnedWords.bounds 0 0) = (.ok (), out) ∧
      out.data = bytes ++ #[9] ∧
      new bytes 3 2 .rgb32 = .ok image ∧
      ∃ c, turnedWords.color? 2 1 = some c ∧ image.color? 2 1 = some c := by
  obtain ⟨bytes, hbytes, hsize, hblit, image, himage, -, hcolor⟩ :=
    export_eq_blit turnedWords ⟨by decide, by decide, by decide⟩ (by decide)
  obtain ⟨out, hpaint, -, hdata⟩ := hblit blankChannels rfl
  refine ⟨bytes, out, image, hbytes, hsize, hpaint, ?_, himage,
    hcolor 2 1 (by decide) (by decide)⟩
  rw [hdata, hsize]
  rfl

end Surface

end Raster
