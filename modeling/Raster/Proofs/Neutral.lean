import Raster.Proofs.InvertedCopy
import Raster.Proofs.Mixing
import Raster.Proofs.Shortcuts
import Raster.Proofs.WholeCopy

/-!
# Operators that change no byte

Multiplying by white, blending a clear colour in, inverting twice and adding what is there already
leave every pixel as it is. In RGB565 this needs that the widened channels are packed to the word
they came from.
-/

namespace Raster

namespace Pixel

/-- A gray whose channels leave every channel alone leaves every pixel alone. -/
theorem channelwise_gray_eq_self {f : UInt8 → UInt8 → UInt8} {v : UInt8}
    (hf : ∀ old, f old v = old) (p : Pixel) (alpha : UInt8) :
    p.channelwise f ⟨v, v, v, alpha⟩ = p := by
  have hluminance : (⟨v, v, v, alpha⟩ : Rgba).luminance = v := Channel.luma_self v
  cases p <;> simp [channelwise, hluminance, hf, Channel.pack565_channels]

theorem multiply_white (p : Pixel) (alpha : UInt8) : p.multiply ⟨255, 255, 255, alpha⟩ = p :=
  channelwise_gray_eq_self Channel.mul_full p alpha

theorem blend_toRgba (p : Pixel) (alpha : UInt8) : p.blend p.toRgba alpha = p := by
  cases p <;>
    simp [blend, channelwise, toRgba, Rgba.gray, Rgba.luminance, Channel.luma_self,
      Channel.mix_self, Channel.pack565_channels]

end Pixel

/-! ## Operators on one surface -/

namespace Surface

variable {s t u : Surface} {r : Rect} {f g : Pixel → Pixel}

/-- A rectangle that is changed twice is changed by both transforms in turn. -/
theorem Changes.trans (h : s.Changes t r f) (h' : t.Changes u r g) :
    s.Changes u r fun p => g (f p) where
  layout_eq := h'.layout_eq.trans h.layout_eq
  size_eq := h'.size_eq.trans h.size_eq
  changed x y hc := by
    obtain ⟨i, p, hi, hp, ht⟩ := h.changed x y hc
    obtain ⟨j, q, hj, hq, hu⟩ := h'.changed x y hc
    rw [h.layout_eq] at hj hq hu
    cases hi.symm.trans hj
    cases ht.symm.trans hq
    exact ⟨i, p, hi, hp, hu⟩
  untouched n hn := by
    rw [h'.untouched n (by rw [Layout.pixelBytes, h.layout_eq]; exact hn), h.untouched n hn]

theorem Changes.eq_self (h : s.Changes t r f) (hne : r.isEmpty = false) (hr : s.Holds r)
    (hf : ∀ p, f p = p) : t = s :=
  (h.congr (g := fun p => p) fun p _ => (hf p).symm).unique (Paint.skip_changes hne hr)

end Surface

namespace RegionOperator

variable {s : Surface} {r : Rect}

theorem paint_eq_self (hne : r.isEmpty = false) (hr : s.Holds r) (op : RegionOperator)
    (hop : op.Applies s.format) (hkeep : ∀ p, op.transform p = p) :
    s.paint (op.paint r) = (.ok (), s) := by
  obtain ⟨out, hout, hchanges⟩ := op.paint_changes hne hr hop
  rw [hout, hchanges.eq_self hne hr hkeep]

theorem multiply_white_transform (p : Pixel) :
    (multiply ⟨255, 255, 255⟩).transform p = p :=
  p.multiply_white 255

theorem multiplyBlend_white_transform (alpha : UInt8) (p : Pixel) :
    (multiplyBlend ⟨255, 255, 255, alpha⟩).transform p = p := by
  simp only [transform, byAlpha, Pixel.multiply_white, Pixel.blend_toRgba, ite_self]

theorem blend_clear_transform {c : Rgba} (hc : c.alpha = 0) (p : Pixel) :
    (blend c).transform p = p :=
  if_pos hc

theorem paint_invert_invert (hne : r.isEmpty = false) (hr : s.Holds r) :
    s.paint (do Paint.invertRect r; Paint.invertRect r) = (.ok (), s) := by
  obtain ⟨once, honce, hfirst⟩ := invert.paint_changes hne hr trivial
  have hr' : once.Holds r := hfirst.layout_eq ▸ hr
  obtain ⟨twice, htwice, hsecond⟩ := invert.paint_changes hne hr' trivial
  have hsame : twice = s := (hfirst.trans hsecond).eq_self hne hr Pixel.inverted_inverted
  rw [paint] at honce htwice
  rw [Surface.paint_bind, honce]
  exact htwice.trans (by rw [hsame])

end RegionOperator

/-! ## Adding what is there -/

namespace Surface

/-- The region of `src` at `(sx, sy)` stores the same pixels as `r`, point by point. -/
def SamePixels (s src : Surface) (r : Rect) (sx sy : Nat) : Prop :=
  ∀ i j, i < r.w → j < r.h →
    ∃ p, s.pixel? (r.x + i) (r.y + j) = some p ∧ src.pixel? (sx + i) (sy + j) = some p

namespace SamePixels

variable {s src out : Surface} {r : Rect} {sx sy : Nat} (h : s.SamePixels src r sx sy)

include h

/-- A transfer that keeps a pixel met by itself keeps what the region shares with the rectangle. -/
theorem transfer_keeps {f : Pixel → Pixel → Nat → Nat → Option Pixel}
    (hf : ∀ p u v, f p p u v = some p)
    (hrw : s.Rewrites out (Effect.transfer src r sx sy f).change) :
    s.Rewrites out fun _ _ p => p := by
  refine hrw.congr fun x y old hold => ?_
  simp only [Effect.transfer, Effect.region, Effect.of_change]
  split
  case isFalse => rfl
  case isTrue hc =>
    obtain ⟨⟨hleft, hright⟩, htop, hbottom⟩ := hc
    obtain ⟨new, hnew, hnew'⟩ := h (x - r.x) (y - r.y) (by omega) (by omega)
    rw [Nat.add_sub_cancel' hleft, Nat.add_sub_cancel' htop] at hnew
    cases hold.symm.trans hnew
    simp only [Effect.transferred, hnew', Option.bind_some, Option.getD_some, hf]

variable (hne : r.isEmpty = false)

include hne

theorem holds : s.Holds r ∧ src.Holds ⟨sx, sy, r.w, r.h⟩ := by
  have hsides := Rect.sides_pos hne
  obtain ⟨p, hp, hp'⟩ := h (r.w - 1) (r.h - 1) (by omega) (by omega)
  have hlast := lt_of_pixel? hp
  have hlast' := lt_of_pixel? hp'
  exact ⟨⟨by omega, by omega⟩, by dsimp only; omega, by dsimp only; omega⟩

theorem format_eq : s.format = src.format := by
  obtain ⟨hw, hh⟩ := Rect.sides_pos hne
  obtain ⟨p, hp, hp'⟩ := h 0 0 hw hh
  exact (format_of_pixel? hp).symm.trans (format_of_pixel? hp')

theorem exists_addressing :
    (∃ a, s.addressing? = some a) ∧ ∃ a, src.addressing? = some a := by
  obtain ⟨hw, hh⟩ := Rect.sides_pos hne
  obtain ⟨p, hp, hp'⟩ := h 0 0 hw hh
  exact ⟨exists_addressing_of_pixel? hp, exists_addressing_of_pixel? hp'⟩

end SamePixels

end Surface

namespace SourceBlend

theorem value_self (alpha : UInt8) (p : Pixel) : (uniform alpha).value p p = p := by
  simp only [value, blended, Pixel.convert_eq_self rfl, Pixel.blend_toRgba, ite_self]

/-- Adding what a rectangle stores already changes nothing, by whatever alpha. -/
theorem addBlit_eq_self {s src : Surface} {r : Rect} {sx sy : Nat} (hne : r.isEmpty = false)
    (h : s.SamePixels src r sx sy) (alpha : UInt8) :
    s.paint (Paint.addBlit src r sx sy alpha) = (.ok (), s) := by
  obtain ⟨hr, hregion⟩ := h.holds hne
  obtain ⟨⟨a, ha⟩, a', ha'⟩ := h.exists_addressing hne
  obtain ⟨hw, hh⟩ := Paint.nativeSides_pos hne hr
  have haddressed : s.Addressed := Surface.addressed_of_addressing? hw hh ha
  obtain ⟨hout, hrw⟩ := addBlit_value ha ha' hne hr hregion alpha (h.format_eq hne) s rfl
  have hkeeps := h.transfer_keeps (fun p _ _ => congrArg some (value_self alpha p)) hrw
  exact Prod.ext hout (hkeeps.unique haddressed (.refl s))

end SourceBlend

namespace Surface

/-- On a rectangle within any surface, multiplying by white, with whatever alpha, blending a clear
colour in and inverting twice succeed and leave the surface as it was, byte by byte. So does adding
a region that stores the same pixels, by whatever alpha and however it is laid out. -/
theorem neutral_unchanged (s : Surface) (r : Rect) (hne : r.isEmpty = false) (hr : s.Holds r) :
    s.paint (Paint.multiplyRect r ⟨255, 255, 255⟩) = (.ok (), s) ∧
    (∀ alpha, s.paint (Paint.multiplyBlendRect r ⟨255, 255, 255, alpha⟩) = (.ok (), s)) ∧
    (∀ c : Rgba, c.alpha = 0 → s.paint (Paint.blendRect r c) = (.ok (), s)) ∧
    s.paint (do Paint.invertRect r; Paint.invertRect r) = (.ok (), s) ∧
    ∀ (src : Surface) (sx sy : Nat) (alpha : UInt8), s.SamePixels src r sx sy →
      s.paint (Paint.addBlit src r sx sy alpha) = (.ok (), s) := by
  refine ⟨?white, ?whiteByAlpha, ?clear, ?inverted, ?added⟩
  case white =>
    exact RegionOperator.paint_eq_self hne hr (.multiply ⟨255, 255, 255⟩) trivial
      RegionOperator.multiply_white_transform
  case whiteByAlpha =>
    intro alpha
    exact RegionOperator.paint_eq_self hne hr (.multiplyBlend ⟨255, 255, 255, alpha⟩) trivial
      (RegionOperator.multiplyBlend_white_transform alpha)
  case clear =>
    intro c hc
    exact RegionOperator.paint_eq_self hne hr (.blend c) trivial
      (RegionOperator.blend_clear_transform hc)
  case inverted => exact RegionOperator.paint_invert_invert hne hr
  case added =>
    intro src sx sy alpha hsame
    exact SourceBlend.addBlit_eq_self hne hsame alpha

theorem uprightPair_samePixels : uprightPair.SamePixels turnedPair ⟨1, 0, 1, 1⟩ 1 0 := by
  intro i j hi hj
  have hpixel := pixel?_eq_some (s := uprightPair) (x := 1 + i) (y := 0 + j)
    ⟨by decide, by decide, by decide⟩ (Nat.add_lt_add_left hi 1) (Nat.add_lt_add_left hj 0)
  exact ⟨_, hpixel, (uprightPair_agrees.pixel?_eq _ _).trans hpixel⟩

/-- Words turned sideways, and a gray with alpha added to from a surface laid out otherwise. -/
theorem neutral_unchanged_words :
    turnedWords.paint (Paint.multiplyBlendRect ⟨1, 0, 2, 2⟩ ⟨255, 255, 255, 77⟩) =
      (.ok (), turnedWords) ∧
    turnedWords.paint (do Paint.invertRect ⟨1, 0, 2, 2⟩; Paint.invertRect ⟨1, 0, 2, 2⟩) =
      (.ok (), turnedWords) ∧
    turnedWords.paint (Paint.blendRect ⟨1, 0, 2, 2⟩ ⟨1, 2, 3, 0⟩) = (.ok (), turnedWords) ∧
    uprightPair.paint (Paint.addBlit turnedPair ⟨1, 0, 1, 1⟩ 1 0 77) = (.ok (), uprightPair) := by
  obtain ⟨-, hwhite, hclear, hinverted, -⟩ :=
    neutral_unchanged turnedWords ⟨1, 0, 2, 2⟩ (by decide) (by decide)
  obtain ⟨-, -, -, -, hadded⟩ :=
    neutral_unchanged uprightPair ⟨1, 0, 1, 1⟩ (by decide) (by decide)
  exact ⟨hwhite 77, hinverted, hclear _ rfl, hadded turnedPair 1 0 77 uprightPair_samePixels⟩

end Surface

end Raster
