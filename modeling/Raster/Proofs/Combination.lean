import Raster.Proofs.Copying

/-!
# Operators between two surfaces, pixel by pixel

Every operator that looks at pixels gives each pixel of the rectangle one new value, which depends
on the old pixel, on the source pixel at the same place of the source region, and on where that
is. Here the new values are written out by the channel.
-/

namespace Raster

/-- The operators that combine the pixels of two surfaces, with their arguments. -/
inductive Combination where
  | dither
  | add (alpha : UInt8)
  | invert
  /-- Compositing by the source's alpha, dithered or not. -/
  | composite (mode : AlphaMode) (dithered : Bool)
  | maskGray (c : GrayAlpha)
  | maskColor (c : Rgba)

namespace Combination

def paint : Combination → (src : Surface) → (r : Rect) → (sx sy : Nat) → Paint Unit
  | dither => Paint.ditherBlit
  | add alpha => fun src r sx sy => Paint.addBlit src r sx sy alpha
  | invert => Paint.invertBlit
  | composite .straight false => Paint.alphaBlit
  | composite .straight true => Paint.ditherAlphaBlit
  | composite .premultiplied false => Paint.premultipliedBlit
  | composite .premultiplied true => Paint.ditherPremultipliedBlit
  | maskGray c => fun src r sx sy => Paint.maskBlit src r sx sy c.toRgba
  | maskColor c => fun src r sx sy => Paint.maskBlit src r sx sy c

/-- The formats between which the operator combines pixels: it neither refuses them nor falls
back on a plain copy or on nothing. -/
def Combines (destination source : PixelFormat) : Combination → Prop
  | dither => destination.isGray
  | add alpha => destination = source ∧ alpha ≠ 0 ∧ alpha ≠ 255
  | invert => destination = source
  | composite .. => destination.compositesFrom source
  | maskGray _ | maskColor _ => True

/-- Old channels and the colour's, added in the proportions `255 - a` and `a`. -/
def weighted (a : Nat) (old : Pixel) (c : Rgba) : Pixel :=
  old.channelwise
    (fun d s => .ofNat (Channel.div255 (d.toNat * (255 - a) + s.toNat * a))) c

/-- The proportion `255 - a` of the old channels, and all of the colour's on top. -/
def covered (a : Nat) (old : Pixel) (c : Rgba) : Pixel :=
  old.channelwise
    (fun d s => .ofNat (min 255 (Channel.div255 (d.toNat * (255 - a) + s.toNat * 255)))) c

/-- The colour painted over `old` as far as the mask and its own alpha let it. -/
def masked (old mask : Pixel) (c : Rgba) : Pixel :=
  let a := Channel.div255 (mask.coverage.toNat * c.alpha.toNat)
  if a = 0 then old else if a = 255 then old.recolor c else weighted a old c

/-- The bits of every colour channel flipped, under the alpha that is there. -/
def flipped : Pixel → Pixel
  | .gray8 v => .gray8 (v ^^^ 0xff)
  | .gray8a v alpha => .gray8a (v ^^^ 0xff) alpha
  | .rgb565 word => .rgb565 (word ^^^ 0xffff)
  | .rgb24 r g b => .rgb24 (r ^^^ 0xff) (g ^^^ 0xff) (b ^^^ 0xff)
  | .rgb32 r g b alpha => .rgb32 (r ^^^ 0xff) (g ^^^ 0xff) (b ^^^ 0xff) alpha

/-- The new value of a pixel, given the old one and the source pixel at `(u, v)`. -/
def step (op : Combination) (old new : Pixel) (u v : Nat) : Pixel :=
  match op with
  | dither => (new.convert old.format).dithered u v
  | add alpha => weighted alpha.toNat old new.toRgba
  | invert => flipped new
  | composite mode dithered =>
    if new.alpha = 0 then old
    else
      let out := if new.alpha = 255 then new.convert old.format
        else match mode with
          | .straight => weighted new.alpha.toNat old new.toRgba
          | .premultiplied => covered new.alpha.toNat old new.toRgba
      if dithered ∧ old.format.isGray then out.dithered u v else out
  | maskGray c => masked old new c.toRgba
  | maskColor c => masked old new c

end Combination

namespace Surface

/-- `out` is `dst` with one step made at every pixel of `r`, on the pixel and on the one at the
same place of the region of `src` at `(sx, sy)`, and no other byte changed. -/
structure Combines (dst out src : Surface) (r : Rect) (sx sy : Nat)
    (step : Pixel → Pixel → Nat → Nat → Pixel) : Prop where
  layout_eq : out.toLayout = dst.toLayout
  size_eq : out.data.size = dst.data.size
  stepped : ∀ i j, i < r.w → j < r.h → ∃ old new, dst.pixel? (r.x + i) (r.y + j) = some old ∧
    src.pixel? (sx + i) (sy + j) = some new ∧
    out.pixel? (r.x + i) (r.y + j) = some (step old new (sx + i) (sy + j))
  untouched : ∀ n, (∀ x y, r.Covers x y → ¬ dst.ByteOf x y n) → out.data[n]? = dst.data[n]?

end Surface

theorem Channel.div255_le {n : Nat} (h : n ≤ 255 * 255) : div255 n ≤ 255 := by
  unfold div255
  omega

theorem Channel.toNat_mul (a b : UInt8) : (mul a b).toNat = div255 (a.toNat * b.toNat) := by
  have ha := a.toNat_lt
  have hb := b.toNat_lt
  have hle := div255_le (Nat.mul_le_mul (show a.toNat ≤ 255 by omega) (show b.toNat ≤ 255 by omega))
  rw [mul, UInt8.toNat_ofNat', Nat.mod_eq_of_lt (by omega)]

theorem Pixel.dithered_eq_self {p : Pixel} (h : p.format.isGray = false) (x y : Nat) :
    p.dithered x y = p := by
  cases p with
  | gray8 v => cases h
  | gray8a v alpha => cases h
  | _ => rfl

namespace Combination

open Effect

variable {l : Layout} {src : Surface} {r : Rect} {sx sy : Nat}

theorem getD_tint (old new : Pixel) (c : Rgba) :
    (Paint.tint old c (Channel.mul new.coverage c.alpha)).getD old = masked old new c := by
  have hmul := Channel.toNat_mul new.coverage c.alpha
  have hzero : Channel.mul new.coverage c.alpha = 0 ↔
      Channel.div255 (new.coverage.toNat * c.alpha.toNat) = 0 := by
    rw [← hmul, ← UInt8.toNat_inj]
    rfl
  have hfull : Channel.mul new.coverage c.alpha = 255 ↔
      Channel.div255 (new.coverage.toNat * c.alpha.toNat) = 255 := by
    rw [← hmul, ← UInt8.toNat_inj]
    rfl
  simp only [Paint.tint, masked, hzero, hfull]
  split
  · rfl
  · split
    · rfl
    · rw [Option.getD_some, Pixel.blend, weighted, ← hmul]
      rfl

theorem blend_eq_weighted (p : Pixel) (c : Rgba) (alpha : UInt8) :
    p.blend c alpha = weighted alpha.toNat p c :=
  rfl

theorem blendPremultiplied_eq_covered (p : Pixel) (c : Rgba) (alpha : UInt8) :
    p.blendPremultiplied c alpha = covered alpha.toNat p c :=
  rfl

theorem inverted_eq_flipped (p : Pixel) : p.inverted = flipped p := by
  have hchannel (v : UInt8) : ~~~v = v ^^^ 0xff := UInt8.xor_neg_one.symm
  have hword (word : UInt16) : ~~~word = word ^^^ 0xffff := UInt16.xor_neg_one.symm
  cases p <;> simp only [Pixel.inverted, flipped, hchannel, hword]

theorem getD_composite (mode : AlphaMode) (dithered : Bool) (old new : Pixel) (u v : Nat) :
    ((Paint.composite mode old new).map
        fun out => if dithered then out.dithered u v else out).getD old =
      (composite mode dithered).step old new u v := by
  have hdither (out : Pixel) (hout : out.format = old.format) :
      (if dithered then out.dithered u v else out) =
        if dithered ∧ old.format.isGray then out.dithered u v else out := by
    cases hgray : old.format.isGray with
    | true => simp
    | false => simp [Pixel.dithered_eq_self (hout ▸ hgray)]
  by_cases hzero : new.alpha = 0
  · simp [Paint.composite, step, hzero]
  by_cases hfull : new.alpha = 255
  · simpa [Paint.composite, step, hfull] using hdither _ (Pixel.format_convert ..)
  cases mode with
  | straight =>
      simpa [Paint.composite, step, hzero, hfull, blend_eq_weighted] using
        hdither (weighted new.alpha.toNat old new.toRgba) (Pixel.format_channelwise ..)
  | premultiplied =>
      simpa [Paint.composite, step, hzero, hfull, blendPremultiplied_eq_covered] using
        hdither (covered new.alpha.toNat old new.toRgba) (Pixel.format_channelwise ..)

/-! ## The effect of each operator -/

theorem transfer_congr {p : Paint Unit} {f g : Pixel → Pixel → Nat → Nat → Option Pixel}
    (hp : p.HasEffect l (transfer src r sx sy f))
    (hfg : ∀ old new u v, old.format = l.format →
      (g old new u v).getD old = (f old new u v).getD old) :
    p.HasEffect l (transfer src r sx sy g) := by
  apply Paint.HasEffect.region_congr hp
  intro x y old _ _ hold _
  simp only [transferred]
  cases src.pixel? (sx + (x - r.x)) (sy + (y - r.y)) with
  | none => rfl
  | some new => exact hfg old new _ _ hold

section Inside

variable (hl : l.Usable) (hsrc : src.Usable) (hne : r.isEmpty = false) (hr : l.Holds r)
  (hregion : src.Holds ⟨sx, sy, r.w, r.h⟩)

include hne hr hregion

omit hl hsrc in
theorem combined_eq_transfer (f : Pixel → Pixel → Nat → Nat → Option Pixel) :
    combined l src r sx sy f = transfer src r sx sy f := by
  rw [combined, hne, if_neg Bool.false_ne_true, between_eq_transfer hr hregion]

include hl hsrc

omit hne in
theorem compositeBlit_step (name : String) (mode : AlphaMode) (dithered : Bool)
    (hformats : l.format.compositesFrom src.format) :
    (Paint.compositeBlit name mode dithered src r sx sy).HasEffect l
      (transfer src r sx sy fun old new u v =>
        some ((composite mode dithered).step old new u v)) := by
  have heffect := Paint.compositeBlit_hasEffect hl hsrc name mode dithered r sx sy
  rw [Paint.compositeEffect, if_pos hformats, onRegions_eq_transfer hr hregion] at heffect
  exact transfer_congr heffect fun old new u v _ => (getD_composite mode dithered old new u v).symm

omit hne in
theorem maskBlit_step (c : Rgba) :
    (Paint.maskBlit src r sx sy c).HasEffect l
      (transfer src r sx sy fun old new _ _ => some (masked old new c)) := by
  have heffect := Paint.maskBlit_hasEffect hl hsrc r sx sy c
  rw [onRegions_eq_transfer hr hregion] at heffect
  by_cases hclear : c.alpha = 0
  · have hkeep : (Paint.maskBlit src r sx sy c).HasEffect l
        (transfer src r sx sy fun old _ _ _ => some old) := by
      rwa [if_pos hclear, ← transfer_keep] at heffect
    exact transfer_congr hkeep fun old new _ _ _ => by simp [masked, hclear, Channel.div255]
  · rw [if_neg hclear] at heffect
    exact transfer_congr heffect fun old new _ _ _ => (getD_tint old new c).symm

theorem paint_hasEffect (op : Combination) (hop : op.Combines l.format src.format) :
    (op.paint src r sx sy).HasEffect l
      (transfer src r sx sy fun old new u v => some (op.step old new u v)) := by
  cases op with
  | dither =>
      have heffect := Paint.ditherBlit_hasEffect hl hsrc r sx sy
      have hgray : l.format.isGray = true := hop
      rw [if_pos hgray, onRegions_eq_transfer hr hregion] at heffect
      exact transfer_congr heffect fun old new u v hold => by simp [step, hold]
  | add alpha =>
      obtain ⟨hformat, hzero, hfull⟩ := hop
      have heffect := Paint.addBlit_hasEffect hl hsrc r sx sy alpha
      rw [if_neg fun h => h hformat, if_neg hzero, if_neg hfull,
        combined_eq_transfer hne hr hregion] at heffect
      exact heffect
  | invert =>
      have heffect := Paint.invertBlit_hasEffect hl hsrc r sx sy
      rw [if_neg fun h => h hop, combined_eq_transfer hne hr hregion] at heffect
      exact transfer_congr heffect fun old new _ _ _ => by rw [step, inverted_eq_flipped]
  | composite mode dithered =>
      cases mode <;> cases dithered <;> exact compositeBlit_step hl hsrc hr hregion _ _ _ hop
  | maskGray c => exact maskBlit_step hl hsrc hr hregion c.toRgba
  | maskColor c => exact maskBlit_step hl hsrc hr hregion c

end Inside

/-- Between regions that lie within their surfaces every operator succeeds, makes one step at
every pixel of the rectangle and changes nothing else. -/
theorem paint_combines (op : Combination) (src dst : Surface) (r : Rect) (sx sy : Nat)
    (hsrc : src.stride < Offset.bound) (hdst : dst.stride < Offset.bound)
    (hne : r.isEmpty = false) (hr : dst.Holds r) (hregion : src.Holds ⟨sx, sy, r.w, r.h⟩)
    (hop : op.Combines dst.format src.format) :
    ∃ out, dst.paint (op.paint src r sx sy) = (.ok (), out) ∧
      dst.Combines out src r sx sy op.step := by
  have hs : src.Usable := Layout.usable_of_holds (r := ⟨sx, sy, r.w, r.h⟩) hsrc hne hregion
  have hd : dst.Usable := Layout.usable_of_holds hdst hne hr
  obtain ⟨hout, hrw⟩ := paint_hasEffect hd hs hne hr hregion op hop dst rfl
  refine ⟨_, Prod.ext hout rfl, hrw.layout_eq, hrw.size_eq, ?_,
    fun n hn => hrw.transfer_untouched (Surface.addressed hd) hn⟩
  intro i j hi hj
  obtain ⟨old, new, -, hold, hnew, hpixel⟩ := hrw.transfer_point (Surface.addressed hs)
    (Surface.addressed hd) hr hregion hi hj
  exact ⟨old, new, hold, hnew, hpixel⟩

/-- Two points of colour that let through some of what lies below, or all of it. -/
def glass : Surface where
  nativeWidth := 1
  nativeHeight := 2
  pixelStride := 1
  stride := 5
  format := .rgb32
  rotation := .counterClockwise
  data := #[90, 60, 30, 128, 1, 200, 100, 50, 0]
  fits := ⟨by decide, by decide, by decide, by decide⟩

theorem paint_combines_glass :
    ∃ out, Paint.graySource.paint ((composite .premultiplied true).paint glass ⟨1, 0, 2, 1⟩ 0 0) =
        (.ok (), out) ∧
      Paint.graySource.Combines out glass ⟨1, 0, 2, 1⟩ 0 0 (composite .premultiplied true).step :=
  paint_combines (composite .premultiplied true) glass Paint.graySource ⟨1, 0, 2, 1⟩ 0 0
    (by decide) (by decide) (by decide) (by decide) (by decide) rfl

end Combination

end Raster
