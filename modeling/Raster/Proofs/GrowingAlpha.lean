import Raster.Proofs.Premultiplication
import Raster.Proofs.WholeCopy

/-!
# Blending by a growing alpha

The more of a colour is blended over a rectangle the nearer every stored level comes to that of the
colour, from what was there at no alpha to the colour itself at full alpha. No level turns back on
the way, neither where the operator has a short cut for the ends of the scale nor where the bits
that RGB565 has no room for are dropped.
-/

namespace Raster

namespace Pixel

/-- The levels of the colour channels as they are stored, the fields of a packed word apart. -/
def levels : Pixel → List Nat
  | gray8 v => [v.toNat]
  | gray8a v _ => [v.toNat]
  | rgb565 word => [word.toNat / 2048, word.toNat / 32 % 64, word.toNat % 32]
  | rgb24 r g b => [r.toNat, g.toNat, b.toNat]
  | rgb32 r g b _ => [r.toNat, g.toNat, b.toNat]

/-- With a growing alpha the pixel goes from `old` to the levels of `goal`. Every level moves in one
direction, and the stored alpha does not move. -/
structure MovesTo (new : UInt8 → Pixel) (old goal : Pixel) : Prop where
  start : new 0 = old
  stop : (new 255).levels = goal.levels
  inTurn : ∀ alpha beta, alpha ≤ beta →
    Channel.EachInTurn old.levels (new alpha).levels (new beta).levels goal.levels
  alpha_eq : ∀ alpha, (new alpha).alpha = old.alpha

theorem levels_withAlpha (p : Pixel) (alpha : UInt8) : (p.withAlpha alpha).levels = p.levels := by
  cases p <;> rfl

theorem levels_pack565 (r g b : UInt8) : (rgb565 (Channel.pack565 r g b)).levels =
    [r.toNat / 8, g.toNat / 4, b.toNat / 8] := by
  have hr := r.toNat_lt
  have hg := g.toNat_lt
  have hb := b.toNat_lt
  simp only [levels, Channel.toNat_pack565, List.cons.injEq, and_true]
  omega

/-- The fields of a word are the top bits of its widened channels. -/
theorem levels_rgb565 (word : UInt16) : (rgb565 word).levels =
    [(Channel.red565 word).toNat / 8, (Channel.green565 word).toNat / 4,
      (Channel.blue565 word).toNat / 8] := by
  rw [← levels_pack565, Channel.pack565_channels]

theorem levels_recolor (p : Pixel) (c : Rgba) :
    (p.recolor c).levels = (ofRgba p.format c).levels := by
  rw [recolor_eq_withAlpha, levels_withAlpha]

theorem blend_inTurn {alpha beta : UInt8} (h : alpha ≤ beta) (p : Pixel) (c : Rgba) :
    Channel.EachInTurn p.levels (p.blend c alpha).levels (p.blend c beta).levels
      (ofRgba p.format c).levels := by
  have hmix (old new : UInt8) := Channel.mix_inTurn (UInt8.le_iff_toNat_le.mp h) old new
  cases p with
  | gray8 v => exact .cons (hmix v c.luminance) .nil
  | gray8a v _ => exact .cons (hmix v c.luminance) .nil
  | rgb565 word =>
      simp only [blend, channelwise, format, ofRgba, levels_pack565]
      rw [levels_rgb565]
      exact .cons ((hmix _ c.r).div 8) (.cons ((hmix _ c.g).div 4) (.cons ((hmix _ c.b).div 8) .nil))
  | rgb24 r g b => exact .cons (hmix r c.r) (.cons (hmix g c.g) (.cons (hmix b c.b) .nil))
  | rgb32 r g b _ => exact .cons (hmix r c.r) (.cons (hmix g c.g) (.cons (hmix b c.b) .nil))

theorem blend_movesTo (p : Pixel) (c : Rgba) : MovesTo (p.blend c) p (ofRgba p.format c) where
  start := p.blend_none c
  stop := by rw [blend_all, levels_recolor]
  inTurn _ _ h := blend_inTurn h p c
  alpha_eq _ := alpha_channelwise ..

end Pixel

namespace RegionOperator

theorem transform_blend (c : Rgba) (p : Pixel) : (blend c).transform p = p.blend c c.alpha := by
  simp only [transform, byAlpha, Pixel.blend_ite]
  split
  case isTrue hclear => rw [hclear, Pixel.blend_none]
  case isFalse => rfl

end RegionOperator

namespace Surface

/-- Blending a colour over a rectangle within any surface succeeds at every alpha, and every pixel
of the rectangle moves to the colour as the alpha grows. -/
theorem blendRect_movesTo (s : Surface) (r : Rect) (c : Rgb) (hne : r.isEmpty = false)
    (hr : s.Holds r) :
    ∃ out : UInt8 → Surface,
      (∀ alpha, s.paint (Paint.blendRect r ⟨c.r, c.g, c.b, alpha⟩) = (.ok (), out alpha)) ∧
      ∀ x y, r.Covers x y → ∃ (old : Pixel) (new : UInt8 → Pixel),
        s.stored? x y = some old ∧ (∀ alpha, (out alpha).stored? x y = some (new alpha)) ∧
        Pixel.MovesTo new old (.ofRgba s.format c.toRgba) := by
  have hblend (alpha : UInt8) :=
    RegionOperator.paint_changes hne hr (.blend ⟨c.r, c.g, c.b, alpha⟩) trivial
  choose out hpaint hchanges using hblend
  refine ⟨out, hpaint, fun x y hc => ?_⟩
  obtain ⟨hx, hy⟩ := lt_of_covers hr hc
  refine ⟨_, fun alpha => (Pixel.stored s.format s.data (s.place x y)).blend c.toRgba alpha,
    stored?_eq hx hy, fun alpha => ?_, ?_⟩
  · rw [(hchanges alpha).stored?_eq hc, stored?_eq hx hy, Option.map_some,
      RegionOperator.transform_blend]
    cases Pixel.stored s.format s.data (s.place x y) <;> rfl
  · have hmoves := (Pixel.stored s.format s.data (s.place x y)).blend_movesTo c.toRgba
    rwa [Pixel.format_stored] at hmoves

/-- Words turned sideways, whose fields are narrower than the colour. -/
theorem blendRect_movesTo_words :
    ∃ out : UInt8 → Surface,
      (∀ alpha, turnedWords.paint (Paint.blendRect ⟨1, 0, 2, 2⟩ ⟨200, 3, 90, alpha⟩) =
        (.ok (), out alpha)) ∧
      ∃ (old : Pixel) (new : UInt8 → Pixel), turnedWords.stored? 2 1 = some old ∧
        (∀ alpha, (out alpha).stored? 2 1 = some (new alpha)) ∧
        Pixel.MovesTo new old (.ofRgba .rgb565 ⟨200, 3, 90, 255⟩) := by
  obtain ⟨out, hout, hmoves⟩ :=
    blendRect_movesTo turnedWords ⟨1, 0, 2, 2⟩ ⟨200, 3, 90⟩ (by decide) (by decide)
  exact ⟨out, hout, hmoves 2 1 (by decide)⟩

end Surface

end Raster
