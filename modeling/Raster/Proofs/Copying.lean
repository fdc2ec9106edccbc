import Raster.Proofs.Transfer

/-!
# Copying is the pointwise converting copy

Whether a copy moves one block of bytes, goes scanline by scanline or converts every pixel, its
result is the same.
-/

namespace Raster

theorem Layout.usable_of_holds {l : Layout} {r : Rect} (hstride : l.stride < Offset.bound)
    (hne : r.isEmpty = false) (hr : l.Holds r) : l.Usable := by
  have hpos := Rect.sides_pos hne
  obtain ⟨hright, hbottom⟩ := hr
  exact usable_iff.mpr ⟨⟨by omega, by omega⟩, hstride⟩

theorem Paint.HasEffect.paint_eq {s : Surface} (hs : s.Usable) {p q : Paint Unit} {e : Effect}
    (hp : p.HasEffect s.toLayout e) (hq : q.HasEffect s.toLayout e) : s.paint p = s.paint q := by
  obtain ⟨hpout, hprw⟩ := hp s rfl
  obtain ⟨hqout, hqrw⟩ := hq s rfl
  exact Prod.ext (hpout.trans hqout.symm) (hprw.unique (Surface.addressed hs) hqrw)

theorem Paint.HasEffect.exists_paint_eq {s : Surface} (hs : s.Usable) {p q : Paint Unit}
    {e : Effect} (hp : p.HasEffect s.toLayout e) (hq : q.HasEffect s.toLayout e)
    (he : e.outcome = .ok ()) : ∃ out, s.paint p = (.ok (), out) ∧ s.paint q = (.ok (), out) := by
  have hpaint : s.paint p = (.ok (), (s.paint p).2) := Prod.ext ((hp s rfl).1.trans he) rfl
  exact ⟨_, hpaint, (hq.paint_eq hs hp).trans hpaint⟩

namespace Surface

/-- `out` is `dst` after the region of `src` at `(sx, sy)` was copied to `r`: the pixels of `r`
are the converted source pixels, and no byte outside them differs. -/
structure Receives (dst out src : Surface) (r : Rect) (sx sy : Nat) : Prop where
  layout_eq : out.toLayout = dst.toLayout
  size_eq : out.data.size = dst.data.size
  converted : ∀ i j, i < r.w → j < r.h → ∃ p, src.pixel? (sx + i) (sy + j) = some p ∧
    out.pixel? (r.x + i) (r.y + j) = some (p.convert dst.format)
  verbatim : src.format = dst.format → ∀ i j, i < r.w → j < r.h →
    out.pixel? (r.x + i) (r.y + j) = src.pixel? (sx + i) (sy + j)
  untouched : ∀ n, (∀ x y, r.Covers x y → ¬ dst.ByteOf x y n) → out.data[n]? = dst.data[n]?

variable {src dst out : Surface} {r : Rect} {sx sy : Nat}

theorem Rewrites.receives (hsrc : src.Usable) (hdst : dst.Usable) (hr : dst.Holds r)
    (hregion : src.Holds ⟨sx, sy, r.w, r.h⟩)
    (hrw : dst.Rewrites out
      (Effect.transfer src r sx sy fun _ p _ _ => some (p.convert dst.format)).change) :
    dst.Receives out src r sx sy := by
  have hpoint {i j : Nat} (hi : i < r.w) (hj : j < r.h) :=
    hrw.transfer_point (addressed hsrc) (addressed hdst) hr hregion hi hj
  refine ⟨hrw.layout_eq, hrw.size_eq, ?_, ?_,
    fun n hn => hrw.transfer_untouched (addressed hdst) hn⟩
  · intro i j hi hj
    obtain ⟨_, p, -, -, hp, hout⟩ := hpoint hi hj
    exact ⟨p, hp, hout⟩
  · intro hformat i j hi hj
    obtain ⟨_, p, hpformat, -, hp, hout⟩ := hpoint hi hj
    rw [hout, hp, Option.getD_some, Pixel.convert_eq_self (hpformat.trans hformat)]

end Surface

namespace Paint

/-- Copying between regions that lie within their surfaces succeeds, is the pointwise converting
copy, and leaves the very surface that converting pixel by pixel leaves. -/
theorem blit_receives (src dst : Surface) (r : Rect) (sx sy : Nat)
    (hsrc : src.stride < Offset.bound) (hdst : dst.stride < Offset.bound)
    (hne : r.isEmpty = false) (hr : dst.Holds r) (hregion : src.Holds ⟨sx, sy, r.w, r.h⟩) :
    ∃ out, dst.paint (blit src r sx sy) = (.ok (), out) ∧ dst.Receives out src r sx sy ∧
      dst.paint (combine src r sx sy fun _ p _ _ => some (p.convert dst.format)) =
        (.ok (), out) := by
  have hs : src.Usable := Layout.usable_of_holds (r := ⟨sx, sy, r.w, r.h⟩) hsrc hne hregion
  have hd : dst.Usable := Layout.usable_of_holds hdst hne hr
  have hbetween : Effect.between dst.toLayout src r sx sy
      (fun _ p _ _ => some (p.convert dst.format)) =
        .transfer src r sx sy fun _ p _ _ => some (p.convert dst.format) := by
    rw [Effect.between, if_pos hr, if_pos hregion]
  have hkeeps : KeepsFormat (fun _ p _ _ => some (p.convert dst.format)) dst.format src.format := by
    rintro old new u v p - - hp
    cases hp
    exact Pixel.format_convert ..
  have hcombine : (combine src r sx sy fun _ p _ _ => some (p.convert dst.format)).HasEffect
      dst.toLayout (.transfer src r sx sy fun _ p _ _ => some (p.convert dst.format)) :=
    hbetween ▸ combine_hasEffect_of_nonempty hd hs hkeeps hne
  have hblit := blit_hasEffect hd hs r sx sy
  rw [Effect.onRegions, hne, if_neg Bool.false_ne_true, hbetween] at hblit
  obtain ⟨hout, hrw⟩ := hblit dst rfl
  have hpaint : dst.paint (blit src r sx sy) = (.ok (), (dst.paint (blit src r sx sy)).2) :=
    Prod.ext hout rfl
  exact ⟨_, hpaint, hrw.receives hs hd hr hregion, (hcombine.paint_eq hd hblit).trans hpaint⟩

/-- A gray surface of 3 × 2 points, turned, with a byte between its scanlines. -/
def graySource : Surface where
  nativeWidth := 2
  nativeHeight := 3
  pixelStride := 2
  stride := 3
  format := .gray8
  rotation := .clockwise
  data := #[10, 20, 0, 30, 40, 0, 50, 60]
  fits := ⟨by decide, by decide, by decide, by decide⟩

/-- An upright surface of 3 × 2 points in RGB565, with bytes behind its scanlines. -/
def colorTarget : Surface where
  nativeWidth := 3
  nativeHeight := 2
  pixelStride := 3
  stride := 7
  format := .rgb565
  rotation := .upright
  data := #[1, 2, 3, 4, 5, 6, 7, 8, 9, 10, 11, 12, 13, 14, 15]
  fits := ⟨by decide, by decide, by decide, by decide⟩

theorem blit_receives_turned :
    ∃ out, colorTarget.paint (blit graySource ⟨1, 0, 2, 2⟩ 1 0) = (.ok (), out) ∧
      colorTarget.Receives out graySource ⟨1, 0, 2, 2⟩ 1 0 ∧
      colorTarget.paint (combine graySource ⟨1, 0, 2, 2⟩ 1 0
        fun _ p _ _ => some (p.convert colorTarget.format)) = (.ok (), out) :=
  blit_receives graySource colorTarget ⟨1, 0, 2, 2⟩ 1 0 (by decide) (by decide) (by decide)
    (by decide) (by decide)

end Paint

end Raster
