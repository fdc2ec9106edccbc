import Raster.Proofs.Combination
import Raster.Proofs.LayoutIndependence
import Raster.Proofs.PixelInvariant

/-!
# The palette of sixteen grays

A gray surface whose luminances are multiples of 17 stays one, however often it is filled and
hatched with grays of the palette, inverted, or painted with dithered pictures.
-/

namespace Raster

namespace Dither

/-- The grays that dithering leaves. -/
def OnPalette (v : UInt8) : Prop := 17 ∣ v.toNat

instance (v : UInt8) : Decidable (OnPalette v) := inferInstanceAs (Decidable (17 ∣ v.toNat))

theorem onPalette_quantize (x y : Nat) (v : UInt8) : OnPalette (quantize x y v) := by
  unfold quantize
  extract_lets scaled level
  rw [OnPalette, UInt8.toNat_ofNat', Nat.mod_eq_of_lt (by omega)]
  rcases Nat.le_total 255 (level * 17) with h | h
  · rw [Nat.min_eq_left h]
    decide
  · rw [Nat.min_eq_right h]
    exact Nat.dvd_mul_left 17 level

theorem OnPalette.complement {v : UInt8} (h : OnPalette v) : OnPalette (~~~v) := by
  have hv := v.toNat_lt
  have hsize : UInt8.size = 256 := rfl
  rw [OnPalette] at h ⊢
  rw [UInt8.toNat_not]
  omega

end Dither

/-! ## Luminances of gray pixels -/

namespace Pixel

/-- The luminance of the pixel is a gray of the palette. -/
def OnPalette (p : Pixel) : Prop := Dither.OnPalette p.luminance

instance : DecidablePred OnPalette := fun p =>
  inferInstanceAs (Decidable (Dither.OnPalette p.luminance))

variable {p : Pixel} {f : PixelFormat}

theorem luminance_ofRgba (hf : f.isGray = true) (c : Rgba) :
    (ofRgba f c).luminance = c.luminance := by
  cases f with
  | gray8 => exact luminance_gray8 _
  | gray8a => exact luminance_gray8a _ _
  | _ => cases hf

theorem luminance_ofGray (hf : f.isGray = true) (v : UInt8) : (ofGray f v).luminance = v :=
  (luminance_ofRgba hf _).trans (Channel.luma_self v)

theorem luminance_recolor (hp : p.format.isGray = true) (c : Rgba) :
    (p.recolor c).luminance = c.luminance := by
  cases p with
  | gray8 v => exact luminance_gray8 _
  | gray8a v alpha => exact luminance_gray8a _ _
  | _ => cases hp

theorem luminance_dithered (hp : p.format.isGray = true) (x y : Nat) :
    (p.dithered x y).luminance = Dither.quantize x y p.luminance := by
  cases p with
  | gray8 v => simp [dithered]
  | gray8a v alpha => simp [dithered]
  | _ => cases hp

theorem luminance_inverted (hp : p.format.isGray = true) :
    p.inverted.luminance = ~~~p.luminance := by
  cases p with
  | gray8 v => simp [inverted]
  | gray8a v alpha => simp [inverted]
  | _ => cases hp

theorem onPalette_dithered (hp : p.format.isGray = true) (x y : Nat) :
    (p.dithered x y).OnPalette := by
  rw [OnPalette, luminance_dithered hp]
  exact Dither.onPalette_quantize x y _

theorem onPalette_recolor (hp : p.format.isGray = true) {v : UInt8} (hv : Dither.OnPalette v) :
    (p.recolor (.gray v)).OnPalette := by
  rw [OnPalette, luminance_recolor hp]
  rwa [show (Rgba.gray v).luminance = v from Channel.luma_self v]

theorem OnPalette.convert (h : p.OnPalette) (hf : f.isGray = true) : (p.convert f).OnPalette := by
  rwa [OnPalette, Pixel.convert, luminance_ofRgba hf]

theorem OnPalette.inverted (h : p.OnPalette) (hp : p.format.isGray = true) :
    p.inverted.OnPalette := by
  rw [OnPalette, luminance_inverted hp]
  exact Dither.OnPalette.complement h

end Pixel

/-! ## Calls -/

namespace Call

variable {σ : Type} {sources : σ → Surface} {l : Layout}

/-- The calls that paint with grays of the palette, dither, or copy from surfaces on the palette. -/
def OnPalette (sources : σ → Surface) : Call σ → Prop
  | fill v | fillRect _ v | roundedCorner _ _ _ v => Dither.OnPalette v
  | hatchRect _ _ v alpha => (alpha = 0 ∨ alpha = 255) ∧ Dither.OnPalette v
  | invertRect _ | ditherBlit .. | ditherAlphaBlit .. | ditherPremultipliedBlit .. => True
  | blit src .. | invertBlit src .. => (sources src).All Pixel.OnPalette
  | _ => False

theorem ditheredComposite_keeps (hgray : l.format.isGray = true) (op : String) (mode : AlphaMode)
    (src : Surface) (r : Rect) (sx sy : Nat) :
    (Paint.compositeBlit op mode true src r sx sy).Keeps (l.WithAll Pixel.OnPalette) := by
  refine Paint.compositeBlit_keeps (Q := fun _ => True) op mode true r sx sy
    (fun _ _ _ _ => trivial) ?_
  intro old new p u v hold _ _ hp
  exact Pixel.onPalette_dithered (by rw [Paint.format_of_composite hp, hold, hgray]) u v

theorem paint_keeps (hgray : l.format.isGray = true) {call : Call σ}
    (hcall : call.OnPalette sources) : (call.paint sources).Keeps (l.WithAll Pixel.OnPalette) := by
  have hpixel {p : Pixel} (hp : p.format = l.format) : p.format.isGray = true := hp ▸ hgray
  cases call with
  | fill v => exact Paint.fill_keeps fun p hp _ => Pixel.onPalette_recolor (hpixel hp) hcall
  | fillRect r v =>
      exact Paint.fillRect_keeps r fun p hp _ => Pixel.onPalette_recolor (hpixel hp) hcall
  | invertRect r => exact Paint.invertRect_keeps r fun p hp h => h.inverted (hpixel hp)
  | hatchRect r stripe v alpha =>
      obtain ⟨halpha, hv⟩ := hcall
      refine Paint.hatchRect_keeps r stripe fun hzero p hp _ => ?_
      rw [if_pos (halpha.resolve_left hzero)]
      exact Pixel.onPalette_recolor (hpixel hp) hv
  | roundedCorner r border radius v =>
      refine Paint.roundedCorner_keeps r border radius ?_
      rwa [Pixel.OnPalette, Pixel.luminance_ofGray hgray]
  | blit src r sx sy => exact Paint.blit_keeps r sx sy hcall fun p _ h => h.convert hgray
  | ditherBlit src r sx sy =>
      refine Paint.ditherBlit_keeps (Q := fun _ => True) r sx sy hgray (fun _ _ _ _ => trivial) ?_
      intro p u v _ _
      exact Pixel.onPalette_dithered (by rw [Pixel.format_convert, hgray]) u v
  | ditherAlphaBlit src r sx sy => exact ditheredComposite_keeps hgray _ _ _ r sx sy
  | ditherPremultipliedBlit src r sx sy => exact ditheredComposite_keeps hgray _ _ _ r sx sy
  | invertBlit src r sx sy =>
      exact Paint.invertBlit_keeps r sx sy hcall fun p hp h => h.inverted (hpixel hp)
  | _ => exact hcall.elim

end Call

namespace Surface

variable {σ : Type} {sources : σ → Surface} {s : Surface} {calls : List (Call σ)}

theorem trace_keeps {I : Surface → Prop} (hcalls : ∀ call ∈ calls, (call.paint sources).Keeps I)
    (hs : I s) : ∀ after ∈ s.trace sources calls, I after.2 := by
  induction calls generalizing s with
  | nil => simp [trace]
  | cons call calls ih =>
      have hfirst := hcalls call List.mem_cons_self s hs
      intro after hafter
      rw [trace] at hafter
      rcases List.mem_cons.mp hafter with rfl | hrest
      · exact hfirst
      · split at hrest
        · cases hrest
        · exact ih (fun c hc => hcalls c (List.mem_cons_of_mem _ hc)) hfirst after hrest

/-- A gray surface on the palette is still on it after every call of a run of such calls, also
after those that are refused. -/
theorem trace_onPalette (hgray : s.format.isGray = true) (hs : s.All Pixel.OnPalette)
    (hcalls : ∀ call ∈ calls, call.OnPalette sources) :
    ∀ after ∈ s.trace sources calls,
      after.2.toLayout = s.toLayout ∧ after.2.All Pixel.OnPalette := by
  intro after hafter
  have hafter := trace_keeps (I := s.WithAll Pixel.OnPalette)
    (fun _ hcall => Call.paint_keeps hgray (hcalls _ hcall)) ⟨rfl, hs⟩ after hafter
  exact ⟨hafter.layout_eq, hafter.all⟩

/-- Two by three gray points with alpha on the palette, seen from the side. -/
def panel : Surface where
  nativeWidth := 2
  nativeHeight := 3
  pixelStride := 2
  stride := 5
  format := .gray8a
  rotation := .clockwise
  data := #[0, 255, 17, 9, 1, 34, 0, 255, 255, 1, 51, 3, 238, 128]
  fits := ⟨by decide, by decide, by decide, by decide⟩

/-- As many points on the palette without alpha, upright. -/
def inks : Surface where
  toLayout := packed 3 2 .gray8
  data := #[0, 17, 34, 221, 238, 255]
  fits := packed_fits (by decide)

/-- A picture with colour and part of its alpha, or one on the palette. -/
def pictures (colored : Bool) : Surface := if colored then Combination.glass else inks

/-- A run that fills, draws, inverts and dithers, and is refused once for its formats. -/
def inkRun : List (Call Bool) :=
  [.fillRect ⟨0, 0, 2, 1⟩ 34, .hatchRect ⟨1, 0, 2, 2⟩ 1 68 255, .roundedCorner ⟨0, 0, 2, 2⟩ 1 1 102,
    .invertRect ⟨0, 1, 3, 1⟩, .ditherPremultipliedBlit true ⟨1, 1, 2, 1⟩ 0 0,
    .ditherAlphaBlit false ⟨0, 0, 3, 2⟩ 0 0, .blit false ⟨0, 0, 2, 2⟩ 1 0]

theorem trace_onPalette_panel :
    (panel.trace pictures inkRun).map (·.1) = [.ok (), .ok (), .ok (), .ok (), .ok (),
      .error (.refused (.incompatibleFormats "dither_alpha_blit_from" .gray8a .gray8)), .ok ()] ∧
    ∀ after ∈ panel.trace pictures inkRun,
      after.2.toLayout = panel.toLayout ∧ after.2.All Pixel.OnPalette := by
  refine ⟨by decide +kernel, trace_onPalette rfl (by decide) ?_⟩
  simp only [inkRun, List.forall_mem_cons, Call.OnPalette]
  exact ⟨by decide, by decide, by decide, trivial, trivial, trivial, by decide, nofun⟩

end Surface

end Raster
