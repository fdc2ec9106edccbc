import Raster.Proofs.Crop
import Raster.Proofs.PixelInvariant
import Raster.Proofs.RenderFailure

/-!
# Opaque canvases

A canvas starts opaque. Painting moves colours and leaves the stored alpha alone, so that a pixel
can only lose its opacity where it is replaced as a whole: by a colour, or by a layer that brings
an alpha of its own.
-/

namespace Raster

namespace Pixel

/-- The pixel covers all that is below it. A format without alpha has no others. -/
def IsOpaque (p : Pixel) : Prop := p.alpha = 255

variable {p : Pixel}

theorem IsOpaque.channelwise (h : p.IsOpaque) (f : UInt8 → UInt8 → UInt8) (c : Rgba) :
    (p.channelwise f c).IsOpaque :=
  (alpha_channelwise f p c).trans h

theorem IsOpaque.inverted (h : p.IsOpaque) : p.inverted.IsOpaque := by cases p <;> exact h

theorem IsOpaque.dithered (h : p.IsOpaque) (x y : Nat) : (p.dithered x y).IsOpaque := by
  cases p <;> exact h

theorem isOpaque_ofRgba (f : PixelFormat) {c : Rgba} (hc : c.alpha = 255) :
    (ofRgba f c).IsOpaque := by
  cases f with
  | gray8a | rgb32 => exact hc
  | gray8 | rgb565 | rgb24 => rfl

theorem isOpaque_of_hasAlpha (h : p.format.hasAlpha = false) : p.IsOpaque := by
  cases p with
  | gray8a | rgb32 => cases h
  | gray8 | rgb565 | rgb24 => rfl

theorem IsOpaque.convert (h : p.IsOpaque) (f : PixelFormat) : (p.convert f).IsOpaque :=
  isOpaque_ofRgba f h

end Pixel

/-! ## Operators between two surfaces -/

namespace Paint

variable {l : Layout} {old new p : Pixel}

theorem isOpaque_of_composite {mode : AlphaMode} (hold : old.IsOpaque)
    (h : composite mode old new = some p) : p.IsOpaque := by
  unfold composite at h
  split at h
  · cases h
  · split at h
    case isTrue hnew =>
      cases h
      exact Pixel.IsOpaque.convert hnew old.format
    case isFalse =>
      cases mode <;> cases h <;> exact hold.channelwise _ _

theorem isOpaque_of_tint {c : Rgba} {alpha : UInt8} (hold : old.IsOpaque)
    (h : tint old c alpha = some p) : p.IsOpaque := by
  rw [tint] at h
  split at h
  · cases h
  · split at h <;> cases h <;> exact hold.channelwise _ _

variable {src : Surface} {r : Rect} {sx sy : Nat}

theorem ditherBlit_keeps_isOpaque (hsrc : src.All Pixel.IsOpaque) :
    (ditherBlit src r sx sy).Keeps (l.WithAll Pixel.IsOpaque) := by
  cases hgray : l.format.isGray with
  | true =>
      exact ditherBlit_keeps r sx sy hgray hsrc fun p u v _ hp => (hp.convert l.format).dithered u v
  | false =>
      refine .get_bind fun s hs => ?_
      obtain ⟨rfl, -⟩ := hs
      refine .ite (fun h => ?_) fun _ => blit_keeps r sx sy hsrc fun p _ hp => hp.convert s.format
      rw [hgray] at h
      cases h

theorem compositeBlit_keeps_isOpaque (op : String) (mode : AlphaMode) (dither : Bool) :
    (compositeBlit op mode dither src r sx sy).Keeps (l.WithAll Pixel.IsOpaque) := by
  refine compositeBlit_keeps (Q := fun _ => True) op mode dither r sx sy
    (fun _ _ _ _ => trivial) ?_
  intro old new p u v _ hold _ hp
  have hopaque := isOpaque_of_composite hold hp
  split
  · exact hopaque.dithered u v
  · exact hopaque

theorem maskBlit_keeps_isOpaque (c : Rgba) :
    (maskBlit src r sx sy c).Keeps (l.WithAll Pixel.IsOpaque) :=
  maskBlit_keeps r sx sy c fun _ _ _ _ hold hp => isOpaque_of_tint hold hp

end Paint

/-! ## Operations -/

/-- Whether layers of this format keep an opaque canvas opaque: the mode blends, or the layer has
no alpha to copy. -/
def BlitMode.KeepsOpaque (mode : BlitMode) (alpha : UInt8) (layer : PixelFormat) : Prop :=
  match mode with
  | .alpha | ditherAlpha | premultiplied | ditherPremultiplied | gray | color => True
  | add => alpha ≤ 254
  | copy | dither => layer.hasAlpha = false
  | invert => False

theorem BlitMode.transfer_keeps_isOpaque {l : Layout} {mode : BlitMode} {src : Surface}
    {alpha : UInt8} (h : mode.KeepsOpaque alpha src.format) (r : Rect) (sx sy : Nat)
    (color : Rgba) :
    (mode.transfer src r sx sy alpha color).Keeps (l.WithAll Pixel.IsOpaque) := by
  have hplain (hsrc : src.format.hasAlpha = false) : src.All Pixel.IsOpaque := fun x _ y _ =>
    Pixel.isOpaque_of_hasAlpha (by rw [Pixel.format_stored, hsrc])
  cases mode with
  | copy => exact Paint.blit_keeps r sx sy (hplain h) fun p _ hp => hp.convert l.format
  | dither => exact Paint.ditherBlit_keeps_isOpaque (hplain h)
  | add =>
      refine Paint.addBlit_keeps (Q := fun _ => True) r sx sy alpha (fun _ _ _ _ => trivial) ?_ ?_
      · rintro rfl
        exact absurd (show (255 : UInt8) ≤ 254 from h) (by decide)
      · exact fun old new _ hold _ => hold.channelwise _ _
  | alpha | ditherAlpha | premultiplied | ditherPremultiplied =>
      exact Paint.compositeBlit_keeps_isOpaque _ _ _
  | gray | color => exact Paint.maskBlit_keeps_isOpaque _
  | invert => exact h.elim

namespace Op

/-- The operations that cannot make an opaque canvas transparent. -/
def KeepsOpaque : Op → Prop
  | replaceRect _ color => color.alpha = 255
  | blit layer _ _ mode alpha _ => mode.KeepsOpaque alpha layer.format
  | _ => True

variable {l : Layout} {P : Pixel → Prop} {I : Surface → Prop}

theorem requireAddressable_keeps (name : String) (r : Rect) : (requireAddressable name r).Keeps I :=
  .ite (fun _ => .pure ()) fun _ => .throw _

theorem clip_keeps {name : String} {r : Rect} {k : Rect → Paint Unit} (hk : ∀ r, (k r).Keeps I) :
    Paint.Keeps (do k (← clip name r)) I := by
  rw [clip]
  simp only [bind_assoc, pure_bind]
  exact .bind (requireAddressable_keeps name r) fun _ => .get_bind fun _ _ =>
    .ofOption_bind fun _ _ => hk _

theorem apply_keeps_isOpaque {op : Op} (h : op.KeepsOpaque) :
    op.apply.Keeps (l.WithAll Pixel.IsOpaque) := by
  have hgray (v : UInt8) : (Pixel.ofGray l.format v).IsOpaque := Pixel.isOpaque_ofRgba _ rfl
  cases op with
  | fill v => exact Paint.fill_keeps fun p _ hp => hp.channelwise _ _
  | fillRect r v =>
      exact clip_keeps fun part => Paint.fillRect_keeps part fun p _ hp => hp.channelwise _ _
  | replaceRect r c =>
      exact clip_keeps fun part => Paint.replaceRect_keeps part (Pixel.isOpaque_ofRgba _ h)
  | blendGray r c =>
      exact clip_keeps fun part => Paint.mapByAlpha_keeps part _
        (fun p => ⟨Pixel.format_channelwise .., Pixel.format_channelwise ..⟩)
        fun p _ hp => ⟨hp.channelwise _ _, hp.channelwise _ _⟩
  | blendColor r c =>
      exact clip_keeps fun part => Paint.mapByAlpha_keeps part _
        (fun p => ⟨Pixel.format_channelwise .., Pixel.format_channelwise ..⟩)
        fun p _ hp => ⟨hp.channelwise _ _, hp.channelwise _ _⟩
  | multiplyRect r c =>
      exact clip_keeps fun part => Paint.mapByAlpha_keeps part _
        (fun p => ⟨Pixel.format_channelwise .., Pixel.format_channelwise ..⟩)
        fun p _ hp => ⟨hp.channelwise _ _, hp.channelwise _ _⟩
  | invertRect r =>
      exact clip_keeps fun part => Paint.invertRect_keeps part fun p _ hp => hp.inverted
  | hatchRect r stripe v alpha =>
      refine clip_keeps fun part => Paint.hatchRect_keeps part stripe fun _ p _ hp => ?_
      split <;> exact hp.channelwise _ _
  | roundedCorner r border radius v smooth =>
      refine .bind (requireAddressable_keeps _ r) fun _ => .ite (fun _ => ?_) fun _ => ?_
      · exact Paint.smoothCorner_keeps r border radius (hgray v) fun p alpha _ hp =>
          hp.channelwise _ _
      · exact Paint.roundedCorner_keeps r border radius (hgray v)
  | blit layer x y mode alpha color =>
      refine .bind (requireAddressable_keeps _ _) fun _ => .get_bind fun _ _ =>
        .ofOption_bind fun part _ => ?_
      cases part with
      | none => exact .pure ()
      | some q =>
          cases hsrc : layer.render with
          | error e => rw [putLayer, hsrc]; exact .throw e
          | ok src =>
              rw [putLayer, hsrc]
              refine BlitMode.transfer_keeps_isOpaque ?_ q _ _ color
              rwa [Layer.format_of_render hsrc]

end Op

/-! ## Scenes -/

namespace Scene

theorem applyAll_keeps {I : Surface → Prop} {index : Nat} {a b : Surface} {ops : List Op}
    (hops : ∀ op ∈ ops, op.apply.Keeps I) (ha : I a) (h : applyAll index a ops = .ok b) : I b := by
  induction ops generalizing index a with
  | nil =>
      cases h
      exact ha
  | cons op ops ih =>
      obtain ⟨-, hrest⟩ := applyAll_cons_eq_ok h
      have hfirst := hops op List.mem_cons_self a ha
      exact ih (fun o ho => hops o (List.mem_cons_of_mem op ho)) hfirst hrest

/-- If none of its operations can make it transparent, the canvas of a scene is opaque at the end,
whatever the operations are and in whatever order they come. -/
theorem render_isOpaque {s : Scene} (hops : ∀ op ∈ s.ops, op.KeepsOpaque) {a : Surface}
    (h : s.render = .ok a) :
    ∀ x y, x < a.width → y < a.height → ∃ p, a.pixel? x y = some p ∧ p.IsOpaque := by
  intro x y hx hy
  rw [render] at h
  cases hcanvas : s.canvas with
  | error e => simp [hcanvas] at h
  | ok blank =>
      rw [hcanvas] at h
      have hlayout := layout_of_applyAll h
      obtain ⟨hwidth, hheight, -⟩ := shape_of_canvas hcanvas
      rw [hlayout] at hx hy
      obtain ⟨husable, hformat, hpixel⟩ := canvas_ok (by omega) (by omega) hcanvas
      have hstart : blank.All Pixel.IsOpaque := by
        rw [Surface.all_iff husable]
        intro x y p hp
        obtain ⟨hx, hy⟩ := Surface.lt_of_pixel? hp
        cases (hpixel x (by omega) y (by omega)).symm.trans hp
        exact Pixel.isOpaque_ofRgba _ rfl
      have hend := applyAll_keeps (I := blank.WithAll Pixel.IsOpaque)
        (fun op hop => op.apply_keeps_isOpaque (hops op hop)) ⟨rfl, hstart⟩ h
      have husable' : a.Usable := hlayout ▸ husable
      have hp := Surface.pixel?_eq_some husable' (hlayout ▸ hx) (hlayout ▸ hy)
      exact ⟨_, hp, hend.all.of_pixel? hp⟩

/-- A scene on whose canvas clear and half clear layers are put in most modes, and some that
reach beyond it. -/
def glazed : Scene where
  name := "glazed"
  width := 3
  height := 2
  format := .rgb32
  rotation := .clockwise
  background := 90
  ops := [.replaceRect ⟨1, 0, 5, 1⟩ ⟨9, 8, 7, 255⟩, .multiplyRect ⟨0, 0, 2, 2⟩ ⟨200, 3, 90, 70⟩,
    .roundedCorner ⟨0, 0, 4, 3⟩ 1 1 40 true,
    .blit ⟨2, 2, .rgb32, .upsideDown, .gradient ⟨1, 2, 3, 0⟩ ⟨200, 100, 50, 255⟩ false⟩ 1 1
      .ditherPremultiplied 255 .black,
    .blit ⟨3, 1, .rgb32, .upright, .solid ⟨5, 6, 7, 0⟩⟩ 0 0 .add 254 .black,
    .blit ⟨2, 2, .rgb565, .clockwise, .checker 1 ⟨1, 2, 3, 0⟩ .black⟩ 1 0 .copy 255 .black,
    .blit ⟨1, 1, .gray8a, .upright, .solid ⟨5, 6, 7, 99⟩⟩ 2 1 .color 255 ⟨30, 40, 50, 128⟩]

theorem render_isOpaque_glazed :
    (∀ op ∈ glazed.ops, op.KeepsOpaque) ∧ ∃ a, glazed.render = .ok a ∧
      ∀ x y, x < a.width → y < a.height → ∃ p, a.pixel? x y = some p ∧ p.IsOpaque := by
  have hops : ∀ op ∈ glazed.ops, op.KeepsOpaque := by
    simp [glazed, Op.KeepsOpaque, BlitMode.KeepsOpaque, PixelFormat.hasAlpha]
  have hok : glazed.render.isOk = true := by decide +kernel
  cases ha : glazed.render with
  | error e => simp [ha, Except.isOk, Except.toBool] at hok
  | ok a => exact ⟨hops, a, rfl, render_isOpaque hops ha⟩

end Scene

end Raster
