import Raster.Proofs.AlphaEnds
import Raster.Proofs.Atomicity
import Raster.Proofs.Combination

/-!
# Shortcuts at the ends of the alpha scale

The operators that blend treat the alphas 0 and 255 on their own: they return, recolour, multiply,
copy or convert. Beside each stands here the loop that blends every pixel whatever its alpha. The
operators leave what their loops leave, with one exception by design: a solid source pixel also
brings its alpha along.
-/

namespace Raster

namespace Surface

theorem putBytes_stored {s : Surface} {start : Nat} (h : start + s.format.bytes ≤ s.data.size) :
    s.putBytes start (Pixel.stored s.format s.data start).toBytes = s := by
  have hlength : (Pixel.stored s.format s.data start).toBytes.length = s.format.bytes := by
    rw [Pixel.length_toBytes, Pixel.format_stored]
  have hdata : splice s.data start (Pixel.stored s.format s.data start).toBytes = s.data := by
    apply Array.ext_getElem?
    intro i
    rw [getElem?_splice _ _ _ _ (hlength ▸ h), hlength]
    split
    case isTrue hi =>
      rw [Pixel.getElem?_toBytes_stored h (by omega), Nat.add_sub_cancel' hi.1]
    case isFalse => rfl
  cases s
  simp only [putBytes, hdata]

end Surface

namespace Paint

variable {s : Surface} {start : Nat} {old : Pixel}

theorem ext {α : Type} {p q : Paint α} (h : ∀ s : Surface, s.paint p = s.paint q) : p = q := by
  funext s
  have hs := h s
  unfold Surface.paint at hs
  show p.run s = q.run s
  cases hp : p.run s <;> cases hq : q.run s <;> simp_all

theorem paint_overwrite_read (h : Pixel.read? s.format s.data start = some old) :
    s.paint (overwrite start old.toBytes) = (.ok (), s) := by
  obtain ⟨hfit, rfl⟩ := Pixel.read?_eq_some_iff.mp h
  have hlength : start + (Pixel.stored s.format s.data start).toBytes.length ≤ s.data.size := by
    rwa [Pixel.length_toBytes, Pixel.format_stored]
  rw [Surface.paint_overwrite hlength, Surface.putBytes_stored hfit]

theorem paint_overwrite_getD (h : Pixel.read? s.format s.data start = some old)
    (o : Option Pixel) :
    s.paint (do if let some p := o then overwrite start p.toBytes) =
      s.paint (overwrite start (o.getD old).toBytes) := by
  cases o with
  | none => exact (paint_overwrite_read h).symm
  | some p => rfl

theorem forEach_congr {step step' : Nat → Paint Unit} (h : ∀ i, step i = step' i)
    (start count : Nat) : forEach step start count = forEach step' start count := by
  rw [funext h]

/-- Combining depends on the values that the pixels come to, on every surface and whatever the
rectangle. -/
theorem combine_congr {src : Surface} {r : Rect} {sx sy : Nat}
    {f g : Pixel → Pixel → Nat → Nat → Option Pixel}
    (h : ∀ old new u v, (f old new u v).getD old = (g old new u v).getD old) :
    combine src r sx sy f = combine src r sx sy g := by
  refine bind_congr fun _ => bind_congr fun _ => bind_congr fun _ => bind_congr fun target =>
    bind_congr fun origin => ?_
  refine forEach_congr (fun j => bind_congr fun y => bind_congr fun v => ?_) _ _
  refine forEach_congr (fun i => bind_congr fun u => bind_congr fun x => ?_) _ _
  refine bind_congr fun destination => bind_congr fun source => ext fun s => ?_
  rw [pixelFrom, bind_assoc, bind_assoc, Surface.paint_get_bind, Surface.paint_get_bind]
  cases hold : Pixel.read? s.format s.data destination with
  | none => rfl
  | some old =>
      rw [s.paint_ofOption_bind rfl, s.paint_ofOption_bind rfl]
      cases Pixel.read? src.format src.data source with
      | none => rfl
      | some new =>
          rw [s.paint_ofOption_bind rfl, s.paint_ofOption_bind rfl]
          refine (paint_overwrite_getD hold _).trans ?_
          rw [h]
          exact (paint_overwrite_getD hold _).symm

theorem combine_idle {src : Surface} {r : Rect} {sx sy : Nat}
    {f : Pixel → Pixel → Nat → Nat → Option Pixel}
    (h : ∀ old new u v, (f old new u v).getD old = old) : (combine src r sx sy f).Idle s := by
  have hnone : combine src r sx sy f = combine src r sx sy fun _ _ _ _ => none :=
    combine_congr fun old new u v => h old new u v
  rw [hnone]
  refine .requireInside_bind fun _ => .require_bind fun _ => .get_bind ?_
  refine .ofOption_bind fun target => .ofOption_bind fun origin => .forEach fun j _ _ => ?_
  refine .ofOption_bind fun y => .ofOption_bind fun v => .forEach fun i _ _ => ?_
  refine .ofOption_bind fun u => .ofOption_bind fun x => .ofOption_bind fun destination =>
    .ofOption_bind fun source => ?_
  rw [pixelFrom, bind_assoc]
  exact .get_bind (.ofOption_bind fun _ => .ofOption_bind fun _ => .pure)

theorem pixel_putPixel_idle (x y : Nat) : Idle (do putPixel x y (← pixel x y)) s := by
  rw [Idle, pixel, bind_assoc, Surface.paint_get_bind]
  cases hp : s.pixel? x y with
  | none => rfl
  | some p =>
      have hin := Surface.lt_of_pixel? hp
      simp only [Surface.pixel?, if_pos hin, Option.bind_eq_bind, Option.bind_eq_some_iff] at hp
      obtain ⟨start, hstart, hread⟩ := hp
      rw [s.paint_ofOption_bind rfl, putPixel, Surface.paint_get_bind, s.paint_require_bind hin,
        s.paint_ofOption_bind hstart, paint_overwrite_read hread]

theorem mapInside_idle {r : Rect} {f : Pixel → Pixel} (hf : ∀ p, f p = p) :
    Idle (unless r.isEmpty do requireInside r; mapRegion r f) s := by
  rw [funext hf]
  cases hne : r.isEmpty with
  | true => exact .pure
  | false =>
      refine Idle.requireInside_bind fun hadmits => ?_
      have hr := Layout.holds_of_admits hadmits hne
      obtain ⟨out, hout, hchanges⟩ :=
        mapRegion_changes (f := fun p => p) hne hr fun _ hp => hp
      rw [Idle, hout]
      exact hchanges.unique (skip_changes hne hr)

end Paint

/-! ## Blending a colour in -/

/-- The operators that blend a colour into a rectangle, with their arguments. -/
inductive ColorBlend where
  | fill (c : Rgba)
  | multiply (c : Rgba)
  | hatch (stripe : Nat) (v alpha : UInt8)
  | mask (src : Surface) (sx sy : Nat) (c : Rgba)

namespace ColorBlend

def paint (r : Rect) : ColorBlend → Paint Unit
  | fill c => Paint.blendRect r c
  | multiply c => Paint.multiplyBlendRect r c
  | hatch stripe v alpha => Paint.hatchRect r stripe v alpha
  | mask src sx sy c => Paint.maskBlit src r sx sy c

/-- The operator without shortcuts: it blends every pixel that it paints, whatever the alpha. -/
def pixelwise (r : Rect) : ColorBlend → Paint Unit
  | fill c => do
    unless r.isEmpty do
      Paint.requireInside r
      Paint.mapRegion r (·.blend c c.alpha)
  | multiply c => do
    unless r.isEmpty do
      Paint.requireInside r
      Paint.mapRegion r fun p => p.blend (p.multiply c).toRgba c.alpha
  | hatch stripe v alpha => do
    unless r.isEmpty || stripe == 0 do
      Paint.requireInside r
      let period ← Paint.ofOption (Word.mul 2 stripe)
      Paint.forEach (fun j =>
          Paint.forEach (fun i => do
              let diagonal ← Paint.ofOption (Word.add i j)
              if diagonal % period < stripe then
                let x ← Paint.ofOption (Word.add r.x i)
                let y ← Paint.ofOption (Word.add r.y j)
                let p ← Paint.pixel x y
                Paint.putPixel x y (p.blend (.gray v) alpha))
            0 r.w)
        0 r.h
  | mask src sx sy c => do
    unless r.isEmpty do
      Paint.combine src r sx sy fun old p _ _ =>
        some (old.blend c (Channel.mul p.coverage c.alpha))

/-- The alpha by which the operator decides whether there is anything to do. -/
def alpha : ColorBlend → UInt8
  | fill c | multiply c | mask _ _ _ c => c.alpha
  | hatch _ _ alpha => alpha

theorem getD_tint_eq_blend (old : Pixel) (c : Rgba) (alpha : UInt8) :
    (Paint.tint old c alpha).getD old = old.blend c alpha := by
  rw [Paint.tint]
  split
  case isTrue h => rw [h, Pixel.blend_none, Option.getD_none]
  case isFalse =>
    split
    case isTrue h => rw [h, Pixel.blend_all, Option.getD_some]
    case isFalse => rfl

/-- Unless the colour is clear, the operator and its loop are the same computation. -/
theorem paint_eq_pixelwise {op : ColorBlend} (h : op.alpha ≠ 0) (r : Rect) :
    op.paint r = op.pixelwise r := by
  cases op with
  | fill c =>
      have hzero : (c.alpha == 0) = false := beq_eq_false_iff_ne.mpr h
      have hmap : (if c.alpha = 255 then Paint.mapRegion r (·.recolor c)
          else Paint.mapRegion r (·.blend c c.alpha)) = Paint.mapRegion r (·.blend c c.alpha) := by
        split
        case isTrue hfull => simp only [hfull, Pixel.blend_all]
        case isFalse => rfl
      simp only [paint, pixelwise, Paint.blendRect, hzero, Bool.or_false, hmap]
  | multiply c =>
      have hzero : (c.alpha == 0) = false := beq_eq_false_iff_ne.mpr h
      have hmap : (if c.alpha = 255 then Paint.mapRegion r (·.multiply c)
          else Paint.mapRegion r fun p => p.blend (p.multiply c).toRgba c.alpha) =
            Paint.mapRegion r fun p => p.blend (p.multiply c).toRgba c.alpha := by
        split
        case isTrue hfull => simp only [hfull, Pixel.blend_multiply_all]
        case isFalse => rfl
      simp only [paint, pixelwise, Paint.multiplyBlendRect, hzero, Bool.or_false, hmap]
  | hatch stripe v alpha =>
      have hzero : (alpha == 0) = false := beq_eq_false_iff_ne.mpr h
      simp only [paint, pixelwise, Paint.hatchRect, hzero, Bool.or_false, Pixel.blend_ite]
  | mask src sx sy c =>
      have hzero : (c.alpha == 0) = false := beq_eq_false_iff_ne.mpr h
      have hcombine : Paint.combine src r sx sy
          (fun old p _ _ => Paint.tint old c (Channel.mul p.coverage c.alpha)) =
          Paint.combine src r sx sy
            fun old p _ _ => some (old.blend c (Channel.mul p.coverage c.alpha)) :=
        Paint.combine_congr fun old new _ _ => getD_tint_eq_blend old c _
      simp only [paint, pixelwise, Paint.maskBlit, hzero, Bool.or_false, hcombine]

theorem pixelwise_idle {op : ColorBlend} (h : op.alpha = 0) (r : Rect) (s : Surface) :
    (op.pixelwise r).Idle s := by
  cases op with
  | fill c =>
      have hclear : c.alpha = 0 := h
      exact Paint.mapInside_idle fun p => by rw [hclear, Pixel.blend_none]
  | multiply c =>
      have hclear : c.alpha = 0 := h
      exact Paint.mapInside_idle fun p => by rw [hclear, Pixel.blend_none]
  | hatch stripe v alpha =>
      have hclear : alpha = 0 := h
      refine .ite .pure (.requireInside_bind fun _ => .ofOption_bind fun period => ?_)
      refine .forEach fun j _ _ => .forEach fun i _ _ => .ofOption_bind fun diagonal => ?_
      refine .ite (.ofOption_bind fun x => .ofOption_bind fun y => ?_) .pure
      simp only [hclear, Pixel.blend_none]
      exact Paint.pixel_putPixel_idle x y
  | mask src sx sy c =>
      have hclear : c.alpha = 0 := h
      refine .ite .pure (Paint.combine_idle fun old new u v => ?_)
      have hmul : Channel.mul new.coverage 0 = 0 := by simp [Channel.mul, Channel.div255]
      rw [hclear, hmul, Pixel.blend_none, Option.getD_some]

theorem paint_eq_pure {op : ColorBlend} (h : op.alpha = 0) (r : Rect) : op.paint r = pure () := by
  cases op <;> simp only [alpha] at h <;>
    simp [paint, Paint.blendRect, Paint.multiplyBlendRect, Paint.hatchRect, Paint.maskBlit, h]

/-- What lets the loop run to its end on a rectangle within the surface. -/
def Runs (s : Surface) (r : Rect) : ColorBlend → Prop
  | fill _ | multiply _ => True
  | hatch stripe _ _ => s.stride < Offset.bound ∧ 2 * stripe < Word.bound
  | mask src sx sy _ =>
    (s.stride < Offset.bound ∧ src.stride < Offset.bound) ∧ src.Holds ⟨sx, sy, r.w, r.h⟩

theorem pixelwise_ok {op : ColorBlend} {s : Surface} {r : Rect} (hne : r.isEmpty = false)
    (hr : s.Holds r) (h : op.Runs s r) : (s.paint (op.pixelwise r)).1 = .ok () := by
  cases op with
  | fill c =>
      obtain ⟨out, hout, -⟩ := Paint.mapInside_changes (f := (·.blend c c.alpha)) hne hr
        fun p hp => (Pixel.format_channelwise ..).trans hp
      rw [pixelwise, hout]
  | multiply c =>
      obtain ⟨out, hout, -⟩ := Paint.mapInside_changes
        (f := fun p => p.blend (p.multiply c).toRgba c.alpha) hne hr
        fun p hp => (Pixel.format_channelwise ..).trans hp
      rw [pixelwise, hout]
  | hatch stripe v alpha =>
      obtain ⟨hstride, hperiod⟩ := h
      have hs : s.Usable := Layout.usable_of_holds hstride hne hr
      have hrows := Paint.hatchRows_hasEffect (Surface.addressed hs) (Surface.width_lt hs)
        (Surface.height_lt hs) hr stripe v alpha
      simp only [Pixel.blend_ite] at hrows
      by_cases hstripe : stripe = 0
      · simp [pixelwise, hstripe, Surface.paint, EStateM.run_pure]
      · have hunless : (r.isEmpty || stripe == 0) = false := by simp [hne, hstripe]
        have heffect : ((hatch stripe v alpha).pixelwise r).HasEffect s.toLayout
            (if s.Holds r then .region r (Paint.hatched r stripe v alpha) else .fail .fault) := by
          simp only [pixelwise, hunless]
          exact Paint.requireInside_hasEffect hs hne fun _ =>
            .ofOption_some (Word.mul_of_lt hperiod) hrows
        rw [if_pos hr] at heffect
        exact (heffect s rfl).1
  | mask src sx sy c =>
      obtain ⟨⟨hstride, hstride'⟩, hregion⟩ := h
      have hs : s.Usable := Layout.usable_of_holds hstride hne hr
      have hsrc : src.Usable :=
        Layout.usable_of_holds (r := ⟨sx, sy, r.w, r.h⟩) hstride' hne hregion
      have hkeeps : Paint.KeepsFormat
          (fun old p _ _ => some (old.blend c (Channel.mul p.coverage c.alpha))) s.format
          src.format := by
        rintro old new u v p hold - hp
        cases hp
        exact (Pixel.format_channelwise ..).trans hold
      have heffect : Paint.HasEffect _ s.toLayout (.onRegions s.toLayout src r sx sy _) :=
        Paint.combineInside_hasEffect hs hsrc hkeeps
      rw [Effect.onRegions_eq_transfer hr hregion] at heffect
      exact (heffect s rfl).1

end ColorBlend

/-! ## Blending a source in -/

namespace Paint

variable {s src : Surface} {r : Rect} {sx sy : Nat}
  {f : Pixel → Pixel → Nat → Nat → Option Pixel}

theorem of_combine_ok {t : Surface} (h : s.paint (combine src r sx sy f) = (.ok (), t))
    (hne : r.isEmpty = false) :
    (s.Holds r ∧ src.Holds ⟨sx, sy, r.w, r.h⟩) ∧
      (∃ a, s.addressing? = some a) ∧ ∃ a, src.addressing? = some a := by
  rw [combine, requireInside, bind_assoc, Surface.paint_get_bind] at h
  have hadmits : s.admits r = true := by
    by_contra hout
    rw [s.paint_require_bind_of_not hout] at h
    cases h
  rw [s.paint_require_bind hadmits] at h
  have hadmits' : src.admits ⟨sx, sy, r.w, r.h⟩ = true := by
    by_contra hout
    rw [s.paint_require_bind_of_not hout] at h
    cases h
  rw [s.paint_require_bind hadmits', Surface.paint_get_bind] at h
  refine ⟨⟨Layout.holds_of_admits hadmits hne, Layout.holds_of_admits hadmits' hne⟩, ?_⟩
  cases ha : s.addressing? with
  | none =>
      rw [ha] at h
      cases h
  | some a =>
      rw [s.paint_ofOption_bind ha] at h
      cases ha' : src.addressing? with
      | none =>
          rw [ha'] at h
          cases h
      | some a' => exact ⟨⟨a, rfl⟩, a', rfl⟩

section Addressing

variable {a a' : Addressing} (ha : s.addressing? = some a) (ha' : src.addressing? = some a')
  (hne : r.isEmpty = false) (hr : s.Holds r) (hregion : src.Holds ⟨sx, sy, r.w, r.h⟩)

include ha ha' hne hr hregion

theorem combine_hasEffect_of_addressing (hf : KeepsFormat f s.format src.format) :
    (combine src r sx sy f).HasEffect s.toLayout (.transfer src r sx sy f) := by
  obtain ⟨hw, hh⟩ := nativeSides_pos hne hr
  obtain ⟨hw', hh'⟩ := nativeSides_pos (r := ⟨sx, sy, r.w, r.h⟩) hne hregion
  rw [combine, requireInside, bind_assoc]
  refine .get_bind fun t ht => .require_pos (ht ▸ admits_of_holds hne hr) ?_
  refine .require_pos (admits_of_holds (r := ⟨sx, sy, r.w, r.h⟩) hne hregion) ?_
  refine .get_bind fun t ht => .ofOption_some (ht ▸ ha) (.ofOption_some ha' ?_)
  exact combineRows_hasEffect (Surface.addressed_of_addressing? hw hh ha) ha
    (Surface.addressed_of_addressing? hw' hh' ha') ha' (Surface.size_lt hw hh)
    (Surface.size_lt hw' hh') hf hr hregion

theorem blit_hasEffect_of_addressing :
    (blit src r sx sy).HasEffect s.toLayout
      (.transfer src r sx sy fun _ p _ _ => some (p.convert s.format)) := by
  obtain ⟨hw, hh⟩ := nativeSides_pos hne hr
  obtain ⟨hw', hh'⟩ := nativeSides_pos (r := ⟨sx, sy, r.w, r.h⟩) hne hregion
  simp only [blit, hne]
  refine .get_bind fun t ht => ?_
  simp only [ht]
  split
  case isTrue hsame =>
    exact copyLines_hasEffect_of_admits (Surface.addressed_of_addressing? hw hh ha)
      (Surface.addressed_of_addressing? hw' hh' ha') hsame.1 hsame.2 hr hregion
      (admits_of_holds hne hr) (admits_of_holds (r := ⟨sx, sy, r.w, r.h⟩) hne hregion)
      ⟨hw, hh⟩ ⟨hw', hh'⟩
  case isFalse =>
    exact combine_hasEffect_of_addressing ha ha' hne hr hregion keepsFormat_convert

end Addressing

end Paint

/-- The operators that blend a source into a rectangle. -/
inductive SourceBlend where
  | uniform (alpha : UInt8)
  | byPixel (mode : AlphaMode)

namespace SourceBlend

def paint (src : Surface) (r : Rect) (sx sy : Nat) : SourceBlend → Paint Unit
  | uniform alpha => Paint.addBlit src r sx sy alpha
  | byPixel .straight => Paint.alphaBlit src r sx sy
  | byPixel .premultiplied => Paint.premultipliedBlit src r sx sy

/-- The pairs of formats that the operator does not refuse. -/
def Supports (destination source : PixelFormat) : SourceBlend → Prop
  | uniform _ => destination = source
  | byPixel _ => destination.compositesFrom source = true

/-- The alpha by which a source pixel is blended in. -/
def weight (new : Pixel) : SourceBlend → UInt8
  | uniform alpha => alpha
  | byPixel _ => new.alpha

/-- The pixel `old` with the source pixel blended in, whatever the alpha. -/
def blended (old new : Pixel) : SourceBlend → Pixel
  | uniform alpha => old.blend new.toRgba alpha
  | byPixel .straight => old.blend new.toRgba new.alpha
  | byPixel .premultiplied => old.blendPremultiplied new.toRgba new.alpha

def pixelwise (src : Surface) (r : Rect) (sx sy : Nat) (op : SourceBlend) : Paint Unit :=
  Paint.combine src r sx sy fun old new _ _ => some (op.blended old new)

/-- The pixel that the operator makes of `old`. -/
def value (old new : Pixel) (op : SourceBlend) : Pixel :=
  if op.weight new = 0 then old
  else if op.weight new = 255 then new.convert old.format
  else op.blended old new

/-- How `p`, which the operator leaves, and `q`, which its loop leaves, go together. A source pixel
that is not blended leaves the old one; a solid one gives its colour to both and its alpha to `p`
alone. Of colours that carry their alpha already, even a clear one adds to what is below it. -/
structure Agree (op : SourceBlend) (old new p q : Pixel) : Prop where
  none : op.weight new = 0 → op ≠ byPixel .premultiplied → p = old ∧ q = old
  all : op.weight new = 255 → q = p.withAlpha old.alpha ∧ p.alpha = new.alpha
  part : op.weight new ≠ 0 → op.weight new ≠ 255 → q = p

variable {op : SourceBlend} {old new : Pixel}

theorem blended_none (h : op.weight new = 0) (hmode : op ≠ byPixel .premultiplied) :
    op.blended old new = old := by
  cases op with
  | uniform alpha =>
      have hzero : alpha = 0 := h
      rw [blended, hzero, Pixel.blend_none]
  | byPixel mode =>
      have hzero : new.alpha = 0 := h
      cases mode with
      | straight => rw [blended, hzero, Pixel.blend_none]
      | premultiplied => exact absurd rfl hmode

theorem blended_all (h : op.weight new = 255) :
    op.blended old new = (new.convert old.format).withAlpha old.alpha := by
  have hrecolor : op.blended old new = old.recolor new.toRgba := by
    cases op with
    | uniform alpha =>
        have hfull : alpha = 255 := h
        rw [blended, hfull, Pixel.blend_all]
    | byPixel mode =>
        have hfull : new.alpha = 255 := h
        cases mode with
        | straight => rw [blended, hfull, Pixel.blend_all]
        | premultiplied => rw [blended, hfull, Pixel.blendPremultiplied_all]
  rw [hrecolor, Pixel.recolor_eq_withAlpha, Pixel.convert]

theorem alpha_convert (hformats : op.Supports old.format new.format) (h : op.weight new = 255) :
    (new.convert old.format).alpha = new.alpha := by
  cases op with
  | uniform alpha => rw [Pixel.convert_eq_self (Eq.symm hformats)]
  | byPixel mode =>
      have hfull : new.alpha = 255 := h
      rw [Pixel.alpha_convert, hfull, ite_self]

theorem agree_value (hformats : op.Supports old.format new.format) :
    op.Agree old new (op.value old new) (op.blended old new) where
  none h hmode := ⟨if_pos h, blended_none h hmode⟩
  all h := by
    have hvalue : op.value old new = new.convert old.format := by
      rw [value, h, if_neg (by decide), if_pos rfl]
    rw [hvalue]
    exact ⟨blended_all h, alpha_convert hformats h⟩
  part hzero hfull := by rw [value, if_neg hzero, if_neg hfull]

theorem format_blended (op : SourceBlend) (old new : Pixel) :
    (op.blended old new).format = old.format := by
  cases op with
  | uniform alpha => exact Pixel.format_channelwise ..
  | byPixel mode => cases mode <;> exact Pixel.format_channelwise ..

theorem keepsFormat_blended (op : SourceBlend) (painted source : PixelFormat) :
    Paint.KeepsFormat (fun old new _ _ => some (op.blended old new)) painted source := by
  rintro old new u v p hold - hp
  cases hp
  rw [format_blended, hold]

theorem getD_composite (mode : AlphaMode) (old new : Pixel) :
    (Paint.composite mode old new).getD old = (byPixel mode).value old new := by
  by_cases hzero : new.alpha = 0
  · simp [Paint.composite, value, weight, hzero]
  by_cases hfull : new.alpha = 255
  · simp [Paint.composite, value, weight, hfull]
  cases mode <;> simp [Paint.composite, value, weight, blended, hzero, hfull]

variable {dst src out gen : Surface} {r : Rect} {sx sy : Nat}

section Addressing

open Effect

variable {a a' : Addressing} (ha : dst.addressing? = some a) (ha' : src.addressing? = some a')
  (hne : r.isEmpty = false) (hr : dst.Holds r) (hregion : src.Holds ⟨sx, sy, r.w, r.h⟩)

include ha ha' hne hr hregion

theorem compositeBlit_value (name : String) (mode : AlphaMode)
    (hformats : dst.format.compositesFrom src.format = true) :
    (Paint.compositeBlit name mode false src r sx sy).HasEffect dst.toLayout
      (transfer src r sx sy fun old new _ _ => some ((byPixel mode).value old new)) := by
  refine .get_bind fun t ht => ?_
  simp only [ht, hformats, hne]
  have heffect := Paint.combine_hasEffect_of_addressing ha ha' hne hr hregion
    (Paint.keepsFormat_composite mode false)
  refine Combination.transfer_congr heffect fun old new u v _ => ?_
  simpa using (getD_composite mode old new).symm

theorem addBlit_value (alpha : UInt8) (hformats : dst.format = src.format) :
    (Paint.addBlit src r sx sy alpha).HasEffect dst.toLayout
      (transfer src r sx sy fun old new _ _ => some ((uniform alpha).value old new)) := by
  refine .get_bind fun t ht => ?_
  simp only [ht, ne_eq, hformats, not_true_eq_false, if_false]
  split
  case isTrue hzero =>
    have hkeep : (pure () : Paint Unit).HasEffect dst.toLayout
        (transfer src r sx sy fun old _ _ _ => some old) := by
      rw [transfer_keep]
      exact .skip
    exact Combination.transfer_congr hkeep fun old new _ _ _ => by simp [value, weight, hzero]
  case isFalse hzero =>
    split
    case isTrue hfull =>
      refine Combination.transfer_congr
        (Paint.blit_hasEffect_of_addressing ha ha' hne hr hregion) fun old new _ _ hold => ?_
      simp [value, weight, hfull, hold]
    case isFalse hfull =>
      refine Combination.transfer_congr (Paint.combine_hasEffect_of_addressing ha ha' hne hr
        hregion (Paint.keepsFormat_blend alpha)) fun old new _ _ hold => ?_
      simp [value, weight, hzero, hfull, blended]

theorem paint_hasEffect (op : SourceBlend) (hformats : op.Supports dst.format src.format) :
    (op.paint src r sx sy).HasEffect dst.toLayout
      (transfer src r sx sy fun old new _ _ => some (op.value old new)) := by
  cases op with
  | uniform alpha => exact addBlit_value ha ha' hne hr hregion alpha hformats
  | byPixel mode =>
      cases mode <;> exact compositeBlit_value ha ha' hne hr hregion _ _ hformats

end Addressing

/-- How the operator's result, `out`, and its loop's, `gen`, go together, point by point. -/
structure Follows (op : SourceBlend) (dst src out gen : Surface) (r : Rect) (sx sy : Nat) :
    Prop where
  layout_eq : out.toLayout = gen.toLayout
  size_eq : out.data.size = gen.data.size
  agree : ∀ i j, i < r.w → j < r.h → ∃ old new p q, dst.pixel? (r.x + i) (r.y + j) = some old ∧
    src.pixel? (sx + i) (sy + j) = some new ∧ out.pixel? (r.x + i) (r.y + j) = some p ∧
    gen.pixel? (r.x + i) (r.y + j) = some q ∧ op.Agree old new p q
  untouched : ∀ n, (∀ x y, r.Covers x y → ¬ dst.ByteOf x y n) → out.data[n]? = gen.data[n]?

theorem paint_follows (hne : r.isEmpty = false) (hformats : op.Supports dst.format src.format)
    (hgen : dst.paint (op.pixelwise src r sx sy) = (.ok (), gen)) :
    ∃ out, dst.paint (op.paint src r sx sy) = (.ok (), out) ∧
      op.Follows dst src out gen r sx sy := by
  obtain ⟨⟨hr, hregion⟩, ⟨a, ha⟩, a', ha'⟩ := Paint.of_combine_ok hgen hne
  obtain ⟨hw, hh⟩ := Paint.nativeSides_pos hne hr
  obtain ⟨hw', hh'⟩ := Paint.nativeSides_pos (r := ⟨sx, sy, r.w, r.h⟩) hne hregion
  have hdst := Surface.addressed_of_addressing? hw hh ha
  have hsrc := Surface.addressed_of_addressing? hw' hh' ha'
  obtain ⟨hok, hout⟩ := paint_hasEffect ha ha' hne hr hregion op hformats dst rfl
  obtain ⟨-, hloop⟩ := Paint.combine_hasEffect_of_addressing ha ha' hne hr hregion
    (op.keepsFormat_blended dst.format src.format) dst rfl
  rw [pixelwise] at hgen
  rw [hgen] at hloop
  refine ⟨_, Prod.ext hok rfl, hout.layout_eq.trans hloop.layout_eq.symm,
    hout.size_eq.trans hloop.size_eq.symm, fun i j hi hj => ?_, fun n hn => ?_⟩
  · obtain ⟨old, new, hformat, hold, hnew, hp⟩ := hout.transfer_point hsrc hdst hr hregion hi hj
    obtain ⟨old', new', -, hold', hnew', hq⟩ := hloop.transfer_point hsrc hdst hr hregion hi hj
    cases hold.symm.trans hold'
    cases hnew.symm.trans hnew'
    refine ⟨old, new, _, _, hold, hnew, hp, hq, agree_value ?_⟩
    rwa [hformat, Surface.format_of_pixel? hold]
  · rw [hout.transfer_untouched hdst hn, hloop.transfer_untouched hdst hn]

theorem pixelwise_ok (op : SourceBlend) (hdst : dst.stride < Offset.bound)
    (hsrc : src.stride < Offset.bound) (hne : r.isEmpty = false) (hr : dst.Holds r)
    (hregion : src.Holds ⟨sx, sy, r.w, r.h⟩) :
    (dst.paint (op.pixelwise src r sx sy)).1 = .ok () := by
  have hs : src.Usable := Layout.usable_of_holds (r := ⟨sx, sy, r.w, r.h⟩) hsrc hne hregion
  have heffect : Paint.HasEffect _ dst.toLayout (.between dst.toLayout src r sx sy _) :=
    Paint.combine_hasEffect_of_nonempty (Layout.usable_of_holds hdst hne hr) hs
      (op.keepsFormat_blended dst.format src.format) hne
  rw [Effect.between_eq_transfer hr hregion] at heffect
  exact (heffect dst rfl).1

end SourceBlend

/-- Blending a colour in, the shortcuts leave byte for byte what the loops that blend every pixel
leave. Blending a source in, they leave the colours that the loops leave; a clear source pixel also
leaves the stored alpha, and a solid one brings its own. The loops run to their ends on all
rectangles within surfaces whose addresses are offsets. -/
theorem shortcuts_agree (dst : Surface) (r : Rect) (hne : r.isEmpty = false) (hr : dst.Holds r) :
    (∀ op : ColorBlend,
      (dst.paint (op.paint r)).2 = (dst.paint (op.pixelwise r)).2 ∧
      ((dst.paint (op.pixelwise r)).1 = .ok () → (dst.paint (op.paint r)).1 = .ok ()) ∧
      (op.Runs dst r → (dst.paint (op.pixelwise r)).1 = .ok ())) ∧
    ∀ (op : SourceBlend) (src : Surface) (sx sy : Nat), op.Supports dst.format src.format →
      (∀ gen, dst.paint (op.pixelwise src r sx sy) = (.ok (), gen) →
        ∃ out, dst.paint (op.paint src r sx sy) = (.ok (), out) ∧
          op.Follows dst src out gen r sx sy) ∧
      (dst.stride < Offset.bound → src.stride < Offset.bound →
        src.Holds ⟨sx, sy, r.w, r.h⟩ → (dst.paint (op.pixelwise src r sx sy)).1 = .ok ()) := by
  refine ⟨fun op => ⟨?_, ?_, op.pixelwise_ok hne hr⟩, fun op src sx sy hformats => ⟨?_, ?_⟩⟩
  · by_cases halpha : op.alpha = 0
    · rw [op.paint_eq_pure halpha]
      exact (op.pixelwise_idle halpha r dst).symm
    · rw [op.paint_eq_pixelwise halpha]
  · by_cases halpha : op.alpha = 0
    · rw [op.paint_eq_pure halpha]
      exact fun _ => rfl
    · rw [op.paint_eq_pixelwise halpha]
      exact id
  · exact fun gen hgen => op.paint_follows hne hformats hgen
  · exact fun hdst hsrc hregion => op.pixelwise_ok hdst hsrc hne hr hregion

/-- A product on scanlines farther apart than any offset, and a solid and a translucent gray over
glass. -/
theorem shortcuts_agree_glass :
    (RegionOperator.lonelyLine.paint
        ((ColorBlend.multiply ⟨200, 100, 50, 255⟩).paint ⟨0, 1, 1, 2⟩)).2 =
      (RegionOperator.lonelyLine.paint
        ((ColorBlend.multiply ⟨200, 100, 50, 255⟩).pixelwise ⟨0, 1, 1, 2⟩)).2 ∧
    ∃ gen out,
      Combination.glass.paint ((SourceBlend.byPixel .straight).pixelwise Surface.uprightPair
        ⟨0, 0, 2, 1⟩ 0 0) = (.ok (), gen) ∧
      Combination.glass.paint ((SourceBlend.byPixel .straight).paint Surface.uprightPair
        ⟨0, 0, 2, 1⟩ 0 0) = (.ok (), out) ∧
      (SourceBlend.byPixel .straight).Follows Combination.glass Surface.uprightPair out gen
        ⟨0, 0, 2, 1⟩ 0 0 := by
  have hline := shortcuts_agree RegionOperator.lonelyLine ⟨0, 1, 1, 2⟩ (by decide) (by decide)
  have hglass := (shortcuts_agree Combination.glass ⟨0, 0, 2, 1⟩ (by decide) (by decide)).2
    (.byPixel .straight) Surface.uprightPair 0 0 rfl
  have hgen := Prod.ext (hglass.2 (by decide) (by decide) (by decide)) rfl
  obtain ⟨out, hout, hfollows⟩ := hglass.1 _ hgen
  exact ⟨(hline.1 (.multiply ⟨200, 100, 50, 255⟩)).1, _, out, hgen, hout, hfollows⟩

end Raster
