import Raster.Proofs.BlitMode
import Raster.Proofs.RotationView

/-!
# Clipping to the canvas is exact

What an operation makes of a pixel depends on the pixel and its position, but not on how far the
canvas reaches. A scene rendered on a smaller canvas is therefore the top left part of the scene
rendered on a larger one.
-/

namespace Raster

namespace Effect

variable {l : Layout} {e : Effect} {g : Nat → Nat → Pixel → Pixel}

/-- If the effect succeeds, it changes the pixels of the layout as `g` says. -/
def Follows (e : Effect) (l : Layout) (g : Nat → Nat → Pixel → Pixel) : Prop :=
  e.outcome = .ok () → ∀ x y p, x < l.width → y < l.height → e.change x y p = g x y p

theorem skip_follows : skip.Follows l fun _ _ p => p :=
  fun _ _ _ _ _ _ => rfl

theorem fail_follows (cause : Failure) : (fail cause).Follows l g :=
  fun h => nomatch h

theorem Follows.ite {c : Prop} [Decidable c] {f : Effect} (he : c → e.Follows l g)
    (hf : ¬ c → f.Follows l g) : (if c then e else f).Follows l g := by
  split
  · exact he ‹_›
  · exact hf ‹_›

theorem Follows.choice {c : Prop} [Decidable c] {f : Effect} {g' : Nat → Nat → Pixel → Pixel}
    (he : e.Follows l g) (hf : f.Follows l g') :
    (if c then e else f).Follows l (if c then g else g') := by
  split
  · exact he
  · exact hf

variable {r : Rect} {f : Pixel → Pixel}

theorem region_clipped_follows :
    (region (r.clipped l.width l.height) g).Follows l (region r g).change := by
  intro _ x y p hx hy
  simp only [region, of_change, Rect.covers_clipped_iff hx hy]

theorem skip_follows_of_isEmpty (he : (r.clipped l.width l.height).isEmpty = true) :
    skip.Follows l (region r g).change := by
  intro _ x y p hx hy
  refine (if_neg ?_).symm
  rw [← Rect.covers_clipped_iff hx hy]
  exact Rect.not_covers_of_isEmpty he x y

theorem onRegion_clipped_follows :
    (onRegion l (r.clipped l.width l.height) f).Follows l (region r fun _ _ => f).change :=
  .ite skip_follows_of_isEmpty fun _ => .ite (fun _ => region_clipped_follows) fun _ =>
    fail_follows .fault

theorem onRegion_bounds_follows : (onRegion l l.bounds f).Follows l fun _ _ p => f p := by
  intro hok x y p hx hy
  have hcovers : l.bounds.Covers x y := Layout.covers_bounds_iff.mpr ⟨hx, hy⟩
  have hne : l.bounds.isEmpty = false := by
    cases he : l.bounds.isEmpty with
    | true => exact absurd hcovers (Rect.not_covers_of_isEmpty he x y)
    | false => rfl
  simp [onRegion, hne, Layout.holds_bounds, region, hcovers]

/-- A source laid to the corner of a rectangle stays there when the rectangle is clipped. -/
theorem between_clipped_follows {src : Surface} {f : Pixel → Pixel → Nat → Nat → Option Pixel}
    (hne : (r.clipped l.width l.height).isEmpty = false) :
    (between l src (r.clipped l.width l.height) 0 0 f).Follows l (transfer src r 0 0 f).change := by
  obtain ⟨hx, hy, -, -⟩ := Rect.clipped_corner hne
  have hsame : transferred src (r.clipped l.width l.height) 0 0 f = transferred src r 0 0 f := by
    funext x y p
    simp only [transferred, hx, hy]
  unfold between transfer
  rw [hsame]
  exact .ite (fun _ => .ite (fun _ => region_clipped_follows) fun _ => fail_follows .fault)
    fun _ => fail_follows .fault

end Effect

namespace Paint

open Effect

/-- Where the computations succeed they change the pixels alike, however large the surface. -/
def SizeFree (p : Layout → Paint Unit) (format : PixelFormat) : Prop :=
  ∃ g, ∀ l : Layout, l.Usable → l.format = format →
    ∃ e, (p l).HasEffect l e ∧ e.Follows l g

variable {format : PixelFormat}

theorem Uniform.sizeFree {p : Paint Unit} (hp : p.Uniform format) :
    SizeFree (fun _ => p) format := by
  obtain ⟨e, he⟩ := hp
  exact ⟨e.change, fun l hl hformat => ⟨e, he l hl hformat, fun _ _ _ _ _ _ => rfl⟩⟩

theorem fill_sizeFree (v : UInt8) : SizeFree (fun _ => fill v) format :=
  ⟨_, fun _ hl _ => ⟨_, fill_hasEffect hl v, onRegion_bounds_follows⟩⟩

section Clipped

variable (r : Rect)

theorem fillRect_sizeFree (v : UInt8) :
    SizeFree (fun l => fillRect (r.clipped l.width l.height) v) format :=
  ⟨_, fun _ hl _ => ⟨_, fillRect_hasEffect hl _ v, onRegion_clipped_follows⟩⟩

theorem replaceRect_sizeFree (c : Rgba) :
    SizeFree (fun l => replaceRect (r.clipped l.width l.height) c) format := by
  refine ⟨(region r fun _ _ _ => .ofRgba format c).change, ?_⟩
  rintro l hl rfl
  exact ⟨_, replaceRect_hasEffect hl _ c,
    .ite (fun _ => fail_follows _) fun _ => onRegion_clipped_follows⟩

theorem blendRect_sizeFree (c : Rgba) :
    SizeFree (fun l => blendRect (r.clipped l.width l.height) c) format :=
  ⟨_, fun _ hl _ => ⟨_, blendRect_hasEffect hl _ c,
    .choice skip_follows onRegion_clipped_follows⟩⟩

theorem multiplyBlendRect_sizeFree (c : Rgba) :
    SizeFree (fun l => multiplyBlendRect (r.clipped l.width l.height) c) format :=
  ⟨_, fun _ hl _ => ⟨_, multiplyBlendRect_hasEffect hl _ c,
    .choice skip_follows onRegion_clipped_follows⟩⟩

theorem invertRect_sizeFree :
    SizeFree (fun l => invertRect (r.clipped l.width l.height)) format :=
  ⟨_, fun _ hl _ => ⟨_, invertRect_hasEffect hl _, onRegion_clipped_follows⟩⟩

/-- The stripes are counted from the corner of the rectangle, which clipping keeps. -/
theorem hatched_clipped {r : Rect} {w h : Nat} (hne : (r.clipped w h).isEmpty = false)
    (stripe : Nat) (v alpha : UInt8) :
    hatched (r.clipped w h) stripe v alpha = hatched r stripe v alpha := by
  obtain ⟨hx, hy, -, -⟩ := Rect.clipped_corner hne
  funext x y p
  simp only [hatched, hx, hy]

theorem hatchRect_sizeFree (stripe : Nat) (v alpha : UInt8) :
    SizeFree (fun l => hatchRect (r.clipped l.width l.height) stripe v alpha) format := by
  cases hidle : stripe == 0 || alpha == 0 with
  | true =>
      refine ⟨fun _ _ p => p, fun l hl _ => ⟨_, hatchRect_hasEffect hl _ stripe v alpha, ?_⟩⟩
      rw [Bool.or_assoc, hidle, Bool.or_true]
      exact skip_follows
  | false =>
      refine ⟨(region r (hatched r stripe v alpha)).change,
        fun l hl _ => ⟨_, hatchRect_hasEffect hl _ stripe v alpha, ?_⟩⟩
      rw [Bool.or_assoc, hidle, Bool.or_false]
      apply Follows.ite skip_follows_of_isEmpty
      intro hne
      refine .ite (fun _ => ?_) fun _ => fail_follows .fault
      refine .ite (fun _ => ?_) fun _ => fail_follows .fault
      rw [hatched_clipped (Bool.eq_false_iff.mpr hne)]
      exact region_clipped_follows

theorem clip_sizeFree (name : String) {k : Rect → Paint Unit}
    (hk : SizeFree (fun l => k (r.clipped l.width l.height)) format) :
    SizeFree (fun _ => do k (← Op.clip name r)) format := by
  obtain ⟨g, hg⟩ := hk
  refine ⟨g, fun l hl hformat => ?_⟩
  obtain ⟨e, he, hfollows⟩ := hg l hl hformat
  exact ⟨_, Op.clip_hasEffect hl name he, .ite (fun _ => hfollows) fun _ => fail_follows _⟩

end Clipped

end Paint

/-! ## Layers on the canvas -/

theorem Layer.usable_of_render {layer : Layer} {src : Surface} (hw : 0 < layer.width)
    (hh : 0 < layer.height) (h : layer.render = .ok src) : src.Usable := by
  have hsame := layer.render_same hw hh layer.rotation
  rw [h] at hsame
  cases hsame with
  | ok hagrees => exact hagrees.left

namespace Op

open Effect

variable {format : PixelFormat}

/-- Laying a layer onto its part of the canvas changes the points it shows alike on every
canvas. -/
theorem putLayer_follows (format : PixelFormat) (layer : Layer) (x y : Nat) (mode : BlitMode)
    (alpha : UInt8) (color : Rgba) :
    ∃ g, ∀ (l : Layout) (r : Rect), l.Usable → l.format = format → r.isEmpty = false →
      r = Rect.clipped ⟨x, y, layer.width, layer.height⟩ l.width l.height →
      ∃ e, (putLayer layer x y mode alpha color (some r)).HasEffect l e ∧
        e.Follows l (region ⟨x, y, layer.width, layer.height⟩ g).change := by
  by_cases hpos : 0 < layer.width ∧ 0 < layer.height
  case neg =>
    refine ⟨fun _ _ p => p, ?_⟩
    rintro l r - - hne rfl
    exact absurd (Rect.clipped_corner hne).2.2 hpos
  cases hlayer : layer.render with
  | error cause =>
      refine ⟨fun _ _ p => p, fun l r _ _ _ _ => ⟨_, ?_, fail_follows cause⟩⟩
      rw [putLayer, hlayer]
      exact .fail cause
  | ok src =>
      have hsrc := Layer.usable_of_render hpos.1 hpos.2 hlayer
      have heffect : ∀ (l : Layout) (r : Rect), l.Usable → l.format = format →
          r.isEmpty = false → r = Rect.clipped ⟨x, y, layer.width, layer.height⟩ l.width l.height →
          (putLayer layer x y mode alpha color (some r)).HasEffect l
            ((mode.kind format src.format alpha color).effect l src r 0 0) := by
        rintro l r hl rfl hne hr
        obtain ⟨hx, hy, -, -⟩ := Rect.clipped_corner (hr ▸ hne)
        rw [← hr] at hx hy
        have h := mode.transfer_hasEffect hl hsrc hne 0 0 alpha color
        rw [putLayer, hlayer, hx, hy, Nat.sub_self, Nat.sub_self]
        exact h
      cases hkind : mode.kind format src.format alpha color with
      | fails cause =>
          refine ⟨fun _ _ p => p, fun l r hl hf hne hr => ⟨_, heffect l r hl hf hne hr, ?_⟩⟩
          rw [hkind]
          exact fail_follows cause
      | nothing =>
          refine ⟨fun _ _ p => p, fun l r hl hf hne hr => ⟨_, heffect l r hl hf hne hr, ?_⟩⟩
          rw [hkind]
          intro _ x y p _ _
          exact (ite_self p).symm
      | combines f =>
          refine ⟨transferred src ⟨x, y, layer.width, layer.height⟩ 0 0 f,
            fun l r hl hf hne hr => ⟨_, heffect l r hl hf hne hr, ?_⟩⟩
          subst hr
          rw [hkind]
          exact between_clipped_follows hne

theorem apply_sizeFree (op : Op) (format : PixelFormat) :
    Paint.SizeFree (fun _ => op.apply) format := by
  cases op with
  | fill v => exact Paint.fill_sizeFree v
  | fillRect r v => exact Paint.clip_sizeFree r _ (Paint.fillRect_sizeFree r v)
  | replaceRect r c => exact Paint.clip_sizeFree r _ (Paint.replaceRect_sizeFree r c)
  | blendGray r c => exact Paint.clip_sizeFree r _ (Paint.blendRect_sizeFree r c.toRgba)
  | blendColor r c => exact Paint.clip_sizeFree r _ (Paint.blendRect_sizeFree r c)
  | multiplyRect r c => exact Paint.clip_sizeFree r _ (Paint.multiplyBlendRect_sizeFree r c)
  | invertRect r => exact Paint.clip_sizeFree r _ (Paint.invertRect_sizeFree r)
  | hatchRect r stripe v alpha =>
      exact Paint.clip_sizeFree r _ (Paint.hatchRect_sizeFree r stripe v alpha)
  | roundedCorner r border radius v smooth =>
      have hrect (name : String) : (requireAddressable name r).Uniform format :=
        ⟨_, fun _ _ _ => requireAddressable_hasEffect name r⟩
      exact ((hrect _).seq (.ite (Paint.smoothCorner_uniform r border radius v)
        (Paint.roundedCorner_uniform r border radius v))).sizeFree
  | blit layer x y mode alpha color =>
      let placed : Rect := ⟨x, y, layer.width, layer.height⟩
      obtain ⟨g, hg⟩ := putLayer_follows format layer x y mode alpha color
      refine ⟨(region placed g).change, fun l hl hformat => ?_⟩
      cases hempty : (placed.clipped l.width l.height).isEmpty with
      | true =>
          refine ⟨_, intersect_hasEffect hl _ (e := .skip) fun _ => ?_,
            .ite (fun _ => skip_follows_of_isEmpty hempty) fun _ => fail_follows _⟩
          rw [if_pos hempty]
          exact .skip
      | false =>
          obtain ⟨e, he, hfollows⟩ := hg l _ hl hformat hempty rfl
          refine ⟨_, intersect_hasEffect hl _ (e := e) fun _ => ?_,
            .ite (fun _ => hfollows) fun _ => fail_follows _⟩
          rw [hempty]
          exact he

end Op

/-! ## Renderings -/

namespace Surface

/-- Usable surfaces of one format that both show the same pixels up to this width and height. -/
structure AgreeWithin (s : Surface) (w h : Nat) (t : Surface) : Prop where
  left : s.Usable
  right : t.Usable
  format_eq : t.format = s.format
  pixel?_eq : ∀ x < w, ∀ y < h, ∃ p, s.pixel? x y = some p ∧ t.pixel? x y = some p

/-- What succeeds on both surfaces, whatever their sizes, keeps what they share. -/
theorem AgreeWithin.paint {w h : Nat} {s t : Surface} (hst : s.AgreeWithin w h t) {p : Paint Unit}
    (hp : Paint.SizeFree (fun _ => p) s.format) (hs : (s.paint p).1 = .ok ())
    (ht : (t.paint p).1 = .ok ()) : (s.paint p).2.AgreeWithin w h (t.paint p).2 := by
  obtain ⟨g, hg⟩ := hp
  obtain ⟨e, he, hfollows⟩ := hg s.toLayout hst.left rfl
  obtain ⟨e', he', hfollows'⟩ := hg t.toLayout hst.right hst.format_eq
  obtain ⟨hout, hrw⟩ := he s rfl
  obtain ⟨hout', hrw'⟩ := he' t rfl
  refine ⟨hrw.usable hst.left, hrw'.usable hst.right, ?_, ?_⟩
  · rw [hrw.layout_eq, hrw'.layout_eq, hst.format_eq]
  · intro x hx y hy
    obtain ⟨q, hq, hq'⟩ := hst.pixel?_eq x hx y hy
    obtain ⟨hxs, hys⟩ := lt_of_pixel? hq
    obtain ⟨hxt, hyt⟩ := lt_of_pixel? hq'
    refine ⟨g x y q, ?_, ?_⟩
    · rw [hrw.pixel?_eq, hq, Option.map_some, hfollows (hout ▸ hs) x y q hxs hys]
    · rw [hrw'.pixel?_eq, hq', Option.map_some, hfollows' (hout' ▸ ht) x y q hxt hyt]

end Surface

namespace Scene

theorem canvas_ok {s : Scene} {a : Surface} (hw : 0 < s.width) (hh : 0 < s.height)
    (h : s.canvas = .ok a) : a.Usable ∧ a.format = s.format ∧
      ∀ x < s.width, ∀ y < s.height, a.pixel? x y = some (.ofGray s.format s.background) := by
  rw [canvas] at h
  by_cases hsize : s.width * s.format.bytes * s.height < Offset.bound
  case neg =>
    rw [Surface.allocView_error hsize] at h
    cases h
  obtain ⟨blank, hblank, hzero⟩ := Surface.allocView_ok hw hh hsize s.rotation
  obtain ⟨hout, hrw⟩ := Paint.mapRegion_hasEffect hzero.usable blank.holds_bounds
    (f := fun _ => .ofGray s.format s.background)
    (fun _ _ => (Pixel.format_ofRgba ..).trans hzero.format_eq.symm) blank rfl
  rw [hblank] at h
  obtain rfl := Surface.eq_of_painted h
  refine ⟨hrw.usable hzero.usable, ?_, fun x hx y hy => ?_⟩
  · rw [hrw.layout_eq, hzero.format_eq]
  · have hcovers : blank.bounds.Covers x y :=
      Layout.covers_bounds_iff.mpr ⟨hzero.width_eq ▸ hx, hzero.height_eq ▸ hy⟩
    rw [hrw.pixel?_eq, hzero.pixel?_eq x hx y hy, Option.map_some]
    simp only [Effect.region, Effect.of_change, if_pos hcovers]

theorem applyAll_cons_eq_ok {index : Nat} {a b : Surface} {op : Op} {ops : List Op}
    (h : applyAll index a (op :: ops) = .ok b) :
    (a.paint op.apply).1 = .ok () ∧ applyAll (index + 1) (a.paint op.apply).2 ops = .ok b := by
  revert h
  rw [applyAll]
  split <;> intro h
  case h_1 c hp => exact ⟨by rw [hp], by rw [hp]; exact h⟩
  case h_2 => cases h
  case h_3 => cases h

theorem applyAll_agreeWithin {w h index : Nat} {a b a' b' : Surface} {ops : List Op}
    (hab : a.AgreeWithin w h b) (ha : applyAll index a ops = .ok a')
    (hb : applyAll index b ops = .ok b') : a'.AgreeWithin w h b' := by
  induction ops generalizing a b index with
  | nil =>
      cases ha
      cases hb
      exact hab
  | cons op ops ih =>
      obtain ⟨hstep, hrest⟩ := applyAll_cons_eq_ok ha
      obtain ⟨hstep', hrest'⟩ := applyAll_cons_eq_ok hb
      exact ih (hab.paint (op.apply_sizeFree a.format) hstep hstep') hrest hrest'

/-- The scene on a canvas of another size. -/
def resized (s : Scene) (w h : Nat) : Scene := { s with width := w, height := h }

/-- A scene rendered on a smaller canvas is the top left part of the scene rendered on a larger
one. -/
theorem render_crop (s : Scene) {w h : Nat} (hw : s.width ≤ w) (hh : s.height ≤ h) {a b : Surface}
    (ha : s.render = .ok a) (hb : (s.resized w h).render = .ok b) :
    ∀ x y, x < s.width → y < s.height → ∃ p, a.pixel? x y = some p ∧ b.pixel? x y = some p := by
  intro x y hx hy
  rw [render] at ha hb
  cases hcanvas : s.canvas with
  | error e => simp [hcanvas] at ha
  | ok small =>
      cases hcanvas' : (s.resized w h).canvas with
      | error e => simp [hcanvas'] at hb
      | ok large =>
          rw [hcanvas] at ha
          rw [hcanvas'] at hb
          obtain ⟨hsmall, hformat, hpixel⟩ := canvas_ok (by omega) (by omega) hcanvas
          obtain ⟨hlarge, hformat', hpixel'⟩ :=
            canvas_ok (show 0 < w by omega) (show 0 < h by omega) hcanvas'
          have hstart : small.AgreeWithin s.width s.height large := by
            refine ⟨hsmall, hlarge, hformat'.trans hformat.symm, fun x hx y hy => ?_⟩
            have hlarge := hpixel' x (Nat.lt_of_lt_of_le hx hw) y (Nat.lt_of_lt_of_le hy hh)
            exact ⟨_, hpixel x hx y hy, hlarge⟩
          exact (applyAll_agreeWithin hstart ha hb).pixel?_eq x hx y hy

/-- A scene with operations that hang off the canvas or miss it. -/
def overhanging : Scene where
  name := "overhanging"
  width := 2
  height := 2
  format := .rgb565
  rotation := .clockwise
  background := 9
  ops := [.hatchRect ⟨1, 0, 4, 3⟩ 1 200 255, .invertRect ⟨3, 0, 1, 1⟩,
    .blit ⟨2, 2, .gray8, .upright, .checker 1 .black (.gray 255)⟩ 1 1 .dither 255 .black]

theorem render_crop_overhanging :
    ∃ a b, overhanging.render = .ok a ∧ (overhanging.resized 4 3).render = .ok b ∧
      ∀ x y, x < 2 → y < 2 → ∃ p, a.pixel? x y = some p ∧ b.pixel? x y = some p := by
  have hsmall : overhanging.render.isOk = true := by decide +kernel
  have hlarge : (overhanging.resized 4 3).render.isOk = true := by decide +kernel
  cases ha : overhanging.render with
  | error e => simp [ha, Except.isOk, Except.toBool] at hsmall
  | ok a =>
      cases hb : (overhanging.resized 4 3).render with
      | error e => simp [hb, Except.isOk, Except.toBool] at hlarge
      | ok b => exact ⟨a, b, rfl, rfl, render_crop overhanging (by decide) (by decide) ha hb⟩

end Scene

end Raster
