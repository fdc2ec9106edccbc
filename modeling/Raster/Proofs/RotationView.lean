import Raster.Proofs.Allocation
import Raster.Proofs.Clipping
import Raster.Surface.Image

/-!
# Rotation is only a view

A scene whose canvas and layers are turned otherwise renders to surfaces that agree, or fails
alike. The surfaces of both renderings are laid out differently from the first allocation on, so
that agreement is carried through every operation.
-/

namespace Raster

namespace Surface

variable {ε : Type}

/-- Both computations failed alike, or both gave surfaces that agree. -/
inductive SameResult : Except ε Surface → Except ε Surface → Prop where
  | ok {a b : Surface} (h : a.Agrees b) : SameResult (.ok a) (.ok b)
  | error (e : ε) : SameResult (.error e) (.error e)

theorem allocView_same {w h : Nat} (hw : 0 < w) (hh : 0 < h) (f : PixelFormat) (q q' : Rotation) :
    SameResult (allocView w h f q) (allocView w h f q') := by
  by_cases hsize : w * f.bytes * h < Offset.bound
  case neg =>
    rw [allocView_error hsize q, allocView_error hsize q']
    exact .error _
  case pos =>
    obtain ⟨s, hs, hblank⟩ := allocView_ok hw hh hsize q
    obtain ⟨t, ht, hblank'⟩ := allocView_ok hw hh hsize q'
    rw [hs, ht]
    exact .ok (hblank.agrees hblank')

/-! ## Going on from surfaces that agree -/

variable {a b : Surface} {p q : Paint Unit}

theorem SameResult.painted (h : a.Agrees b) (hpq : p.SameEffect q a.toLayout b.toLayout) :
    SameResult (a.painted p) (b.painted q) := by
  obtain ⟨hout, hagrees, -, -⟩ := h.paint hpq
  unfold Surface.painted
  cases hp : a.paint p with
  | mk out s =>
      cases hq : b.paint q with
      | mk out' t =>
          rw [hp, hq] at hout hagrees
          cases hout
          cases out with
          | ok => exact .ok hagrees
          | error e => exact .error e

theorem SameResult.ofExcept_bind {x y : Except Failure Surface} (h : SameResult x y)
    {m m' : Surface → Paint Unit} {l k : Layout}
    (hm : ∀ a b, a.Agrees b → (m a).SameEffect (m' b) l k) :
    Paint.SameEffect (ofExcept x >>= m) (ofExcept y >>= m') l k := by
  cases h with
  | ok h => exact hm _ _ h
  | error e => exact .fail e

theorem SameResult.bind {x y : Except ε Surface} {k k' : Surface → Except ε Surface}
    (h : SameResult x y) (hk : ∀ a b, x = .ok a → a.Agrees b → SameResult (k a) (k' b)) :
    SameResult (x >>= k) (y >>= k') := by
  cases h with
  | ok h => exact hk _ _ rfl h
  | error e => exact .error e

end Surface

/-! ## Layers and the canvas -/

theorem Layer.render_same (layer : Layer) (hw : 0 < layer.width) (hh : 0 < layer.height)
    (q : Rotation) :
    Surface.SameResult layer.render (Layer.render { layer with rotation := q }) := by
  refine (Surface.allocView_same hw hh layer.format layer.rotation q).bind fun a b _ h => .painted h ?_
  refine .forEach (fun y => .forEach (fun x => .ofOption_bind fun c => ?_) _ _) _ _
  exact Paint.setPixel_same h.toAlike x y c

theorem Scene.canvas_same (s : Scene) (hw : 0 < s.width) (hh : 0 < s.height) (q : Rotation)
    (ops : List Op) :
    Surface.SameResult s.canvas (Scene.canvas { s with rotation := q, ops }) := by
  refine (Surface.allocView_same hw hh s.format s.rotation q).bind fun a b ha h => .painted h ?_
  rw [h.bounds_eq]
  apply Paint.mapRegion_same h.toAlike (Layout.holds_bounds _)
  intro p _
  exact (Pixel.format_ofRgba ..).trans (Surface.format_of_allocView ha).symm

/-! ## Operations -/

/-- The operation with its layer, if it has one, turned to another rotation. -/
def Op.turned (q : Rotation) : Op → Op
  | blit layer x y mode alpha color => blit { layer with rotation := q } x y mode alpha color
  | op => op

theorem Op.name_turned (q : Rotation) (op : Op) : (op.turned q).name = op.name := by
  cases op <;> rfl

theorem BlitMode.transfer_same {l k : Layout} (h : l.Alike k) {src src' : Surface}
    (hsrc : src.Agrees src') (mode : BlitMode) (r : Rect) (sx sy : Nat) (alpha : UInt8)
    (color : Rgba) :
    (mode.transfer src r sx sy alpha color).SameEffect
      (mode.transfer src' r sx sy alpha color) l k := by
  cases mode with
  | copy => exact Paint.blit_same h hsrc r sx sy
  | dither => exact Paint.ditherBlit_same h hsrc r sx sy
  | add => exact Paint.addBlit_same h hsrc r sx sy alpha
  | invert => exact Paint.invertBlit_same h hsrc r sx sy
  | gray => exact Paint.maskBlit_same h hsrc r sx sy _
  | color => exact Paint.maskBlit_same h hsrc r sx sy color
  | _ => exact Paint.compositeBlit_same h hsrc r sx sy _ _ _

namespace Op

variable {l k : Layout} (h : l.Alike k)

include h

theorem clip_same (name : String) (r : Rect) {m : Rect → Paint Unit}
    (hm : ∀ r, (m r).SameEffect (m r) l k) :
    Paint.SameEffect (do m (← clip name r)) (do m (← clip name r)) l k := by
  obtain ⟨e, he, he'⟩ := hm (r.clipped l.width l.height)
  refine ⟨_, clip_hasEffect h.left name he, clip_hasEffect h.right name ?_⟩
  rw [h.width_eq, h.height_eq]
  exact he'

theorem putLayer_same (q : Rotation) (layer : Layer) (x y : Nat) (mode : BlitMode)
    (alpha : UInt8) (color : Rgba) (part : Option Rect)
    (hpart : ∀ r ∈ part, 0 < layer.width ∧ 0 < layer.height) :
    (putLayer layer x y mode alpha color part).SameEffect
      (putLayer { layer with rotation := q } x y mode alpha color part) l k := by
  cases part with
  | none => exact .skip
  | some r =>
      obtain ⟨hw, hh⟩ := hpart r rfl
      exact (layer.render_same hw hh q).ofExcept_bind fun a b hab =>
        mode.transfer_same h hab r _ _ alpha color

/-- A layer is generated only if it has points on the canvas. -/
theorem blit_same (q : Rotation) (layer : Layer) (x y : Nat) (mode : BlitMode) (alpha : UInt8)
    (color : Rgba) :
    (blit layer x y mode alpha color).apply.SameEffect
      (blit { layer with rotation := q } x y mode alpha color).apply l k := by
  have hpart : ∀ r ∈ (if (Rect.clipped ⟨x, y, layer.width, layer.height⟩ l.width l.height).isEmpty
      then none else some (Rect.clipped ⟨x, y, layer.width, layer.height⟩ l.width l.height)),
      0 < layer.width ∧ 0 < layer.height := by
    intro r hr
    split at hr
    case isTrue => cases hr
    case isFalse hne => exact (Rect.clipped_corner (Bool.eq_false_iff.mpr hne)).2.2
  obtain ⟨e, he, he'⟩ := putLayer_same h q layer x y mode alpha color _ hpart
  refine ⟨_, intersect_hasEffect h.left _ fun _ => he, intersect_hasEffect h.right _ fun _ => ?_⟩
  rw [h.width_eq, h.height_eq]
  exact he'

theorem apply_same (q : Rotation) (op : Op) :
    op.apply.SameEffect (op.turned q).apply l k := by
  cases op with
  | fill v => exact Paint.fill_same h v
  | fillRect r v => exact clip_same h _ r fun r => Paint.fillRect_same h r v
  | replaceRect r c => exact clip_same h _ r fun r => Paint.replaceRect_same h r c
  | blendGray r c => exact clip_same h _ r fun r => Paint.blendRect_same h r c.toRgba
  | blendColor r c => exact clip_same h _ r fun r => Paint.blendRect_same h r c
  | multiplyRect r c => exact clip_same h _ r fun r => Paint.multiplyBlendRect_same h r c
  | invertRect r => exact clip_same h _ r fun r => Paint.invertRect_same h r
  | hatchRect r stripe v alpha =>
      exact clip_same h _ r fun r => Paint.hatchRect_same h r stripe v alpha
  | roundedCorner r border radius v smooth =>
      refine .seq ⟨_, requireAddressable_hasEffect _ r, requireAddressable_hasEffect _ r⟩ ?_
      refine .ite ?_ ?_
      · exact (Paint.smoothCorner_uniform r border radius v).same h
      · exact (Paint.roundedCorner_uniform r border radius v).same h
  | blit layer x y mode alpha color => exact blit_same h q layer x y mode alpha color

end Op

namespace Scene

/-- The scene with its canvas and every layer turned to other rotations. -/
def turned (s : Scene) (canvas : Rotation) (layers : Nat → Rotation) : Scene :=
  { s with rotation := canvas, ops := s.ops.mapIdx fun i op => op.turned (layers i) }

theorem applyAll_same {a b : Surface} (h : a.Agrees b) (index : Nat) (ops : List Op)
    (layers : Nat → Rotation) :
    Surface.SameResult (applyAll index a ops)
      (applyAll index b (ops.mapIdx fun i op => op.turned (layers i))) := by
  induction ops generalizing a b index layers with
  | nil => exact .ok h
  | cons op ops ih =>
      obtain ⟨hout, hagrees, -, -⟩ := h.paint (Op.apply_same h.toAlike (layers 0) op)
      rw [List.mapIdx_cons, applyAll, applyAll]
      cases hp : a.paint op.apply with
      | mk out s =>
          cases hq : b.paint (op.turned (layers 0)).apply with
          | mk out' t =>
              rw [hp, hq] at hout hagrees
              cases hout
              match out with
              | .ok () => exact ih hagrees (index + 1) fun i => layers (i + 1)
              | .error .fault => exact .error _
              | .error (.refused cause) =>
                  rw [Op.name_turned]
                  exact .error _

end Scene

/-! ## Reading the image out -/

namespace Surface.Agrees

variable {a b : Surface} (h : a.Agrees b)

include h

theorem rgbaRow_eq (y x : Nat) (row : Array UInt8) (n : Nat) :
    b.rgbaRow y x row n = a.rgbaRow y x row n := by
  induction n generalizing x row with
  | zero => rfl
  | succ n ih => simp only [rgbaRow, h.pixel?_eq, ih]

theorem rgbaRows_eq (y : Nat) (rows : Array UInt8) (n : Nat) :
    b.rgbaRows y rows n = a.rgbaRows y rows n := by
  induction n generalizing y rows with
  | zero => rfl
  | succ n ih => simp only [rgbaRows, h.rgbaRow_eq, h.width_eq, ih]

theorem toRgba8_eq : b.toRgba8 = a.toRgba8 := by
  simp only [toRgba8, h.width_eq, h.height_eq, h.rgbaRows_eq]

end Surface.Agrees

namespace Scene

/-- However the canvas and the layers are turned, a scene renders to surfaces that agree and are
read out as the same image, or fails alike. -/
theorem render_turned (s : Scene) (hw : 0 < s.width) (hh : 0 < s.height) (canvas : Rotation)
    (layers : Nat → Rotation) :
    Surface.SameResult s.render (s.turned canvas layers).render ∧
      ∀ a b, s.render = .ok a → (s.turned canvas layers).render = .ok b →
        b.toRgba8 = a.toRgba8 := by
  have hrender : Surface.SameResult s.render (s.turned canvas layers).render := by
    have hcanvas : Surface.SameResult s.canvas (s.turned canvas layers).canvas :=
      s.canvas_same hw hh canvas _
    unfold render
    generalize s.canvas = x at hcanvas
    generalize (s.turned canvas layers).canvas = y at hcanvas
    cases hcanvas with
    | ok h => exact applyAll_same h 0 s.ops layers
    | error e => exact .error _
  refine ⟨hrender, fun a b ha hb => ?_⟩
  rw [ha, hb] at hrender
  cases hrender with
  | ok h => exact h.toRgba8_eq

/-- A scene that clips, blits and is refused at last. -/
def layered : Scene where
  name := "layered"
  width := 3
  height := 2
  format := .gray8
  rotation := .upright
  background := 9
  ops := [.fillRect ⟨1, 0, 4, 1⟩ 200,
    .blit ⟨2, 2, .gray8a, .clockwise, .gradient .black (.gray 255) true⟩ 2 0 .alpha 255 .black,
    .replaceRect ⟨0, 0, 1, 1⟩ .black]

theorem render_turned_layered :
    Surface.SameResult layered.render (layered.turned .clockwise fun _ => .upsideDown).render ∧
      ∀ a b, layered.render = .ok a →
        (layered.turned .clockwise fun _ => .upsideDown).render = .ok b →
          b.toRgba8 = a.toRgba8 :=
  render_turned layered (by decide) (by decide) .clockwise fun _ => .upsideDown

end Scene

end Raster
