import Raster.Proofs.Mixing
import Raster.Proofs.RenderFailure

/-!
# Gradients

A layer shows its pattern point by point, wherever the rotation puts the points. The colours of a
gradient are those of a ramp: they depend on the position along one axis alone, run from the one
colour at the first position to the other at the last, and no channel turns back on the way. For
that the weight of a position has to be 255 at the last one and never more.
-/

namespace Raster

namespace Rgba

def levels (c : Rgba) : List Nat := [c.r.toNat, c.g.toNat, c.b.toNat, c.alpha.toNat]

/-- Moves every channel toward the other colour's, alpha included, by the fraction `weight`. -/
def mix (weight : UInt8) (c d : Rgba) : Rgba :=
  ⟨Channel.mix weight c.r d.r, Channel.mix weight c.g d.g, Channel.mix weight c.b d.b,
    Channel.mix weight c.alpha d.alpha⟩

theorem mix_none (c d : Rgba) : mix 0 c d = c := by
  simp only [mix, Channel.mix_none]

theorem mix_all (c d : Rgba) : mix 255 c d = d := by
  simp only [mix, Channel.mix_all]

theorem mix_inTurn {t u : UInt8} (h : t.toNat ≤ u.toNat) (c d : Rgba) :
    Channel.EachInTurn c.levels (mix t c d).levels (mix u c d).levels d.levels :=
  .cons (Channel.mix_inTurn h c.r d.r) (.cons (Channel.mix_inTurn h c.g d.g)
    (.cons (Channel.mix_inTurn h c.b d.b) (.cons (Channel.mix_inTurn h c.alpha d.alpha) .nil)))

end Rgba

namespace Pattern

/-! ## Weights -/

/-- The coordinate along the axis of a gradient. -/
def along (vertical : Bool) (x y : Nat) : Nat := if vertical then y else x

/-- How far a position lies along a ramp, in fractions of 255. -/
def weight (position length : Nat) : Nat :=
  if 1 < length then position * 255 / (length - 1) else 0

variable {i j position length : Nat}

theorem weight_first (length : Nat) : weight 0 length = 0 := by
  rw [weight]
  split
  · rw [Nat.zero_mul, Nat.zero_div]
  · rfl

theorem weight_last (h : 1 < length) : weight (length - 1) length = 255 := by
  rw [weight, if_pos h]
  exact Nat.mul_div_cancel_left 255 (Nat.sub_pos_of_lt h)

theorem weight_mono (h : i ≤ j) (length : Nat) : weight i length ≤ weight j length := by
  rw [weight, weight]
  split
  · exact Nat.div_le_div_right (Nat.mul_le_mul_right 255 h)
  · exact Nat.le_refl 0

theorem weight_le (h : position < length) : weight position length ≤ 255 := by
  by_cases hlong : 1 < length
  · exact weight_last hlong ▸ weight_mono (Nat.le_sub_one_of_lt h) length
  · rw [weight, if_neg hlong]
    exact Nat.zero_le 255

/-- Neither the product outgrows a word nor the quotient 32 bits. -/
theorem weight?_eq (h : position < length) (hlength : length ≤ 2 ^ 56) :
    weight? position length = some (weight position length) := by
  have hle := weight_le h
  have hproduct : Word.mul position 255 = some (position * 255) := by
    have hposition := Nat.mul_le_mul_right 255 (Nat.le_trans (Nat.le_of_lt h) hlength)
    exact Word.mul_of_lt (Nat.lt_of_le_of_lt hposition (by decide))
  rw [weight] at hle ⊢
  rw [weight?]
  split
  case isTrue hlong =>
    rw [if_pos hlong] at hle
    have hsmall : position * 255 / (length - 1) < UInt32.size :=
      Nat.lt_of_le_of_lt hle (by decide)
    simp only [hproduct, Option.bind_eq_bind, Option.bind_some, Option.pure_def,
      Nat.mod_eq_of_lt hsmall]
  case isFalse => rfl

/-! ## Colours -/

/-- The colours at the positions of a ramp. -/
structure Ramp (color : Nat → Rgba) (length : Nat) (start stop : Rgba) : Prop where
  first : color 0 = start
  last : 1 < length → color (length - 1) = stop
  inTurn : ∀ i j, i ≤ j → j < length →
    Channel.EachInTurn start.levels (color i).levels (color j).levels stop.levels

variable {start stop : Rgba} {vertical : Bool} {x y width height : Nat}

/-- The colour of a gradient at a position. -/
def rampColor (start stop : Rgba) (length position : Nat) : Rgba :=
  .mix (.ofNat (weight position length)) start stop

theorem rampColor_ramp (start stop : Rgba) (length : Nat) :
    Ramp (rampColor start stop length) length start stop where
  first := by rw [rampColor, weight_first]; exact Rgba.mix_none start stop
  last h := by rw [rampColor, weight_last h]; exact Rgba.mix_all start stop
  inTurn i j hij hj := by
    have hle := weight_mono hij length
    have hfull := weight_le hj
    apply Rgba.mix_inTurn
    rw [UInt8.toNat_ofNat', UInt8.toNat_ofNat']
    omega

theorem color?_of_weight? {t : Nat} (ht : t ≤ 255)
    (h : weight? (along vertical x y) (along vertical width height) = some t) :
    (gradient start stop vertical).color? x y width height =
      some (.mix (.ofNat t) start stop) := by
  have hrest : Word.sub 255 t = some (255 - t) := if_pos ht
  have hweight : (UInt8.ofNat t).toNat = t := by
    rw [UInt8.toNat_ofNat', Nat.mod_eq_of_lt (by omega)]
  cases vertical with
  | false =>
      have h : weight? x width = some t := h
      simp [color?, h, hrest, Rgba.mix, Channel.mix, hweight]
  | true =>
      have h : weight? y height = some t := h
      simp [color?, h, hrest, Rgba.mix, Channel.mix, hweight]

theorem color?_gradient (hx : x < width) (hy : y < height)
    (hlength : along vertical width height ≤ 2 ^ 56) :
    (gradient start stop vertical).color? x y width height =
      some (rampColor start stop (along vertical width height) (along vertical x y)) := by
  have hposition : along vertical x y < along vertical width height := by
    cases vertical
    · exact hx
    · exact hy
  exact color?_of_weight? (weight_le hposition) (weight?_eq hposition hlength)

end Pattern

/-! ## Layers -/

namespace Layer

open Effect

variable {layer : Layer} {color : Nat → Nat → Rgba}

theorem painting_hasEffect {l : Layout} (hl : l.Usable) (hwidth : l.width = layer.width)
    (hheight : l.height = layer.height)
    (hcolor : ∀ x y, x < layer.width → y < layer.height →
      layer.pattern.color? x y layer.width layer.height = some (color x y)) :
    layer.painting.HasEffect l
      (region (.sized layer.width layer.height) fun x y _ => .ofRgba l.format (color x y)) := by
  refine Paint.rows_hasEffect (.sized layer.width layer.height) _ fun j hj =>
    Paint.row_hasEffect (.sized layer.width layer.height) j _ fun i hi => ?_
  refine .ofOption_some (hcolor i j hi hj) ?_
  have hset := Paint.setPixel_hasEffect hl i j (color i j)
  rw [if_pos ⟨hwidth ▸ hi, hheight ▸ hj⟩] at hset
  refine hset.congr rfl fun x y p _ _ _ => ?_
  simp only [of_change, Rect.sized, Nat.zero_add]
  split
  case isTrue hpoint => rw [hpoint.1, hpoint.2]
  case isFalse => rfl

theorem exists_render (hw : 0 < layer.width) (hh : 0 < layer.height)
    (hsize : layer.width * layer.format.bytes * layer.height < Offset.bound)
    (hcolor : ∀ x y, x < layer.width → y < layer.height →
      layer.pattern.color? x y layer.width layer.height = some (color x y)) :
    ∃ s, layer.render = .ok s ∧ (s.width = layer.width ∧ s.height = layer.height) ∧
      s.format = layer.format ∧ s.rotation = layer.rotation ∧
      ∀ x y, x < layer.width → y < layer.height →
        s.pixel? x y = some (.ofRgba layer.format (color x y)) := by
  obtain ⟨blank, hblank, hzero⟩ := Surface.allocView_ok hw hh hsize layer.rotation
  obtain ⟨hout, hrw⟩ :=
    painting_hasEffect hzero.usable hzero.width_eq hzero.height_eq hcolor blank rfl
  have hpaint : blank.paint layer.painting = (.ok (), (blank.paint layer.painting).2) :=
    Prod.ext hout rfl
  refine ⟨(blank.paint layer.painting).2, ?_, ?_, ?_, ?_, fun x y hx hy => ?_⟩
  · rw [render_eq, hblank]
    show blank.painted layer.painting = _
    rw [Surface.painted, hpaint]
    rfl
  · rw [hrw.layout_eq]
    exact ⟨hzero.width_eq, hzero.height_eq⟩
  · rw [hrw.layout_eq]
    exact hzero.format_eq
  · rw [hrw.layout_eq]
    exact Surface.rotation_of_allocView hblank
  · have hcovers : (Rect.sized layer.width layer.height).Covers x y := by
      simp [Rect.Covers, Rect.sized, hx, hy]
    rw [hrw.pixel?_eq, hzero.pixel?_eq x hx y hy, Option.map_some, region, of_change,
      if_pos hcovers, hzero.format_eq]

/-- A layer with a gradient shows a ramp along its axis, converted to its format, in whatever
format and through whatever rotation. The weight of a position is never more than 255. -/
theorem render_gradient (layer : Layer) (start stop : Rgba) (vertical : Bool)
    (hpattern : layer.pattern = .gradient start stop vertical) (hw : 0 < layer.width)
    (hh : 0 < layer.height)
    (hsize : layer.width * layer.format.bytes * layer.height < Offset.bound)
    (hlength : Pattern.along vertical layer.width layer.height ≤ 2 ^ 56) :
    ∃ s color, layer.render = .ok s ∧ (s.width = layer.width ∧ s.height = layer.height) ∧
      s.format = layer.format ∧ s.rotation = layer.rotation ∧
      (∀ x y, x < layer.width → y < layer.height →
        s.pixel? x y = some (.ofRgba layer.format (color (Pattern.along vertical x y)))) ∧
      Pattern.Ramp color (Pattern.along vertical layer.width layer.height) start stop ∧
      ∀ position < Pattern.along vertical layer.width layer.height, ∃ t ≤ 255,
        Pattern.weight? position (Pattern.along vertical layer.width layer.height) = some t := by
  obtain ⟨s, hrender, hshape, hformat, hrotation, hpixel⟩ := exists_render hw hh hsize
    fun x y hx hy => by
      rw [hpattern]
      exact Pattern.color?_gradient hx hy hlength
  exact ⟨s, _, hrender, hshape, hformat, hrotation, hpixel, Pattern.rampColor_ramp start stop _,
    fun position hposition =>
      ⟨_, Pattern.weight_le hposition, Pattern.weight?_eq hposition hlength⟩⟩

/-- A gradient that fades out downwards, in a layer that is stored lying on its side. -/
def sunset : Layer :=
  ⟨2, 3, .gray8a, .clockwise, .gradient ⟨250, 40, 0, 255⟩ ⟨10, 0, 200, 0⟩ true⟩

/-- Its last row has the colour it ends in. -/
theorem render_gradient_sunset :
    ∃ s color, sunset.render = .ok s ∧
      Pattern.Ramp color 3 ⟨250, 40, 0, 255⟩ ⟨10, 0, 200, 0⟩ ∧
      s.pixel? 1 2 = some (.ofRgba .gray8a (color 2)) ∧ color 2 = ⟨10, 0, 200, 0⟩ := by
  obtain ⟨s, color, hrender, -, -, -, hpixel, hramp, -⟩ :=
    render_gradient sunset _ _ true rfl (by decide) (by decide) (by decide) (by decide)
  exact ⟨s, color, hrender, hramp, hpixel 1 2 (by decide) (by decide), hramp.last (by decide)⟩

end Layer

end Raster
