import Raster.Proofs.BlitMode
import Raster.Proofs.Copying
import Raster.Proofs.Refusal
import Raster.Proofs.RegionBytes

/-!
# Updates in strips

A rectangle that is cut in two may be painted part by part. No pixel at the seam is met twice or
missed, and since both parts are matched with the source regions they show, everything that goes by
the position in the source goes on across the seam.
-/

namespace Raster

/-- Where a rectangle is cut in two: behind so many of its columns, or below so many of its rows. -/
inductive Cut where
  | column (k : Nat)
  | row (k : Nat)

namespace Cut

/-- The cut goes through the rectangle or along one of its edges. -/
def Fits (r : Rect) : Cut → Prop
  | column k => k ≤ r.w
  | row k => k ≤ r.h

/-- The part to the left of the cut, or above it. -/
def first (r : Rect) : Cut → Rect
  | column k => ⟨r.x, r.y, k, r.h⟩
  | row k => ⟨r.x, r.y, r.w, k⟩

/-- The part to the right of the cut, or below it. -/
def second (r : Rect) : Cut → Rect
  | column k => ⟨r.x + k, r.y, r.w - k, r.h⟩
  | row k => ⟨r.x, r.y + k, r.w, r.h - k⟩

/-- How far the second part lies to the right of the first. -/
def right : Cut → Nat
  | column k => k
  | row _ => 0

/-- How far the second part lies below the first. -/
def down : Cut → Nat
  | column _ => 0
  | row k => k

variable {cut : Cut} {r : Rect} {x y : Nat}

theorem covers_iff (h : cut.Fits r) :
    r.Covers x y ↔ (cut.first r).Covers x y ∨ (cut.second r).Covers x y := by
  cases cut <;> simp only [Fits, first, second, Rect.Covers] at h ⊢ <;> omega

theorem not_covers_second (h : (cut.first r).Covers x y) : ¬ (cut.second r).Covers x y := by
  cases cut <;> simp only [first, second, Rect.Covers] at h ⊢ <;> omega

theorem second_corner (r : Rect) (cut : Cut) :
    (cut.second r).x = r.x + cut.right ∧ (cut.second r).y = r.y + cut.down := by
  cases cut <;> exact ⟨rfl, rfl⟩

theorem holds_first {l : Layout} (h : cut.Fits r) (hr : l.Holds r) : l.Holds (cut.first r) := by
  cases cut <;> simp only [Fits, first, Layout.Holds] at h hr ⊢ <;> omega

theorem holds_second {l : Layout} (h : cut.Fits r) (hr : l.Holds r) : l.Holds (cut.second r) := by
  cases cut <;> simp only [Fits, second, Layout.Holds] at h hr ⊢ <;> omega

theorem holds_parts {l : Layout} {sx sy : Nat} (h : cut.Fits r) (hr : l.Holds ⟨sx, sy, r.w, r.h⟩) :
    l.Holds ⟨sx, sy, (cut.first r).w, (cut.first r).h⟩ ∧
      l.Holds ⟨sx + cut.right, sy + cut.down, (cut.second r).w, (cut.second r).h⟩ := by
  have h' : cut.Fits ⟨sx, sy, r.w, r.h⟩ := by cases cut <;> exact h
  have hfirst := holds_first h' hr
  have hsecond := holds_second h' hr
  cases cut <;> exact ⟨hfirst, hsecond⟩

end Cut

namespace Effect

variable {a b r : Rect} {g g' k : Nat → Nat → Pixel → Pixel}

theorem region_andThen_region (hcovers : ∀ x y, r.Covers x y ↔ a.Covers x y ∨ b.Covers x y)
    (hapart : ∀ x y, a.Covers x y → ¬ b.Covers x y)
    (ha : ∀ x y, a.Covers x y → g x y = k x y) (hb : ∀ x y, b.Covers x y → g' x y = k x y) :
    (region a g).andThen (region b g') = region r k := by
  rw [region, region, of_andThen_of, region]
  congr
  funext x y p
  by_cases hax : a.Covers x y
  · rw [if_pos hax, if_neg (hapart x y hax), if_pos ((hcovers x y).mpr (.inl hax)), ha x y hax]
  · rw [if_neg hax]
    by_cases hbx : b.Covers x y
    · rw [if_pos hbx, if_pos ((hcovers x y).mpr (.inr hbx)), hb x y hbx]
    · rw [if_neg hbx, if_neg fun h => ((hcovers x y).mp h).elim hax hbx]

theorem region_cut {cut : Cut} (hcut : cut.Fits r) :
    (region (cut.first r) g).andThen (region (cut.second r) g) = region r g :=
  region_andThen_region (fun _ _ => Cut.covers_iff hcut) (fun _ _ => Cut.not_covers_second)
    (fun _ _ _ => rfl) fun _ _ _ => rfl

theorem transfer_cut {cut : Cut} (hcut : cut.Fits r) (src : Surface) (sx sy : Nat)
    (f : Pixel → Pixel → Nat → Nat → Option Pixel) :
    (transfer src (cut.first r) sx sy f).andThen
        (transfer src (cut.second r) (sx + cut.right) (sy + cut.down) f) =
      transfer src r sx sy f := by
  refine region_andThen_region (fun _ _ => Cut.covers_iff hcut) (fun _ _ => Cut.not_covers_second)
    (fun x y hc => ?_) fun x y hc => ?_
  · cases cut <;> rfl
  · obtain ⟨hx, hy⟩ := Cut.second_corner r cut
    rw [Rect.Covers] at hc
    have hu : sx + cut.right + (x - (cut.second r).x) = sx + (x - r.x) := by omega
    have hv : sy + cut.down + (y - (cut.second r).y) = sy + (y - r.y) := by omega
    funext p
    rw [transferred, transferred, hu, hv]

end Effect

/-! ## Operators between two surfaces -/

namespace Transfer

/-- Not a failure. -/
def Succeeds : Transfer → Prop
  | fails _ => False
  | nothing | combines _ => True

theorem Succeeds.ite {c : Prop} [Decidable c] {a b : Transfer} (ha : c → a.Succeeds)
    (hb : ¬ c → b.Succeeds) : (if c then a else b).Succeeds := by
  split
  · exact ha ‹_›
  · exact hb ‹_›

theorem composite_succeeds {format source : PixelFormat} (h : format.compositesFrom source = true)
    (op : String) (mode : AlphaMode) (dither : Bool) :
    (composite op mode dither format source).Succeeds :=
  .ite (fun _ => trivial) fun hformats => absurd h hformats

theorem mask_succeeds (c : Rgba) : (mask c).Succeeds := .ite (fun _ => trivial) fun _ => trivial

variable {l : Layout} {src : Surface} {r : Rect} {sx sy : Nat}

theorem Succeeds.outcome_eq {k : Transfer} (hk : k.Succeeds) (hr : l.Holds r)
    (hregion : src.Holds ⟨sx, sy, r.w, r.h⟩) : (k.effect l src r sx sy).outcome = .ok () := by
  cases k with
  | fails cause => exact hk.elim
  | nothing => rfl
  | combines f =>
      rw [effect, Effect.between_eq_transfer hr hregion]
      rfl

theorem effect_cut (k : Transfer) {cut : Cut} (hcut : cut.Fits r) (hr : l.Holds r)
    (hregion : src.Holds ⟨sx, sy, r.w, r.h⟩) :
    (k.effect l src (cut.first r) sx sy).andThen
        (k.effect l src (cut.second r) (sx + cut.right) (sy + cut.down)) =
      k.effect l src r sx sy := by
  cases k with
  | fails cause => rfl
  | nothing => rfl
  | combines f =>
      obtain ⟨hfirst, hsecond⟩ := Cut.holds_parts hcut hregion
      rw [effect, effect, effect, Effect.between_eq_transfer (Cut.holds_first hcut hr) hfirst,
        Effect.between_eq_transfer (Cut.holds_second hcut hr) hsecond,
        Effect.between_eq_transfer hr hregion]
      exact Effect.transfer_cut hcut src sx sy f

end Transfer

namespace BlitMode

open Transfer

theorem compositesFrom_of_uncomposable {format source : PixelFormat} {op : String}
    (h : refusal?.uncomposable format source op = none) : format.compositesFrom source = true := by
  rw [refusal?.uncomposable] at h
  split at h
  case isTrue hformats => exact hformats
  case isFalse => cases h

theorem kind_succeeds (mode : BlitMode) {format source : PixelFormat}
    (h : mode.refusal? format source = none) (alpha : UInt8) (color : Rgba) :
    (mode.kind format source alpha color).Succeeds := by
  cases mode with
  | copy => trivial
  | dither => exact .ite (fun _ => trivial) fun _ => trivial
  | add =>
      refine .ite (fun hne => absurd h (by simp [refusal?, hne])) fun _ => ?_
      exact .ite (fun _ => trivial) fun _ => .ite (fun _ => trivial) fun _ => trivial
  | invert => exact .ite (fun hne => absurd h (by simp [refusal?, hne])) fun _ => trivial
  | gray => exact mask_succeeds _
  | color => exact mask_succeeds color
  | _ => exact composite_succeeds (compositesFrom_of_uncomposable h) _ _ _

end BlitMode

/-! ## Operators on one surface -/

namespace RegionOperator

open Effect

variable {l : Layout}

theorem byAlpha_ne_zero {alpha : UInt8} (h : alpha ≠ 0) (f g : Pixel → Pixel) :
    byAlpha alpha f g = if alpha = 255 then f else g := by
  funext p
  rw [byAlpha, if_neg h]
  split <;> rfl

theorem region_byAlpha {r : Rect} (hr : l.Holds r) (alpha : UInt8) (f g : Pixel → Pixel) :
    region r (fun _ _ => byAlpha alpha f g) =
      if alpha = 0 then skip else onRegion l r (if alpha = 255 then f else g) := by
  split
  case isTrue h =>
    subst h
    rw [skip, region]
    congr
    funext x y p
    exact ite_self p
  case isFalse h => rw [byAlpha_ne_zero h, onRegion_eq_region hr]

/-- An operator that applies transforms the pixels of a rectangle within the surface, of which an
empty one has none. -/
theorem paint_hasEffect (op : RegionOperator) (hl : l.Usable) (hop : op.Applies l.format) {r : Rect}
    (hr : l.Holds r) : (op.paint r).HasEffect l (region r fun _ _ => op.transform) := by
  have hon := onRegion_eq_region hr
  cases op with
  | fill v => exact hon _ ▸ Paint.fillRect_hasEffect hl r v
  | replace c =>
      have h := Paint.replaceRect_hasEffect hl r c
      rw [if_neg (Bool.eq_false_iff.mp hop), hon] at h
      exact h.region_congr fun x y p _ _ hp _ => congrArg (Pixel.ofRgba · c) hp
  | blend c =>
      rw [transform, region_byAlpha hr]
      exact Paint.blendRect_hasEffect hl r c
  | multiply c => exact hon _ ▸ Paint.multiplyRect_hasEffect hl r c
  | multiplyBlend c =>
      rw [transform, region_byAlpha hr]
      exact Paint.multiplyBlendRect_hasEffect hl r c
  | invert => exact hon _ ▸ Paint.invertRect_hasEffect hl r

end RegionOperator

/-! ## Painting part by part -/

/-- Every operator that accepts the formats leaves the same bytes, whether it paints a rectangle
within the surface in one call or in two, with the source regions that the parts show. -/
theorem Cut.paint_in_parts (cut : Cut) (dst : Surface) (r : Rect) (hdst : dst.Usable)
    (hcut : cut.Fits r) (hr : dst.Holds r) :
    (∀ src : Surface, src.Usable → ∀ (mode : BlitMode) (sx sy : Nat) (alpha : UInt8) (color : Rgba),
      src.Holds ⟨sx, sy, r.w, r.h⟩ → mode.refusal? dst.format src.format = none →
      ∃ out, dst.paint (mode.transfer src r sx sy alpha color) = (.ok (), out) ∧
        dst.paint (do
          mode.transfer src (cut.first r) sx sy alpha color
          mode.transfer src (cut.second r) (sx + cut.right) (sy + cut.down) alpha color) =
        (.ok (), out)) ∧
    (∀ op : RegionOperator, op.Applies dst.format →
      ∃ out, dst.paint (op.paint r) = (.ok (), out) ∧
        dst.paint (do op.paint (cut.first r); op.paint (cut.second r)) = (.ok (), out)) := by
  have hfirst := Cut.holds_first hcut hr
  have hsecond := Cut.holds_second hcut hr
  constructor
  · intro src hsrc mode sx sy alpha color hregion haccepted
    obtain ⟨hfirst', hsecond'⟩ := Cut.holds_parts hcut hregion
    have hparts := (mode.transfer_hasEffect_within hdst hsrc hfirst hfirst' alpha color).seq
      (mode.transfer_hasEffect_within hdst hsrc hsecond hsecond' alpha color)
    rw [Transfer.effect_cut _ hcut hr hregion] at hparts
    exact (mode.transfer_hasEffect_within hdst hsrc hr hregion alpha color).exists_paint_eq hdst
      hparts ((mode.kind_succeeds haccepted alpha color).outcome_eq hr hregion)
  · intro op hop
    have hparts := (op.paint_hasEffect hdst hop hfirst).seq (op.paint_hasEffect hdst hop hsecond)
    rw [Effect.region_cut hcut] at hparts
    exact (op.paint_hasEffect hdst hop hr).exists_paint_eq hdst hparts rfl

/-- Dithering goes on across the seam, and nothing is blended twice along it. -/
theorem Cut.paint_in_parts_seam :
    (∃ out, Paint.graySource.paint
          (BlitMode.transfer .dither Paint.colorTarget ⟨1, 0, 2, 2⟩ 1 0 255 ⟨0, 0, 0, 0⟩) =
        (.ok (), out) ∧
      Paint.graySource.paint (do
          BlitMode.transfer .dither Paint.colorTarget ⟨1, 0, 1, 2⟩ 1 0 255 ⟨0, 0, 0, 0⟩
          BlitMode.transfer .dither Paint.colorTarget ⟨2, 0, 1, 2⟩ 2 0 255 ⟨0, 0, 0, 0⟩) =
        (.ok (), out)) ∧
    ∃ out, Paint.graySource.paint ((RegionOperator.blend ⟨200, 100, 50, 128⟩).paint ⟨1, 0, 2, 2⟩) =
        (.ok (), out) ∧
      Paint.graySource.paint (do
          (RegionOperator.blend ⟨200, 100, 50, 128⟩).paint ⟨1, 0, 1, 2⟩
          (RegionOperator.blend ⟨200, 100, 50, 128⟩).paint ⟨2, 0, 1, 2⟩) = (.ok (), out) := by
  have h := Cut.paint_in_parts (.column 1) Paint.graySource ⟨1, 0, 2, 2⟩
    ⟨by decide, by decide, by decide⟩ (show 1 ≤ 2 by decide) (by decide)
  exact ⟨h.1 Paint.colorTarget ⟨by decide, by decide, by decide⟩ .dither 1 0 255 ⟨0, 0, 0, 0⟩
    (by decide) rfl, h.2 (.blend ⟨200, 100, 50, 128⟩) trivial⟩

end Raster
