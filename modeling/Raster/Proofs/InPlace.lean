import Raster.Proofs.Crop
import Raster.Proofs.EmptyRegion
import Raster.Proofs.RegionBytes
import Raster.Proofs.RenderFailure
import Raster.Proofs.SceneCoding

/-!
# Operations without a layer

Clipping leaves every operator a rectangle that it can paint. The width of the stripes is the one
argument that nothing looks at before it is calculated with: hatching faults where two stripes are
wider than any word, and no other operation on a rectangle ever does.
-/

namespace Raster

theorem Refusal.verdict_ne_fault (o : Option Refusal) : verdict o ≠ .error .fault := by
  cases o <;> nofun

namespace Rect

theorem holds_clipped (l : Layout) (r : Rect) : l.Holds (r.clipped l.width l.height) := by
  rw [clipped]
  split
  · exact ⟨by dsimp only; omega, by dsimp only; omega⟩
  · exact ⟨Nat.zero_le _, Nat.zero_le _⟩

theorem meets_iff_clipped {r : Rect} {w h : Nat} :
    r.Meets w h ↔ (r.clipped w h).isEmpty = false := by
  rw [meets_iff, ← Bool.not_eq_true, isEmpty_iff, clipped]
  simp only [Nat.lt_min]
  split
  case isTrue hlt =>
    dsimp only
    omega
  case isFalse hlt => exact iff_of_false (fun h => hlt (by omega)) (not_not_intro (.inl rfl))

end Rect

/-! ## Operators on a rectangle within the surface -/

theorem RegionOperator.paint_ne_fault {s : Surface} {r : Rect} (op : RegionOperator)
    (hr : s.Holds r) : (s.paint (op.paint r)).1 ≠ .error .fault := by
  cases hempty : r.isEmpty with
  | true =>
      cases op with
      | fill v =>
          rw [paint, Paint.fillRect, Paint.paint_unless_isEmpty hempty]
          exact Refusal.verdict_ne_fault none
      | replace c =>
          rw [paint, Paint.paint_replaceRect_of_isEmpty hempty]
          exact Refusal.verdict_ne_fault _
      | blend c =>
          rw [paint, Paint.blendRect, Paint.paint_unless_isEmpty_or hempty]
          exact Refusal.verdict_ne_fault none
      | multiply c =>
          rw [paint, Paint.multiplyRect, Paint.paint_unless_isEmpty hempty]
          exact Refusal.verdict_ne_fault none
      | multiplyBlend c =>
          rw [paint, Paint.multiplyBlendRect, Paint.paint_unless_isEmpty_or hempty]
          exact Refusal.verdict_ne_fault none
      | invert =>
          rw [paint, Paint.invertRect, Paint.paint_unless_isEmpty hempty]
          exact Refusal.verdict_ne_fault none
  | false =>
      by_cases hop : op.Applies s.format
      · obtain ⟨out, hout, -⟩ := paint_changes hempty hr op hop
        rw [hout]
        exact Refusal.verdict_ne_fault none
      · cases op with
        | replace c =>
            have hgray : s.format.isGray = true := by simpa [Applies] using hop
            rw [paint, Paint.replaceRect, Surface.paint_get_bind]
            dsimp only
            rw [if_pos hgray]
            exact Refusal.verdict_ne_fault (some _)
        | _ => exact absurd trivial hop

namespace Paint

variable {s : Surface} {r : Rect}

/-- Hatching faults where two stripes are too wide to be counted in a word, if there is anything
to paint. -/
theorem hatchRect_fault_iff (hr : s.Holds r) (hstride : r.isEmpty = false → s.stride < Offset.bound)
    (stripe : Nat) (v alpha : UInt8) :
    (s.paint (hatchRect r stripe v alpha)).1 = .error .fault ↔
      r.isEmpty = false ∧ alpha ≠ 0 ∧ Word.bound ≤ 2 * stripe := by
  cases hempty : r.isEmpty with
  | true => simp [paint_hatchRect_of_isEmpty hempty]
  | false =>
      have hs : s.Usable := Layout.usable_of_holds (hstride hempty) hempty hr
      rw [(hatchRect_hasEffect hs r stripe v alpha s rfl).1, hempty, if_pos hr]
      by_cases halpha : alpha = 0
      · simp [halpha, Effect.skip]
      by_cases hstripe : stripe = 0
      · simp [hstripe, Effect.skip, Word.bound]
      · by_cases hperiod : 2 * stripe < Word.bound
        · simp [halpha, hstripe, hperiod, Effect.region]
        · simp [halpha, hstripe, hperiod, Effect.fail, Nat.le_of_not_lt hperiod]

end Paint

namespace Op

variable {s : Surface} {r : Rect} {name : String}

/-- On a surface whose sides are words, what follows clipping gets the part of the rectangle on the
surface. -/
theorem paint_clip (hw : s.width < Word.bound) (hh : s.height < Word.bound) (hr : ¬ r.Overflows)
    (k : Rect → Paint Unit) :
    s.paint (do k (← clip name r)) = s.paint (k (r.clipped s.width s.height)) := by
  have haddressable : r.isAddressable = true := by rwa [Rect.overflows_iff, not_not] at hr
  have hpart : r.intersect? s.bounds = some (if (r.clipped s.width s.height).isEmpty then none
      else some (r.clipped s.width s.height)) := Rect.intersect?_sized hw hh haddressable
  rw [clip, requireAddressable, if_pos haddressable]
  simp only [bind_assoc, pure_bind]
  rw [Surface.paint_get_bind, s.paint_ofOption_bind hpart]
  split
  case isTrue he => rw [Rect.clipped_eq_empty he]; rfl
  case isFalse => rfl

theorem paint_clip_of_overflows (hr : r.Overflows) (k : Rect → Paint Unit) :
    (s.paint (do k (← clip name r))).1 = .error (.refused (.invalidRect name r)) := by
  rw [clip, requireAddressable, if_neg (Rect.overflows_iff.mp hr)]
  rfl

/-- The operation paints a rectangle, or the whole canvas, with one of the operators that go
through a rectangle. -/
def InPlace : Op → Prop
  | roundedCorner .. | blit .. => False
  | _ => True

/-- Stripes are to be painted on a canvas of this size, of which two are wider than any word. -/
def StripeOverflows (op : Op) (width height : Nat) : Prop :=
  match op with
  | hatchRect r stripe _ alpha =>
    ¬ r.Overflows ∧ r.Meets width height ∧ alpha ≠ 0 ∧ Word.bound ≤ 2 * stripe
  | _ => False

instance (op : Op) (width height : Nat) : Decidable (op.StripeOverflows width height) :=
  match op with
  | hatchRect .. => inferInstanceAs (Decidable (_ ∧ _))
  | fill _ | fillRect .. | replaceRect .. | blendGray .. | blendColor .. | multiplyRect ..
  | invertRect _ | roundedCorner .. | blit .. => instDecidableFalse

section Canvas

variable (hw : s.width < Word.bound) (hh : s.height < Word.bound)

include hw hh

theorem clip_ne_fault (k : Rect → Paint Unit)
    (hk : ∀ part, s.Holds part → (s.paint (k part)).1 ≠ .error .fault) :
    (s.paint (do k (← clip name r))).1 ≠ .error .fault := by
  by_cases hr : r.Overflows
  · rw [paint_clip_of_overflows hr]
    nofun
  · rw [paint_clip hw hh hr]
    exact hk _ (Rect.holds_clipped s.toLayout r)

theorem apply_fault_iff (hstride : 0 < s.width → 0 < s.height → s.stride < Offset.bound) {op : Op}
    (hop : op.InPlace) :
    (s.paint op.apply).1 = .error .fault ↔ op.StripeOverflows s.width s.height := by
  have hregion (name : String) (r : Rect) (operator : RegionOperator) :
      (s.paint (do operator.paint (← clip name r))).1 ≠ .error .fault :=
    clip_ne_fault hw hh operator.paint fun part hpart => operator.paint_ne_fault hpart
  cases op with
  | fill v =>
      exact iff_of_false ((RegionOperator.fill v).paint_ne_fault s.holds_bounds) id
  | fillRect r v => exact iff_of_false (hregion _ r (.fill v)) id
  | replaceRect r c => exact iff_of_false (hregion _ r (.replace c)) id
  | blendGray r c => exact iff_of_false (hregion _ r (.blend c.toRgba)) id
  | blendColor r c => exact iff_of_false (hregion _ r (.blend c)) id
  | multiplyRect r c => exact iff_of_false (hregion _ r (.multiplyBlend c)) id
  | invertRect r => exact iff_of_false (hregion _ r .invert) id
  | hatchRect r stripe v alpha =>
      by_cases hr : r.Overflows
      · refine iff_of_false ?_ fun h => h.1 hr
        rw [apply, paint_clip_of_overflows hr]
        nofun
      · rw [apply, paint_clip hw hh hr, Paint.hatchRect_fault_iff (Rect.holds_clipped s.toLayout r),
          StripeOverflows, Rect.meets_iff_clipped, and_iff_right hr]
        intro hne
        obtain ⟨⟨hx, -⟩, hy, -⟩ := Rect.meets_iff.mp (Rect.meets_iff_clipped.mpr hne)
        exact hstride (Nat.zero_lt_of_lt hx) (Nat.zero_lt_of_lt hy)
  | roundedCorner => exact hop.elim
  | blit => exact hop.elim

end Canvas

end Op

/-! ## On the image of a scene -/

namespace Scene

/-- A rendered image has the size of its scene, and if it shows anything, scanlines at a bounded
distance. -/
theorem shape_of_render {scene : Scene} {a : Surface} (h : scene.render = .ok a) :
    a.width = scene.width ∧ a.height = scene.height ∧
      (0 < scene.width → 0 < scene.height → a.stride < Offset.bound) := by
  rw [render] at h
  cases hcanvas : scene.canvas with
  | error e =>
      rw [hcanvas] at h
      cases h
  | ok blank =>
      rw [hcanvas] at h
      have hlayout := layout_of_applyAll h
      obtain ⟨hwidth, hheight, -⟩ := shape_of_canvas hcanvas
      rw [hlayout]
      exact ⟨hwidth, hheight, fun hw hh => (canvas_ok hw hh hcanvas).1.stride_lt⟩

end Scene

namespace Op

/-- On an image that was rendered, of whatever size, format and rotation, an operation without a
layer succeeds or is refused, whatever its arguments, except that it faults where it is to paint
stripes of which two are wider than any word. -/
theorem outcome_in_place (scene : Scene) (hscene : AreWords scene.words) (a : Surface)
    (ha : scene.render = .ok a) (op : Op) (hop : op.InPlace) :
    (a.paint op.apply).1 = if op.StripeOverflows a.width a.height then .error .fault
      else Refusal.verdict (op.refusal? a.width a.height a.format) := by
  obtain ⟨hwidth, hheight, hstride⟩ := Scene.shape_of_render ha
  simp only [AreWords, Scene.words, List.forall_mem_cons] at hscene
  have hfault := apply_fault_iff (hwidth ▸ hscene.1) (hheight ▸ hscene.2.1)
    (hwidth ▸ hheight ▸ hstride) hop
  split
  case isTrue hover => exact hfault.mpr hover
  case isFalse hfits => exact op.apply_settles.outcome_eq rfl fun h => hfits (hfault.mp h)

/-- A scene of one gray point, and nothing painted on it. -/
def pinhole : Scene where
  name := "pinhole"
  width := 1
  height := 1
  format := .gray8
  rotation := .upright
  background := 7
  ops := []

def pinholeImage : Surface where
  nativeWidth := 1
  nativeHeight := 1
  pixelStride := 1
  stride := 1
  format := .gray8
  rotation := .upright
  data := #[7]
  fits := ⟨by decide, by decide, by decide, by decide⟩

/-- Stripes just narrow enough, too wide ones, such beside the canvas, and a rectangle whose far
edge is no word. -/
theorem outcome_in_place_pinhole :
    (pinholeImage.paint (hatchRect ⟨0, 0, 2, 2⟩ 0x7fff_ffff_ffff_ffff 0 255).apply).1 = .ok () ∧
    (pinholeImage.paint (hatchRect ⟨0, 0, 2, 2⟩ 0x8000_0000_0000_0000 0 255).apply).1 =
      .error .fault ∧
    (pinholeImage.paint (hatchRect ⟨1, 0, 2, 2⟩ 0xffff_ffff_ffff_ffff 0 255).apply).1 = .ok () ∧
    (pinholeImage.paint (invertRect ⟨0, 1, 1, 0xffff_ffff_ffff_ffff⟩).apply).1 =
      .error (.refused (.invalidRect "invert_rect" ⟨0, 1, 1, 0xffff_ffff_ffff_ffff⟩)) := by
  have h := outcome_in_place pinhole (by decide) pinholeImage rfl
  exact ⟨h (hatchRect _ _ _ _) trivial, h (hatchRect _ _ _ _) trivial, h (hatchRect _ _ _ _) trivial,
    h (invertRect _) trivial⟩

theorem not_all_in_place_answered :
    ¬ ∀ (scene : Scene) (a : Surface) (op : Op), AreWords scene.words → AreWords op.words →
      scene.render = .ok a → op.InPlace →
      (a.paint op.apply).1 = .ok () ∨ ∃ cause, (a.paint op.apply).1 = .error (.refused cause) := by
  intro h
  have hfault : (pinholeImage.paint (hatchRect ⟨0, 0, 1, 1⟩ 0x8000_0000_0000_0000 0 255).apply).1 =
      .error .fault := rfl
  rcases h pinhole pinholeImage (hatchRect ⟨0, 0, 1, 1⟩ 0x8000_0000_0000_0000 0 255) (by decide)
    (by decide) rfl trivial with hok | ⟨cause, hrefused⟩
  · cases hfault.symm.trans hok
  · cases hfault.symm.trans hrefused

end Op

end Raster
