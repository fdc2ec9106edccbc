import Raster.Proofs.InPlace
import Raster.Proofs.SteppedCorner

/-!
# Stripes on the canvas

Hatching counts the points of the part of a rectangle that is on the canvas. That part starts where
the rectangle does, so that the stripes lie as the whole rectangle has them, however much of it
hangs off.
-/

namespace Raster

/-- The point is on a stripe of the rectangle: as far as it is from the corner, across and down,
counted modulo two stripes it is less than one. -/
def Rect.Striped (r : Rect) (stripe x y : Nat) : Prop :=
  r.Covers x y ∧ (x - r.x + (y - r.y)) % (2 * stripe) < stripe

instance (r : Rect) (stripe x y : Nat) : Decidable (r.Striped stripe x y) :=
  inferInstanceAs (Decidable (r.Covers x y ∧ _))

/-- `t` is `s` with the points of the stripes moved toward the gray `v`, and nothing else
changed. -/
structure Surface.Hatched (s t : Surface) (r : Rect) (stripe : Nat) (v alpha : UInt8) : Prop where
  layout_eq : t.toLayout = s.toLayout
  size_eq : t.data.size = s.data.size
  painted : ∀ x y, r.Striped stripe x y → x < s.width → y < s.height →
    ∃ old new, s.pixel? x y = some old ∧ t.pixel? x y = some new ∧
      new = (if alpha = 255 then old.recolor (.gray v) else old.blend (.gray v) alpha) ∧
      new.alpha = old.alpha
  kept : ∀ x y, ¬ r.Striped stripe x y → t.pixel? x y = s.pixel? x y
  untouched : ∀ i, (∀ x y, r.Striped stripe x y → ¬ s.ByteOf x y i) → t.data[i]? = s.data[i]?

namespace Paint

open Effect

variable {l : Layout} {r : Rect} {stripe x y : Nat} {v alpha : UInt8} {p : Pixel}

theorem region_hatched_change (r : Rect) (stripe : Nat) (v alpha : UInt8) (x y : Nat) (p : Pixel) :
    (region r (hatched r stripe v alpha)).change x y p =
      if r.Striped stripe x y then
        if alpha = 255 then p.recolor (.gray v) else p.blend (.gray v) alpha
      else p := by
  by_cases hc : r.Covers x y <;> simp [region, hatched, Rect.Striped, hc]

theorem hatchRect_clipped_hasEffect (hl : l.Usable) (r : Rect) (v : UInt8) (hstripe : stripe ≠ 0)
    (hperiod : 2 * stripe < Word.bound) (halpha : alpha ≠ 0) :
    (hatchRect (r.clipped l.width l.height) stripe v alpha).HasEffect l
      (region r (hatched r stripe v alpha)) := by
  have heffect := hatchRect_hasEffect hl (r.clipped l.width l.height) stripe v alpha
  cases he : (r.clipped l.width l.height).isEmpty with
  | true =>
      rw [he, Bool.true_or, Bool.true_or, if_pos rfl] at heffect
      exact heffect.congr rfl fun x y p hx hy _ =>
        (skip_follows_of_isEmpty he rfl x y p hx hy).symm
  | false =>
      rw [he, beq_eq_false_iff_ne.mpr hstripe, beq_eq_false_iff_ne.mpr halpha, Bool.false_or,
        Bool.false_or, if_neg Bool.false_ne_true, if_pos (Rect.holds_clipped l r),
        if_pos hperiod, hatched_clipped he] at heffect
      exact heffect.congr rfl fun x y p hx hy _ => (region_clipped_follows rfl x y p hx hy).symm

end Paint

namespace Surface

variable {s t : Surface} {r : Rect} {stripe : Nat} {v alpha : UInt8}

theorem Rewrites.hatched (hs : s.Usable)
    (hrw : s.Rewrites t (Effect.region r (Paint.hatched r stripe v alpha)).change) :
    s.Hatched t r stripe v alpha where
  layout_eq := hrw.layout_eq
  size_eq := hrw.size_eq
  painted x y hstriped hx hy := by
    have hold := pixel?_eq_some hs hx hy
    refine ⟨_, _, hold, ?_, rfl, ?_⟩
    · rw [hrw.pixel?_eq, hold, Option.map_some, Paint.region_hatched_change, if_pos hstriped]
    · split <;> exact Pixel.alpha_channelwise ..
  kept x y hplain := by
    have hkeep : (Effect.region r (Paint.hatched r stripe v alpha)).change x y = id := by
      funext p
      rw [Paint.region_hatched_change, if_neg hplain]
      rfl
    rw [hrw.pixel?_eq, hkeep, Option.map_id, id]
  untouched i hi := by
    refine hrw.getElem?_of_kept (P := r.Striped stripe) hs.stride_lt ?_ hi
    intro x y p hplain
    rw [Paint.region_hatched_change, if_neg hplain]

end Surface

namespace Op

/-- On any canvas, hatching an addressable rectangle, whether it lies within, hangs off or misses,
succeeds and paints exactly the points of the canvas that are on a stripe of the whole
rectangle. -/
theorem hatchRect_paints_stripes (s : Surface) (hs : s.Usable) (r : Rect)
    (hr : r.isAddressable = true) (stripe : Nat) (hlow : 1 ≤ stripe) (hhigh : stripe < 2 ^ 63)
    (v alpha : UInt8) (halpha : 1 ≤ alpha) :
    ∃ t, s.paint (hatchRect r stripe v alpha).apply = (.ok (), t) ∧
      s.Hatched t r stripe v alpha := by
  have hperiod : 2 * stripe < Word.bound := by
    have hdouble : 2 * 2 ^ 63 = Word.bound := rfl
    omega
  have hpainted : alpha ≠ 0 := by
    rintro rfl
    exact absurd halpha (by decide)
  have heffect := clip_hasEffect hs "hatch_rect" (k := (Paint.hatchRect · stripe v alpha))
    (Paint.hatchRect_clipped_hasEffect hs r v (Nat.pos_iff_ne_zero.mp hlow) hperiod hpainted)
  rw [if_pos hr] at heffect
  obtain ⟨hout, hrw⟩ := heffect s rfl
  exact ⟨_, Prod.ext hout rfl, hrw.hatched hs⟩

/-- A rectangle that hangs off the right and the lower edge of a canvas that is turned. -/
theorem hatchRect_paints_stripes_gray :
    ∃ t, Paint.graySource.paint (hatchRect ⟨1, 0, 9, 9⟩ 1 200 77).apply = (.ok (), t) ∧
      Paint.graySource.Hatched t ⟨1, 0, 9, 9⟩ 1 200 77 ∧
      t.pixel? 2 0 = Paint.graySource.pixel? 2 0 := by
  obtain ⟨t, ht, hhatched⟩ := hatchRect_paints_stripes Paint.graySource
    ⟨by decide, by decide, by decide⟩ ⟨1, 0, 9, 9⟩ (by decide) 1 (by decide) (by decide) 200 77
    (by decide)
  exact ⟨t, ht, hhatched, hhatched.kept 2 0 (by decide)⟩

end Op

end Raster
