import Raster.Proofs.CornerAgreement

/-!
# What the stepped painter leaves

The stepped painter traces its columns until the outer circle is behind the diagonal. By then it
has put the gray at the reflections of all offsets of the ring, and nowhere else. Which offsets
these are is known without tracing: `OnSteppedRing` compares squares.
-/

namespace Raster

/-! ## Points of a corner -/

/-- The point is one of the four reflections of the offset. -/
def Rect.Reflects (rect : Rect) (radius dx dy x y : Nat) : Prop :=
  ((x : Int), (y : Int)) ∈ (rect.corners radius).reflections dx dy

instance (rect : Rect) (radius dx dy x y : Nat) : Decidable (rect.Reflects radius dx dy x y) :=
  inferInstanceAs (Decidable (_ ∈ _))

/-- The point is a reflection of an offset of the stepped ring. -/
def Rect.OnSteppedCorner (rect : Rect) (border radius x y : Nat) : Prop :=
  ∃ dx ≤ radius, ∃ dy ≤ radius, OnSteppedRing radius (radius - min border radius) dx dy ∧
    rect.Reflects radius dx dy x y

instance (rect : Rect) (border radius x y : Nat) :
    Decidable (rect.OnSteppedCorner border radius x y) :=
  decidable_of_iff (∃ dx < radius + 1, ∃ dy < radius + 1,
    OnSteppedRing radius (radius - min border radius) dx dy ∧ rect.Reflects radius dx dy x y) (by
      simp only [Nat.lt_succ_iff, Rect.OnSteppedCorner])

namespace Rect

variable {rect : Rect} {radius dx dy x y : Nat}

theorem reflects_iff : rect.Reflects radius dx dy x y ↔
    ((x : Int) = rect.x + radius - dx ∨ (x : Int) = rect.x + rect.w - radius - 1 + dx) ∧
      ((y : Int) = rect.y + radius - dy ∨ (y : Int) = rect.y + rect.h - radius - 1 + dy) := by
  simp only [Reflects, Corners.reflections, corners, List.mem_cons, Prod.mk.injEq,
    List.not_mem_nil, or_false]
  grind

theorem Reflects.covers (h : rect.Reflects radius dx dy x y) (hdx : dx ≤ radius)
    (hdy : dy ≤ radius) (hw : 2 * radius ≤ rect.w) (hh : 2 * radius ≤ rect.h)
    (hradius : 0 < radius) : rect.Covers x y := by
  obtain ⟨hx, hy⟩ := reflects_iff.mp h
  rw [Covers]
  omega

theorem rounds_of_fits (hright : rect.x + rect.w < Offset.bound)
    (hbottom : rect.y + rect.h < Offset.bound) (hw : 2 * radius ≤ rect.w)
    (hh : 2 * radius ≤ rect.h) : rect.Rounds radius :=
  ⟨hright, hbottom, by omega, by omega⟩

end Rect

/-! ## Surfaces that are painted over -/

namespace Surface

variable {s t : Surface} {g : Nat → Nat → Pixel → Pixel} {P : Nat → Nat → Prop} {i : Nat}

theorem addressed_of_stride (h : s.stride < Offset.bound) : s.Addressed := by
  intro x y hx hy
  have hnative := Layout.native_lt hx hy
  exact addressed ⟨by omega, by omega, h⟩ x y hx hy

theorem Rewrites.getElem?_of_kept (hg : s.Rewrites t g) (hstride : s.stride < Offset.bound)
    (hkeep : ∀ x y p, ¬ P x y → g x y p = p) (hi : ∀ x y, P x y → ¬ s.ByteOf x y i) :
    t.data[i]? = s.data[i]? :=
  hg.getElem?_eq (addressed_of_stride hstride) fun x y p hbyte _ =>
    hkeep x y p fun hP => hi x y hP hbyte

/-- `t` is `s` with the gray `v` at the points of `P`, and nothing else changed. -/
structure PaintedOver (s t : Surface) (v : UInt8) (P : Nat → Nat → Prop) : Prop where
  layout_eq : t.toLayout = s.toLayout
  painted : ∀ x y, P x y → x < s.width → y < s.height →
    t.pixel? x y = some (.ofGray s.format v)
  kept : ∀ x y, ¬ P x y → t.pixel? x y = s.pixel? x y
  untouched : ∀ i, (∀ x y, P x y → ¬ s.ByteOf x y i) → t.data[i]? = s.data[i]?

end Surface

namespace Paint

/-! ## The effect of the painter -/

section

variable {α : Type} {l : Layout} {p : Pixel}

theorem HasEffect.forM_put {step : α → Paint Unit} (At : α → Nat → Nat → Prop)
    [∀ a x y, Decidable (At a x y)] {as : List α}
    (h : ∀ a ∈ as, (step a).HasEffect l (.of fun x y q => if At a x y then p else q)) :
    (as.forM step).HasEffect l (.of fun x y q => if ∃ a ∈ as, At a x y then p else q) := by
  induction as with
  | nil =>
      refine HasEffect.skip.congr rfl fun x y q _ _ _ => ?_
      simp [Effect.skip]
  | cons a as ih =>
      have hrest := ih fun b hb => h b (List.mem_cons_of_mem a hb)
      refine (HasEffect.seq (h a List.mem_cons_self) hrest).congr rfl fun x y q _ _ _ => ?_
      simp only [Effect.of_andThen_of, Effect.of_change, List.exists_mem_cons_iff]
      by_cases hrest : ∃ b ∈ as, At b x y
      · rw [if_pos hrest, if_pos (.inr hrest)]
      · rw [if_neg hrest]
        exact if_congr (or_iff_left hrest) rfl rfl

end

variable {l : Layout} {rect : Rect} {border radius dx dy : Nat} {p : Pixel}

theorem putCorners_hasEffect (hl : l.Addressed) (h : rect.Rounds radius) (hdx : dx ≤ radius)
    (hdy : dy ≤ radius) (hp : p.format = l.format) :
    (putCorners (rect.corners radius) p dx dy).HasEffect l
      (.of fun x y q => if rect.Reflects radius dx dy x y then p else q) := by
  rw [putCorners_eq (Corners.of?_eq h) hdx hdy]
  refine (HasEffect.forM_put (fun point x y => (x : Int) = point.1 ∧ (y : Int) = point.2)
    fun point _ => putClamped_hasEffect hl point.1 point.2 hp).congr rfl fun x y q _ _ _ => ?_
  refine if_congr ⟨fun hxy => ⟨_, hxy, rfl, rfl⟩, ?_⟩ rfl rfl
  rintro ⟨⟨a, b⟩, hmem, hx, hy⟩
  exact show ((x : Int), (y : Int)) ∈ _ from hx ▸ hy ▸ hmem

theorem roundedCorner_hasEffect (hl : l.Addressed) (h : rect.Rounds radius) (hborder : 0 < border)
    (hlow : 0 < radius) {offsets : List (Nat × Nat)} (hplots : Plots border radius offsets)
    (hmem : ∀ o ∈ offsets, o.1 ≤ radius ∧ o.2 ≤ radius) (v : UInt8) :
    (roundedCorner rect border radius v).HasEffect l (.of fun x y q =>
      if ∃ o ∈ offsets, rect.Reflects radius o.1 o.2 x y then .ofGray l.format v else q) := by
  rw [hplots rect v _ _ (cornerBorder?_eq h hborder hlow) (Corners.of?_eq h)]
  refine .get_bind fun s hs => ?_
  rw [hs]
  exact .forM_put _ fun o ho =>
    putCorners_hasEffect hl h (hmem o ho).1 (hmem o ho).2 (Pixel.format_ofRgba ..)

/-- A border or radius of zero, or a radius that does not fit, paints nothing. Otherwise the loop
over the columns comes to its end, and the gray is exactly at the points of the ring's four
quarters, all of which lie in the rectangle. -/
theorem paints_annulus (s : Surface) (rect : Rect) (border radius : Nat) (v : UInt8)
    (hstride : s.stride < Offset.bound) (hright : rect.x + rect.w < Offset.bound)
    (hbottom : rect.y + rect.h < Offset.bound) :
    (radius = 0 ∨ border = 0 ∨ rect.w < 2 * radius ∨ rect.h < 2 * radius →
      s.paint (roundedCorner rect border radius v) = (.ok (), s)) ∧
    (0 < radius → 0 < border → 2 * radius ≤ rect.w → 2 * radius ≤ rect.h → radius ≤ 2 ^ 30 →
      (∃ offsets, Traced border radius offsets ∧ Plots border radius offsets) ∧
      (∃ t, s.paint (roundedCorner rect border radius v) = (.ok (), t) ∧
        s.PaintedOver t v (rect.OnSteppedCorner border radius)) ∧
      ∀ x y, rect.OnSteppedCorner border radius x y → rect.Covers x y) := by
  constructor
  · intro h
    rw [roundedCorner, Rect.cornerBorder?_eq_none_iff.mpr h]
    rfl
  intro hlow hborder hw hh hhigh
  have hrounds := Rect.rounds_of_fits hright hbottom hw hh
  obtain ⟨offsets, htraced, hplots, hmem⟩ := exists_traced border hlow hhigh
  have hwithin (o : Nat × Nat) (ho : o ∈ offsets) : o.1 ≤ radius ∧ o.2 ≤ radius := by
    have hle := ((hmem o.1 o.2).mp ho).1.le_radius
    omega
  have hcorner (x y : Nat) : (∃ o ∈ offsets, rect.Reflects radius o.1 o.2 x y) ↔
      rect.OnSteppedCorner border radius x y := by
    constructor
    · rintro ⟨o, ho, hxy⟩
      exact ⟨o.1, (hwithin o ho).1, o.2, (hwithin o ho).2, (hmem o.1 o.2).mp ho, hxy⟩
    · rintro ⟨dx, -, dy, -, hring, hxy⟩
      exact ⟨(dx, dy), (hmem dx dy).mpr hring, hxy⟩
  have hl : s.Addressed := Surface.addressed_of_stride hstride
  obtain ⟨hout, hrw⟩ := roundedCorner_hasEffect hl hrounds hborder hlow hplots hwithin v s rfl
  refine ⟨⟨offsets, htraced, hplots⟩, ⟨_, Prod.ext hout rfl, ?_⟩, ?_⟩
  · refine ⟨hrw.layout_eq, fun x y hxy hx hy => ?_, fun x y hxy => ?_, fun i hi => ?_⟩
    · rw [hrw.pixel?_eq, Surface.pixel?_of_addressed hl hx hy, Option.map_some, Effect.of_change,
        if_pos ((hcorner x y).mpr hxy)]
    · simp only [hrw.pixel?_eq, Effect.of_change, if_neg fun h => hxy ((hcorner x y).mp h),
        Option.map_id']
    · exact hrw.getElem?_of_kept hstride
        (fun x y p hxy => if_neg fun h => hxy ((hcorner x y).mp h)) hi
  · rintro x y ⟨dx, hdx, dy, hdy, -, hxy⟩
    exact hxy.covers hdx hdy hw hh hlow

/-- A surface of 8 × 6 points that stands on its head, with room between its scanlines. -/
def dusk : Surface where
  nativeWidth := 8
  nativeHeight := 6
  pixelStride := 9
  stride := 19
  format := .rgb565
  rotation := .upsideDown
  data := .replicate 111 0
  fits := ⟨by decide, by decide, by decide, by decide⟩

/-- The corners share a column, the box hangs off the surface, and the middle of the ring stays
as it was. -/
theorem paints_annulus_dusk :
    (∃ t, dusk.paint (roundedCorner ⟨1, 0, 7, 8⟩ 2 3 200) = (.ok (), t) ∧
      t.pixel? 4 1 = some (.ofGray .rgb565 200) ∧ t.pixel? 4 3 = dusk.pixel? 4 3) ∧
    dusk.paint (roundedCorner ⟨1, 0, 7, 8⟩ 2 4 200) = (.ok (), dusk) := by
  have hpaints (radius : Nat) := paints_annulus dusk ⟨1, 0, 7, 8⟩ 2 radius 200 (by decide)
    (by decide) (by decide)
  obtain ⟨-, ⟨t, ht, hpainted⟩, -⟩ :=
    (hpaints 3).2 (by decide) (by decide) (by decide) (by decide) (by decide)
  refine ⟨⟨t, ht, ?_, ?_⟩, (hpaints 4).1 (by decide)⟩
  · exact hpainted.painted 4 1 (by decide) (by decide) (by decide)
  · exact hpainted.kept 4 3 (by decide)

end Paint

end Raster
