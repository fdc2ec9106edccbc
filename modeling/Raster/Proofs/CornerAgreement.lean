import Raster.Proofs.CornerPaint
import Raster.Proofs.SingleLine

/-!
# The corner painters agree

The two painters draw the same corners: what the smooth one covers with all of its samples the
stepped one plots, and what the stepped one plots the smooth one covers with some. So a pixel that
the smooth painter makes white is white after the stepped one, and a pixel that the stepped painter
makes white is not black after the smooth one.
-/

namespace Raster

namespace Paint

/-- The stepped painter plots these offsets one after the other, in every box that the radius fits
and in every gray. -/
def Plots (border radius : Nat) (offsets : List (Nat × Nat)) : Prop :=
  ∀ rect v width corners, rect.cornerBorder? border radius = some width →
    Corners.of? rect radius = some corners →
    roundedCorner rect border radius v = do
      let p := Pixel.ofGray (← get).format v
      offsets.forM fun (dx, dy) => putCorners corners p dx dy

variable {border radius : Nat}

/-- The loop of the stepped painter, which starts at the first column, comes to its end and has
plotted these offsets. -/
def Traced (border radius : Nat) (offsets : List (Nat × Nat)) : Prop :=
  ∃ outer inner, Arc.ofRadius? radius = some outer ∧
    Arc.ofRadius? (radius - min border radius : Nat) = some inner ∧
    Columns outer (if min border radius < radius then some inner else none) 0 offsets

theorem exists_traced (border : Nat) (hlow : 0 < radius) (hhigh : radius ≤ 2 ^ 30) :
    ∃ offsets, Traced border radius offsets ∧ Plots border radius offsets ∧
      ∀ dx dy, (dx, dy) ∈ offsets ↔ OnSteppedRing radius (radius - min border radius) dx dy := by
  have hinner : radius - min border radius ≤ radius := Nat.sub_le ..
  have hword : radius < Offset.bound := hhigh.trans_lt (by decide)
  have houter := Arc.ofRadius?_eq hword
  have hinner? := Arc.ofRadius?_eq (hinner.trans_lt hword)
  have htraces : Arc.TracesInner (radius - min border radius) 0
      (if min border radius < radius then
        some ⟨(radius - min border radius : Nat), 1 - (radius - min border radius : Nat)⟩
      else none) := by
    split
    case isTrue hlt => exact Arc.Traces.start (by omega)
    case isFalse hge => exact show radius - min border radius = 0 by omega
  obtain ⟨offsets, hoffsets, hcolumns, hmem⟩ := mem_steppedOffsets (n := radius + 1) hhigh hinner
    (Arc.Traces.start hlow) htraces (by omega)
  refine ⟨offsets, ⟨_, _, houter, hinner?, hcolumns⟩, ?_,
    fun dx dy => by rw [hmem, and_iff_right (Nat.zero_le _)]⟩
  intro rect v width corners hwidth hcorners
  obtain ⟨-, -, rfl⟩ := Rect.cornerBorder?_eq_some_iff.mp hwidth
  simp only [roundedCorner, hwidth, hcorners, houter, hinner?, ofOption_some_bind]
  exact congrArg (get >>= ·) (funext fun s => steppedColumns_eq_forM corners _ hoffsets)

/-! ## What the painters do to one pixel -/

/-- The offset is one that the painters visit. -/
def Visited (radius : Nat) (o : Int × Int) : Prop :=
  (0 ≤ o.1 ∧ o.1 ≤ radius) ∧ 0 ≤ o.2 ∧ o.2 ≤ radius

instance (radius : Nat) (o : Int × Int) : Decidable (Visited radius o) :=
  inferInstanceAs (Decidable (_ ∧ _))

theorem visited_natCast {dx dy : Nat} (hdx : dx ≤ radius) (hdy : dy ≤ radius) :
    Visited radius (dx, dy) :=
  ⟨⟨Int.natCast_nonneg dx, Int.ofNat_le.mpr hdx⟩, Int.natCast_nonneg dy, Int.ofNat_le.mpr hdy⟩

/-- The coats that the smooth painter gives a pixel at an offset. -/
def coatsAt (outer inner : Nat) (o : Int × Int) : Nat :=
  if Visited outer o then coats (Ring.covered outer inner o.1.toNat o.2.toNat) else 0

theorem sum_visits {M : Type} [AddCommMonoid M] (f : Nat → Nat → M) (radius : Nat)
    (o : Int × Int) :
    (∑ dy ∈ Finset.range (radius + 1), ∑ dx ∈ Finset.range (radius + 1),
      if o = ((dx : Int), (dy : Int)) then f dx dy else 0) =
        if Visited radius o then f o.1.toNat o.2.toNat else 0 := by
  by_cases h : Visited radius o
  · rw [if_pos h]
    obtain ⟨⟨hx, hx'⟩, hy, hy'⟩ := h
    obtain ⟨a, b⟩ := o
    lift a to Nat using hx
    lift b to Nat using hy
    have ha : a ∈ Finset.range (radius + 1) := Finset.mem_range.mpr (by omega)
    have hb : b ∈ Finset.range (radius + 1) := Finset.mem_range.mpr (by omega)
    rw [Finset.sum_eq_single_of_mem b hb, Finset.sum_eq_single_of_mem a ha]
    · simp
    · intro dx _ hne
      exact if_neg fun he => hne (by simpa using (congrArg Prod.fst he).symm)
    · intro dy _ hne
      refine Finset.sum_eq_zero fun dx _ => if_neg fun he => hne ?_
      simpa using (congrArg Prod.snd he).symm
  · rw [if_neg h]
    refine Finset.sum_eq_zero fun dy hdy => Finset.sum_eq_zero fun dx hdx => if_neg ?_
    have hx := Finset.mem_range.mp hdx
    have hy := Finset.mem_range.mp hdy
    rintro rfl
    exact h (visited_natCast (by omega) (by omega))

theorem sum_map_sum {α M : Type} [AddCommMonoid M] (s : Finset Nat) (as : List α)
    (f : Nat → α → M) :
    ∑ i ∈ s, (as.map (f i)).sum = (as.map fun a => ∑ i ∈ s, f i a).sum := by
  induction as with
  | nil => simp
  | cons a as ih => simp only [List.map_cons, List.sum_cons, Finset.sum_add_distrib, ih]

variable {l : Layout} {rect : Rect} {inner : Nat}

theorem cornerBorder?_eq (h : rect.Rounds radius) (hborder : 0 < border) (hlow : 0 < radius) :
    rect.cornerBorder? border radius = some (min border radius) := by
  have hw := h.le_width
  have hh := h.le_height
  exact Rect.cornerBorder?_eq_some_iff.mpr ⟨⟨hlow, by omega, by omega⟩, hborder, rfl⟩

theorem smoothCorner_turns (hl : l.Addressed) (hformat : l.format = .gray8)
    (h : rect.Rounds radius) (hborder : 0 < border) (hlow : 0 < radius) (hhigh : radius < 2 ^ 28)
    (x y : Nat) :
    Turns (smoothCorner rect border radius 255) l x y (Coated
      (((rect.corners radius).offsets x y).map
        (coatsAt radius (radius - min border radius))).sum) := by
  have hring := Ring.of?_eq hhigh (Nat.sub_le radius (min border radius))
  simp only [smoothCorner, cornerBorder?_eq h hborder hlow, Corners.of?_eq h, hring,
    ofOption_some_bind]
  generalize radius - min border radius = inner
  have hsum : (((rect.corners radius).offsets x y).map (coatsAt radius inner)).sum =
      ∑ dy ∈ Finset.range (radius + 1), ∑ dx ∈ Finset.range (radius + 1),
        (rect.corners radius).tally x y dx dy (coats (Ring.covered radius inner dx dy)) := by
    simp only [Corners.tally, sum_map_sum]
    refine congrArg (fun f => (List.map f _).sum) (funext fun o => ?_)
    exact (sum_visits (fun dx dy => coats (Ring.covered radius inner dx dy)) radius o).symm
  rw [hsum]
  refine Turns.forEach coated_additive fun dy hdy => ?_
  refine Turns.forEach coated_additive fun dx hdx => ?_
  rw [Nat.zero_add, Nat.zero_add]
  exact blendCorners_turns hl hformat h hhigh (by omega) (by omega) x y

/-- How often the painter of the offsets meets a point. -/
def meetings (c : Corners) (offsets : List (Nat × Nat)) (x y : Nat) : Nat :=
  (offsets.map fun (dx, dy) => c.tally x y dx dy 1).sum

theorem roundedCorner_turns (hl : l.Addressed) (hformat : l.format = .gray8)
    (h : rect.Rounds radius) (hborder : 0 < border) (hlow : 0 < radius)
    {offsets : List (Nat × Nat)} (hplots : Plots border radius offsets)
    (hmem : ∀ dx dy, (dx, dy) ∈ offsets ↔ OnSteppedRing radius inner dx dy) (x y : Nat) :
    Turns (roundedCorner rect border radius 255) l x y
      (Whitened (meetings (rect.corners radius) offsets x y)) := by
  intro s hs
  have hpaint : s.paint (roundedCorner rect border radius 255) = s.paint (offsets.forM
      fun (dx, dy) => putCorners (rect.corners radius) (.gray8 255) dx dy) := by
    rw [hplots rect 255 _ _ (cornerBorder?_eq h hborder hlow) (Corners.of?_eq h),
      Surface.paint_get_bind, hs, hformat]
    rfl
  rw [hpaint]
  refine Turns.forM whitened_additive (fun (dx, dy) hoffset => ?_) s hs
  have hle := ((hmem dx dy).mp hoffset).1.le_radius
  exact putCorners_turns hl hformat h (by omega) (by omega) x y

theorem Turns.paint {p : Paint Unit} {R : Nat → Nat → UInt8 → UInt8 → Prop}
    (h : ∀ x y, Turns p l x y (R x y)) {s : Surface} (hs : s.toLayout = l) :
    ∃ t, s.paint p = (.ok (), t) ∧ t.toLayout = l ∧ ∀ x y v, s.pixel? x y = some (.gray8 v) →
      ∃ w, t.pixel? x y = some (.gray8 w) ∧ R x y v w := by
  obtain ⟨t, hpaint, hlayout, -⟩ := h 0 0 s hs
  refine ⟨t, hpaint, hlayout, fun x y => ?_⟩
  obtain ⟨u, hpaint', -, hpixel⟩ := h x y s hs
  cases hpaint.symm.trans hpaint'
  exact hpixel

/-! ## Comparing the painters -/

theorem coatsAt_cases (inner : Nat) (hlow : 0 < radius) (o : Int × Int) :
    coatsAt radius inner o = 0 ∨ (coatsAt radius inner o = 1 ∧ 2 ≤ o.1 + o.2) ∨
      (coatsAt radius inner o = 3 ∧ Visited radius o ∧
        Ring.covered radius inner o.1.toNat o.2.toNat = 16) := by
  rw [coatsAt]
  by_cases hvisited : Visited radius o
  · rw [if_pos hvisited, coats]
    by_cases hzero : Ring.covered radius inner o.1.toNat o.2.toNat = 0
    · exact .inl (if_pos hzero)
    · rw [if_neg hzero]
      by_cases hfull : Ring.covered radius inner o.1.toNat o.2.toNat = 16
      · exact .inr (.inr ⟨if_pos hfull, hvisited, hfull⟩)
      · have hfar := Ring.two_le_of_partial hlow (Nat.pos_of_ne_zero hzero) hfull
        obtain ⟨⟨hx, -⟩, hy, -⟩ := hvisited
        exact .inr (.inl ⟨if_neg hfull, by omega⟩)
  · exact .inl (if_neg hvisited)

/-- Three coats on one pixel are not partial ones: corners next to each other have at most the
column or the row of their centres in common. -/
theorem exists_full (h : rect.Rounds radius) (hlow : 0 < radius) {x y : Nat}
    (hcoats : 3 ≤ (((rect.corners radius).offsets x y).map (coatsAt radius inner)).sum) :
    ∃ o ∈ (rect.corners radius).offsets x y, Visited radius o ∧
      Ring.covered radius inner o.1.toNat o.2.toNat = 16 := by
  by_contra hnone
  have hpartial (o : Int × Int) (ho : o ∈ (rect.corners radius).offsets x y) :
      coatsAt radius inner o = 0 ∨ (coatsAt radius inner o = 1 ∧ 2 ≤ o.1 + o.2) := by
    rcases coatsAt_cases inner hlow o with hcase | hcase | ⟨-, hfull⟩
    · exact .inl hcase
    · exact .inr hcase
    · exact absurd ⟨o, ho, hfull⟩ hnone
  have hw := h.le_width
  have hh := h.le_height
  have hcolumns : (rect.corners radius).left - (rect.corners radius).right ≤ 1 := by
    dsimp only [Rect.corners]
    omega
  have hrows : (rect.corners radius).top - (rect.corners radius).bottom ≤ 1 := by
    dsimp only [Rect.corners]
    omega
  simp only [Corners.offsets, List.forall_mem_cons, List.map_cons, List.map_nil, List.sum_cons,
    List.sum_nil] at hpartial hcoats
  omega

theorem coats_pos {o : Int × Int} {x y : Nat} (ho : o ∈ (rect.corners radius).offsets x y)
    (hvisited : Visited radius o)
    (hcovered : 0 < Ring.covered radius inner o.1.toNat o.2.toNat) :
    0 < (((rect.corners radius).offsets x y).map (coatsAt radius inner)).sum := by
  refine List.sum_pos_iff_exists_pos_nat.mpr ⟨_, List.mem_map_of_mem ho, ?_⟩
  rw [coatsAt, if_pos hvisited, coats, if_neg (by omega)]
  split <;> decide

theorem meetings_pos_iff {c : Corners} {offsets : List (Nat × Nat)} {x y : Nat} :
    0 < meetings c offsets x y ↔
      ∃ dx dy, (dx, dy) ∈ offsets ∧ ((dx : Int), (dy : Int)) ∈ c.offsets x y := by
  simp only [meetings, List.sum_pos_iff_exists_pos_nat, List.mem_map]
  constructor
  · rintro ⟨_, ⟨⟨dx, dy⟩, hmem, rfl⟩, hpos⟩
    obtain ⟨_, hone, hpos⟩ := List.sum_pos_iff_exists_pos_nat.mp hpos
    obtain ⟨o, ho, rfl⟩ := List.mem_map.mp hone
    split at hpos
    case isTrue h => exact ⟨dx, dy, hmem, h ▸ ho⟩
    case isFalse => exact absurd hpos (Nat.lt_irrefl 0)
  · rintro ⟨dx, dy, hmem, hmeets⟩
    refine ⟨_, ⟨(dx, dy), hmem, rfl⟩, List.sum_pos_iff_exists_pos_nat.mpr ⟨1, ?_, Nat.one_pos⟩⟩
    exact List.mem_map.mpr ⟨_, hmeets, if_pos rfl⟩

section

variable {offsets : List (Nat × Nat)}
  (hplotted : ∀ dx dy, (dx, dy) ∈ offsets ↔ OnSteppedRing radius inner dx dy)

include hplotted

theorem meetings_pos (h : rect.Rounds radius) (hlow : 0 < radius) {x y : Nat}
    (hcoats : 3 ≤ (((rect.corners radius).offsets x y).map (coatsAt radius inner)).sum) :
    0 < meetings (rect.corners radius) offsets x y := by
  obtain ⟨⟨a, b⟩, ho, ⟨⟨ha, -⟩, hb, -⟩, hfull⟩ := exists_full h hlow hcoats
  lift a to Nat using ha
  lift b to Nat using hb
  exact meetings_pos_iff.mpr
    ⟨a, b, (hplotted a b).mpr (Ring.onSteppedRing_of_covered hfull), ho⟩

theorem coats_pos_of_meetings (hinner : inner < radius) {x y : Nat}
    (hmeets : 0 < meetings (rect.corners radius) offsets x y) :
    0 < (((rect.corners radius).offsets x y).map (coatsAt radius inner)).sum := by
  obtain ⟨dx, dy, hmem, ho⟩ := meetings_pos_iff.mp hmeets
  have hring := (hplotted dx dy).mp hmem
  have hle := hring.1.le_radius
  have hvisited : Visited radius (dx, dy) := visited_natCast (by omega) (by omega)
  exact coats_pos ho hvisited (Ring.covered_pos_of_onSteppedRing hring hinner)

end

/-- Offset by offset: one that the smooth painter covers with all samples is plotted by the stepped
one, and one that is plotted is covered by some sample. -/
def AgreeOnOffsets (border radius : Nat) : Prop :=
  ∃ offsets ring, Plots border radius offsets ∧
    Ring.of? radius (radius - min border radius : Nat) = some ring ∧
    ∀ dx dy : Nat, dx ≤ radius → dy ≤ radius → ∃ covered, ring.coverage? dx dy = some covered ∧
      (covered = 16 → (dx, dy) ∈ offsets) ∧ ((dx, dy) ∈ offsets → 0 < covered)

/-- Both painters succeed. What the smooth one makes white is white after the stepped one, and what
the stepped one makes white is not black after the smooth one. -/
def AgreeOn (s : Surface) (rect : Rect) (border radius : Nat) : Prop :=
  ∃ stepped smooth, s.paint (roundedCorner rect border radius 255) = (.ok (), stepped) ∧
    s.paint (smoothCorner rect border radius 255) = (.ok (), smooth) ∧
    ∀ x y, (smooth.pixel? x y = some (.gray8 255) → stepped.pixel? x y = some (.gray8 255)) ∧
      (stepped.pixel? x y = some (.gray8 255) →
        ∃ v, smooth.pixel? x y = some (.gray8 v) ∧ v ≠ 0)

/-- The two painters draw the same corners, offset by offset and on every gray surface that is
black before. -/
theorem corners_agree (border radius : Nat) (hborder : 1 ≤ border) (hlow : 1 ≤ radius)
    (hhigh : radius ≤ 2 ^ 27) :
    AgreeOnOffsets border radius ∧
      ∀ (rect : Rect) (s : Surface), rect.Rounds radius → s.format = .gray8 →
        (∀ x y, x < s.width → y < s.height → s.pixel? x y = some (.gray8 0)) →
        AgreeOn s rect border radius := by
  obtain ⟨offsets, -, hplots, hmem⟩ := exists_traced border hlow (hhigh.trans (by decide))
  have hlimit : radius < 2 ^ 28 := hhigh.trans_lt (by decide)
  have hinner : radius - min border radius < radius := by omega
  constructor
  · refine ⟨offsets, _, hplots, Ring.of?_eq hlimit hinner.le, fun dx dy hdx hdy => ?_⟩
    refine ⟨_, Ring.coverage?_between _ hlimit hdx hdy, fun hfull => ?_, fun hplotted => ?_⟩
    · exact (hmem dx dy).mpr (Ring.onSteppedRing_of_covered hfull)
    · exact Ring.covered_pos_of_onSteppedRing ((hmem dx dy).mp hplotted) hinner
  · intro rect s hrounds hformat hblack
    have hl : s.Addressed := Surface.addressed_of_pixel? fun x y hx hy => ⟨_, hblack x y hx hy⟩
    obtain ⟨stepped, hstepped, hlayout, hwhite⟩ :=
      Turns.paint (roundedCorner_turns hl hformat hrounds hborder hlow hplots hmem) rfl
    obtain ⟨smooth, hsmooth, hlayout', hcoated⟩ :=
      Turns.paint (smoothCorner_turns hl hformat hrounds hborder hlow hlimit) rfl
    refine ⟨stepped, smooth, hstepped, hsmooth, fun x y => ⟨fun hpixel => ?_, fun hpixel => ?_⟩⟩
    · obtain ⟨hx, hy⟩ := Surface.lt_of_pixel? hpixel
      rw [hlayout'] at hx hy
      obtain ⟨v, hv, hcoats⟩ := hcoated x y 0 (hblack x y hx hy)
      obtain ⟨w, hw, hmeets⟩ := hwhite x y 0 (hblack x y hx hy)
      cases hv.symm.trans hpixel
      rw [hw, hmeets.white (meetings_pos hmem hrounds hlow hcoats.three_le)]
    · obtain ⟨hx, hy⟩ := Surface.lt_of_pixel? hpixel
      rw [hlayout] at hx hy
      obtain ⟨v, hv, hcoats⟩ := hcoated x y 0 (hblack x y hx hy)
      obtain ⟨w, hw, hmeets⟩ := hwhite x y 0 (hblack x y hx hy)
      cases hw.symm.trans hpixel
      have hpos := hcoats.pos (coats_pos_of_meetings hmem hinner hmeets.pos)
      refine ⟨v, hv, ?_⟩
      rintro rfl
      exact absurd hpos (by decide)

/-- A black surface of 5 × 9 points, seen from the side. -/
def night : Surface where
  nativeWidth := 9
  nativeHeight := 5
  pixelStride := 9
  stride := 10
  format := .gray8
  rotation := .clockwise
  data := .replicate 50 0
  fits := ⟨by decide, by decide, by decide, by decide⟩

theorem corners_agree_night :
    AgreeOnOffsets 1 3 ∧ AgreeOn night ⟨1, 1, 7, 6⟩ 1 3 := by
  have hagree := corners_agree 1 3 (by decide) (by decide) (by decide)
  have hblack : ∀ x < 5, ∀ y < 9, night.pixel? x y = some (.gray8 0) := by decide
  refine ⟨hagree.1, hagree.2 ⟨1, 1, 7, 6⟩ night ?_ rfl fun x y hx hy => hblack x hx y hy⟩
  exact ⟨by decide, by decide, by decide, by decide⟩

end Paint

end Raster
