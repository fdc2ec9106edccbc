import Mathlib.Data.Multiset.OrderedMonoid
import Mathlib.Data.Finset.Lattice.Fold
import Mathlib.Data.Finset.Lattice.Prod
import Mathlib.Order.Lattice.Nat
import Raster.Proofs.Mixing
import Raster.Proofs.SteppedCorner

/-!
# What the smooth painter leaves

Where the corners of a box share a column or a row, the smooth painter comes by the same point for
several offsets. Still no point is blended twice: of two such offsets one lies on an axis, where a
pixel is covered wholly or not at all, and a blend toward the gray does nothing to the gray itself.
-/

namespace Raster

/-! ## Blending a gray with itself -/

namespace Channel

theorem mix_div (alpha : UInt8) {old new : UInt8} {n : Nat} (hn : n = 4 ∨ n = 8)
    (h : old.toNat / n = new.toNat / n) : (mix alpha old new).toNat / n = new.toNat / n := by
  have hold := old.toNat_lt
  have hnew := new.toNat_lt
  have hbetween := mix_between (new.toNat / n * n) (new.toNat / n * n + (n - 1)) alpha old new
  rcases hn with rfl | rfl <;> omega

theorem pack565_mix (alpha r g b : UInt8) :
    pack565 (mix alpha (red565 (pack565 r g b)) r) (mix alpha (green565 (pack565 r g b)) g)
      (mix alpha (blue565 (pack565 r g b)) b) = pack565 r g b := by
  have hr := r.toNat_lt
  have hg := g.toNat_lt
  have hb := b.toNat_lt
  have hword := toNat_pack565 r g b
  have hred : (red565 (pack565 r g b)).toNat / 8 = r.toNat / 8 := by
    rw [red565, widen5_div (by omega)]
    omega
  have hgreen : (green565 (pack565 r g b)).toNat / 4 = g.toNat / 4 := by
    rw [green565, widen6_div (by omega)]
    omega
  have hblue : (blue565 (pack565 r g b)).toNat / 8 = b.toNat / 8 := by
    rw [blue565, widen5_div (by omega)]
    omega
  apply UInt16.toNat_inj.mp
  rw [toNat_pack565, mix_div alpha (.inr rfl) hred, mix_div alpha (.inl rfl) hgreen,
    mix_div alpha (.inr rfl) hblue, hword]

end Channel

theorem Pixel.blend_ofGray (f : PixelFormat) (v alpha : UInt8) :
    (ofGray f v).blend (.gray v) alpha = ofGray f v := by
  cases f with
  | rgb565 => exact congrArg rgb565 (Channel.pack565_mix alpha v v v)
  | _ =>
      simp [ofGray, ofRgba, blend, channelwise, Rgba.gray, Rgba.luminance, Channel.luma_self,
        Channel.mix_self]

/-! ## What a point is given -/

namespace Paint

/-- What one offset gives to its points: its coverage, if there is any. -/
def share (covered : Nat) : Multiset Nat := if covered = 0 then 0 else {covered}

/-- What becomes of a pixel that is given these shares of the gray `v`, in any order. Nothing is
said of several shares of which none is a whole. -/
structure Tinted (format : PixelFormat) (v : UInt8) (shares : Multiset Nat) (old new : Pixel) :
    Prop where
  none : shares = 0 → new = old
  one : ∀ n, shares = {n} → n < 16 → new = old.blend (.gray v) (.ofNat (n * 255 / 16))
  whole : 16 ∈ shares → new = .ofGray format v
  gray : old = .ofGray format v → new = .ofGray format v

namespace Tinted

variable {format : PixelFormat} {v : UInt8} {a b : Multiset Nat} {p q r : Pixel} {covered : Nat}

theorem refl (p : Pixel) : Tinted format v 0 p p :=
  ⟨fun _ => rfl, fun _ h => absurd h.symm (Multiset.singleton_ne_zero _),
    fun h => absurd h (Multiset.notMem_zero _), id⟩

theorem trans (hpq : Tinted format v a p q) (hqr : Tinted format v b q r) :
    Tinted format v (a + b) p r where
  none h := by
    obtain ⟨ha, hb⟩ := add_eq_zero.mp h
    rw [hqr.none hb, hpq.none ha]
  one n h hn := by
    have hcard : a.card + b.card = 1 := by rw [← Multiset.card_add, h, Multiset.card_singleton]
    by_cases ha : a = 0
    · rw [ha, zero_add] at h
      rw [hqr.one n h hn, hpq.none ha]
    · have hb : b = 0 := Multiset.card_eq_zero.mp (by have := Multiset.card_pos.mpr ha; omega)
      rw [hb, add_zero] at h
      rw [hqr.none hb, hpq.one n h hn]
  whole h := by
    rcases Multiset.mem_add.mp h with ha | hb
    · exact hqr.gray (hpq.whole ha)
    · exact hqr.whole hb
  gray h := hqr.gray (hpq.gray h)

theorem of_whole : Tinted format v (share 16) p (.ofGray format v) :=
  ⟨fun h => absurd h (Multiset.singleton_ne_zero _),
    fun n h hn => absurd (Multiset.singleton_inj.mp h) (by omega), fun _ => rfl, fun _ => rfl⟩

theorem of_part (hzero : covered ≠ 0) (hwhole : covered ≠ 16) :
    Tinted format v (share covered) p (p.blend (.gray v) (.ofNat (covered * 255 / 16))) := by
  rw [share, if_neg hzero]
  refine ⟨fun h => absurd h (Multiset.singleton_ne_zero _), fun n h _ => ?_, fun h => ?_, ?_⟩
  · rw [Multiset.singleton_inj.mp h]
  · exact absurd (Multiset.mem_singleton.mp h).symm hwhole
  · rintro rfl
    exact Pixel.blend_ofGray ..

end Tinted

/-- The computation succeeds, and gives every point of the surface its shares of the gray `v`. -/
def Tints (p : Paint Unit) (l : Layout) (v : UInt8) (shares : Nat → Nat → Multiset Nat) : Prop :=
  ∃ g, p.HasEffect l (.of g) ∧ ∀ x y q, Tinted l.format v (shares x y) q (g x y q)

namespace Tints

variable {α : Type} {p q : Paint Unit} {l : Layout} {v : UInt8} {a b : Nat → Nat → Multiset Nat}

theorem skip : Tints (pure ()) l v fun _ _ => 0 :=
  ⟨_, .skip, fun _ _ q => .refl q⟩

theorem seq (hp : Tints p l v a) (hq : Tints q l v b) :
    Tints (do p; q) l v fun x y => a x y + b x y := by
  obtain ⟨g, hg, hpg⟩ := hp
  obtain ⟨h, hh, hqh⟩ := hq
  exact ⟨_, hg.seq hh, fun x y r => (hpg x y r).trans (hqh x y (g x y r))⟩

theorem forM {step : α → Paint Unit} {f : α → Nat → Nat → Multiset Nat} {as : List α}
    (h : ∀ a ∈ as, Tints (step a) l v (f a)) :
    Tints (as.forM step) l v fun x y => (as.map fun a => f a x y).sum := by
  induction as with
  | nil => exact skip
  | cons a as ih =>
      simp only [List.map_cons, List.sum_cons]
      exact seq (h a List.mem_cons_self) (ih fun b hb => h b (List.mem_cons_of_mem a hb))

theorem forEach {step : Nat → Paint Unit} {f : Nat → Nat → Nat → Multiset Nat} {start count : Nat}
    (h : ∀ i < count, Tints (step (start + i)) l v (f i)) :
    Tints (Paint.forEach step start count) l v fun x y => ∑ i ∈ Finset.range count, f i x y := by
  induction count generalizing start f with
  | zero => exact skip
  | succ count ih =>
      simp only [Finset.sum_range_succ', add_comm _ (f 0 _ _)]
      refine seq (h 0 (Nat.succ_pos _)) (ih fun i hi => ?_)
      rw [Nat.add_right_comm]
      exact h (i + 1) (by omega)

theorem of_hasEffect {n : Multiset Nat} {c d : Int} {g : Pixel → Pixel} (h : p.HasEffect l
      (.of fun x y q => if (x : Int) = c ∧ (y : Int) = d then g q else q))
    (hg : ∀ q, Tinted l.format v n q (g q)) :
    Tints p l v fun x y => if (x : Int) = c ∧ (y : Int) = d then n else 0 := by
  refine ⟨_, h, fun x y q => ?_⟩
  by_cases hxy : (x : Int) = c ∧ (y : Int) = d
  · simp only [if_pos hxy]
    exact hg q
  · simp only [if_neg hxy]
    exact .refl q

end Tints

variable {l : Layout} {rect : Rect} {border radius inner dx dy x y : Nat}

theorem coverPoint_tints (hl : l.Addressed) {covered : Nat} (hzero : covered ≠ 0) (v : UInt8)
    (a b : Int) : Tints (coverPoint covered (.gray v) a b) l v fun x y =>
      if (x : Int) = a ∧ (y : Int) = b then share covered else 0 := by
  rw [coverPoint]
  by_cases hwhole : covered = 16
  · rw [if_pos hwhole]
    exact .of_hasEffect (setPixelClamped_hasEffect hl a b _) fun q => hwhole ▸ .of_whole
  · rw [if_neg hwhole]
    exact .of_hasEffect (blendClamped_hasEffect hl a b _ _) fun q => .of_part hzero hwhole

theorem blendCorners_tints (hl : l.Addressed) (h : rect.Rounds radius) (hradius : radius < 2 ^ 28)
    (hdx : dx ≤ radius) (hdy : dy ≤ radius) (inner : Nat) (v : UInt8) :
    Tints (blendCorners (rect.corners radius) (.between radius inner) (.gray v) dx dy) l v
      fun x y => (((rect.corners radius).offsets x y).map fun o =>
        if o = ((dx : Int), (dy : Int)) then share (Ring.covered radius inner dx dy)
        else 0).sum := by
  simp only [← Corners.sum_reflections_eq]
  rw [blendCorners_eq h hradius hdx hdy]
  generalize Ring.covered radius inner dx dy = covered
  by_cases hzero : covered = 0
  · have hnone : share covered = 0 := if_pos hzero
    rw [if_pos hzero]
    simpa [hnone] using Tints.skip
  · rw [if_neg hzero]
    exact Tints.forM fun (a, b) _ => coverPoint_tints hl hzero v a b

/-- What an offset gives, if it is one that the painter visits. -/
def shareAt (outer inner : Nat) (o : Int × Int) : Multiset Nat :=
  if Visited outer o then share (Ring.covered outer inner o.1.toNat o.2.toNat) else 0

/-- What a point is given by the whole painter. -/
def sharesAt (rect : Rect) (outer inner x y : Nat) : Multiset Nat :=
  (((rect.corners outer).offsets x y).map (shareAt outer inner)).sum

theorem smoothCorner_tints (hl : l.Addressed) (h : rect.Rounds radius) (hborder : 0 < border)
    (hlow : 0 < radius) (hhigh : radius < 2 ^ 28) (v : UInt8) :
    Tints (smoothCorner rect border radius v) l v
      (sharesAt rect radius (radius - min border radius)) := by
  have hring := Ring.of?_eq hhigh (Nat.sub_le radius (min border radius))
  simp only [smoothCorner, cornerBorder?_eq h hborder hlow, Corners.of?_eq h, hring,
    ofOption_some_bind]
  generalize radius - min border radius = inner
  have hsum : sharesAt rect radius inner = fun x y =>
      ∑ dy ∈ Finset.range (radius + 1), ∑ dx ∈ Finset.range (radius + 1),
        (((rect.corners radius).offsets x y).map fun o =>
          if o = ((dx : Int), (dy : Int)) then share (Ring.covered radius inner dx dy)
          else 0).sum := by
    funext x y
    simp only [sharesAt, sum_map_sum]
    refine congrArg (fun f => (List.map f _).sum) (funext fun o => ?_)
    exact (sum_visits (fun dx dy => share (Ring.covered radius inner dx dy)) radius o).symm
  rw [hsum]
  refine Tints.forEach fun dy hdy => Tints.forEach fun dx hdx => ?_
  rw [Nat.zero_add, Nat.zero_add]
  exact blendCorners_tints hl h hhigh (by omega) (by omega) inner v

/-! ## No point is given two parts -/

theorem shareAt_cases (inner : Nat) (hlow : 0 < radius) (o : Int × Int) :
    shareAt radius inner o = 0 ∨ 16 ∈ shareAt radius inner o ∨
      ((0 < o.1 ∧ 0 < o.2) ∧ ∃ n, shareAt radius inner o = {n}) := by
  rw [shareAt, share]
  by_cases hvisited : Visited radius o
  · rw [if_pos hvisited]
    obtain ⟨⟨hx, hx'⟩, hy, hy'⟩ := hvisited
    by_cases haxis : o.1.toNat = 0 ∨ o.2.toNat = 0
    · rcases Ring.covered_axis inner haxis hlow (by omega) (by omega) with h | h
      · exact .inl (if_pos h)
      · exact .inr (.inl (by simp [h]))
    · by_cases hzero : Ring.covered radius inner o.1.toNat o.2.toNat = 0
      · exact .inl (if_pos hzero)
      · exact .inr (.inr ⟨by omega, _, if_neg hzero⟩)
  · exact .inl (if_neg hvisited)

theorem mem_sharesAt {n : Nat} : n ∈ sharesAt rect radius inner x y ↔
    ∃ o ∈ (rect.corners radius).offsets x y, n ∈ shareAt radius inner o := by
  simp [sharesAt, Corners.offsets]

/-- A point without a whole share has at most one share: two corners that it is part of have the
column or the row of their centres in common, so that one of the offsets lies on an axis. -/
theorem sharesAt_cases (h : rect.Rounds radius) (hlow : 0 < radius) (inner x y : Nat) :
    sharesAt rect radius inner x y = 0 ∨ 16 ∈ sharesAt rect radius inner x y ∨
      ∃ n, sharesAt rect radius inner x y = {n} := by
  have hw := h.le_width
  have hh := h.le_height
  have hcolumns : (rect.corners radius).left - (rect.corners radius).right ≤ 1 := by
    dsimp only [Rect.corners]
    omega
  have hrows : (rect.corners radius).top - (rect.corners radius).bottom ≤ 1 := by
    dsimp only [Rect.corners]
    omega
  by_cases hwhole : 16 ∈ sharesAt rect radius inner x y
  · exact .inr (.inl hwhole)
  have hcases (o : Int × Int) (ho : o ∈ (rect.corners radius).offsets x y) :
      shareAt radius inner o = 0 ∨
        ((0 < o.1 ∧ 0 < o.2) ∧ ∃ n, shareAt radius inner o = {n}) := by
    rcases shareAt_cases inner hlow o with hcase | hcase | hcase
    · exact .inl hcase
    · exact absurd (mem_sharesAt.mpr ⟨o, ho, hcase⟩) hwhole
    · exact .inr hcase
  simp only [Corners.offsets, List.forall_mem_cons] at hcases
  obtain ⟨hnw, hne, hsw, hse, -⟩ := hcases
  simp only [sharesAt, Corners.offsets, List.map_cons, List.map_nil, List.sum_cons, List.sum_nil]
  rcases hnw with hnw | ⟨hpos, n, hnw⟩
  · rcases hne with hne | ⟨hpos, n, hne⟩
    · rcases hsw with hsw | ⟨hpos, n, hsw⟩
      · rcases hse with hse | ⟨-, n, hse⟩
        · exact .inl (by simp [hnw, hne, hsw, hse])
        · exact .inr (.inr ⟨n, by simp [hnw, hne, hsw, hse]⟩)
      · have hse := hse.resolve_right fun h => by omega
        exact .inr (.inr ⟨n, by simp [hnw, hne, hsw, hse]⟩)
    · have hsw := hsw.resolve_right fun h => by omega
      have hse := hse.resolve_right fun h => by omega
      exact .inr (.inr ⟨n, by simp [hnw, hne, hsw, hse]⟩)
  · have hne := hne.resolve_right fun h => by omega
    have hsw := hsw.resolve_right fun h => by omega
    have hse := hse.resolve_right fun h => by omega
    exact .inr (.inr ⟨n, by simp [hnw, hne, hsw, hse]⟩)

end Paint

/-! ## The greatest coverage -/

/-- The greatest coverage among the offsets that have the point as a reflection. -/
def Rect.coverageAt (rect : Rect) (radius inner x y : Nat) : Nat :=
  ((Finset.range (radius + 1) ×ˢ Finset.range (radius + 1)).filter fun o =>
    rect.Reflects radius o.1 o.2 x y).sup fun o => Ring.covered radius inner o.1 o.2

namespace Rect

variable {rect : Rect} {radius inner dx dy x y n : Nat}

theorem covered_le_coverageAt (inner : Nat) (hdx : dx ≤ radius) (hdy : dy ≤ radius)
    (h : rect.Reflects radius dx dy x y) :
    Ring.covered radius inner dx dy ≤ rect.coverageAt radius inner x y := by
  refine Finset.le_sup (f := fun o : Nat × Nat => Ring.covered radius inner o.1 o.2)
    (b := (dx, dy)) ?_
  rw [Finset.mem_filter, Finset.mem_product]
  exact ⟨⟨Finset.mem_range_succ_iff.mpr hdx, Finset.mem_range_succ_iff.mpr hdy⟩, h⟩

theorem coverageAt_le (rect : Rect) (radius inner x y : Nat) :
    rect.coverageAt radius inner x y ≤ 16 :=
  Finset.sup_le fun _ _ => Ring.covered_le ..

theorem exists_covered_eq (h : rect.coverageAt radius inner x y ≠ 0) :
    ∃ dx ≤ radius, ∃ dy ≤ radius, rect.Reflects radius dx dy x y ∧
      Ring.covered radius inner dx dy = rect.coverageAt radius inner x y := by
  rw [coverageAt] at h ⊢
  generalize hs : (Finset.range (radius + 1) ×ˢ Finset.range (radius + 1)).filter
    (fun o => rect.Reflects radius o.1 o.2 x y) = s at h ⊢
  have hne : s.Nonempty := by
    rw [Finset.nonempty_iff_ne_empty]
    rintro rfl
    exact h Finset.sup_empty
  obtain ⟨o, ho, hsup⟩ := Finset.exists_mem_eq_sup s hne
    fun o => Ring.covered radius inner o.1 o.2
  simp only [← hs, Finset.mem_filter, Finset.mem_product, Finset.mem_range, Nat.lt_succ_iff] at ho
  exact ⟨o.1, ho.1.1, o.2, ho.1.2, ho.2, hsup.symm⟩

end Rect

namespace Paint

variable {l : Layout} {rect : Rect} {border radius inner dx dy x y n : Nat}

theorem reflects_iff_mem_offsets : rect.Reflects radius dx dy x y ↔
    ((dx : Int), (dy : Int)) ∈ (rect.corners radius).offsets x y := by
  simp only [Rect.Reflects, Corners.reflections, Corners.offsets, List.mem_cons, Prod.mk.injEq,
    List.not_mem_nil, or_false]
  omega

theorem mem_sharesAt_iff : n ∈ sharesAt rect radius inner x y ↔ n ≠ 0 ∧ ∃ dx ≤ radius,
    ∃ dy ≤ radius, rect.Reflects radius dx dy x y ∧ Ring.covered radius inner dx dy = n := by
  rw [mem_sharesAt]
  constructor
  · rintro ⟨⟨a, b⟩, ho, hn⟩
    rw [shareAt, share] at hn
    by_cases hvisited : Visited radius (a, b)
    · rw [if_pos hvisited] at hn
      obtain ⟨⟨ha, ha'⟩, hb, hb'⟩ := hvisited
      lift a to Nat using ha
      lift b to Nat using hb
      by_cases hzero : Ring.covered radius inner a b = 0
      · simp [hzero] at hn
      · simp only [Int.toNat_natCast, if_neg hzero, Multiset.mem_singleton] at hn
        subst hn
        exact ⟨hzero, a, Int.ofNat_le.mp ha', b, Int.ofNat_le.mp hb',
          reflects_iff_mem_offsets.mpr ho, rfl⟩
    · rw [if_neg hvisited] at hn
      exact absurd hn (Multiset.notMem_zero n)
  · rintro ⟨hn, dx, hdx, dy, hdy, hxy, rfl⟩
    refine ⟨_, reflects_iff_mem_offsets.mp hxy, ?_⟩
    rw [shareAt, if_pos (visited_natCast hdx hdy), Int.toNat_natCast, Int.toNat_natCast, share,
      if_neg hn]
    exact Multiset.mem_singleton_self _

theorem sharesAt_of_coverageAt (h : rect.Rounds radius) (hlow : 0 < radius) (inner x y : Nat) :
    (rect.coverageAt radius inner x y = 0 → sharesAt rect radius inner x y = 0) ∧
    (rect.coverageAt radius inner x y = 16 → 16 ∈ sharesAt rect radius inner x y) ∧
    (0 < rect.coverageAt radius inner x y → rect.coverageAt radius inner x y < 16 →
      sharesAt rect radius inner x y = {rect.coverageAt radius inner x y}) := by
  have hle {n : Nat} (hn : n ∈ sharesAt rect radius inner x y) :
      n ≠ 0 ∧ n ≤ rect.coverageAt radius inner x y := by
    obtain ⟨hne, dx, hdx, dy, hdy, hxy, rfl⟩ := mem_sharesAt_iff.mp hn
    exact ⟨hne, Rect.covered_le_coverageAt inner hdx hdy hxy⟩
  have hmem (hne : rect.coverageAt radius inner x y ≠ 0) :
      rect.coverageAt radius inner x y ∈ sharesAt rect radius inner x y :=
    mem_sharesAt_iff.mpr ⟨hne, Rect.exists_covered_eq hne⟩
  refine ⟨fun hzero => ?_, fun hwhole => ?_, fun hpos hlt => ?_⟩
  · refine Multiset.eq_zero_of_forall_notMem fun n hn => ?_
    have := hle hn
    omega
  · exact hwhole ▸ hmem (by omega)
  · have hmem := hmem (by omega)
    rcases sharesAt_cases h hlow inner x y with hnone | hwhole | ⟨n, hn⟩
    · rw [hnone] at hmem
      exact absurd hmem (Multiset.notMem_zero _)
    · have := (hle hwhole).2
      omega
    · rw [hn] at hmem ⊢
      rw [Multiset.mem_singleton.mp hmem]

end Paint

/-! ## The surface afterwards -/

/-- `t` is `s` with every point blended once toward the gray `v`, by its coverage out of sixteen,
and nothing else changed. -/
structure Surface.BlendedOnce (s t : Surface) (v : UInt8) (coverage : Nat → Nat → Nat) : Prop where
  layout_eq : t.toLayout = s.toLayout
  whole : ∀ x y, coverage x y = 16 → x < s.width → y < s.height →
    t.pixel? x y = some (.ofGray s.format v)
  part : ∀ x y, 0 < coverage x y → coverage x y < 16 → x < s.width → y < s.height →
    ∃ old new, s.pixel? x y = some old ∧ t.pixel? x y = some new ∧
      new = old.blend (.gray v) (.ofNat (coverage x y * 255 / 16)) ∧ new.alpha = old.alpha
  none : ∀ x y, coverage x y = 0 → t.pixel? x y = s.pixel? x y
  untouched : ∀ i, (∀ x y, 0 < coverage x y → ¬ s.ByteOf x y i) → t.data[i]? = s.data[i]?

namespace Paint

variable {rect : Rect} {radius inner : Nat}

theorem Tints.blendedOnce {p : Paint Unit} {s : Surface} {v : UInt8}
    (hstride : s.stride < Offset.bound) (h : Tints p s.toLayout v (sharesAt rect radius inner))
    (hrounds : rect.Rounds radius) (hlow : 0 < radius) :
    ∃ t, s.paint p = (.ok (), t) ∧ s.BlendedOnce t v (rect.coverageAt radius inner) := by
  obtain ⟨g, hg, htinted⟩ := h
  obtain ⟨hout, hrw⟩ := hg s rfl
  have hl : s.Addressed := Surface.addressed_of_stride hstride
  have hshares := sharesAt_of_coverageAt hrounds hlow inner
  refine ⟨_, Prod.ext hout rfl, hrw.layout_eq, ?_, ?_, ?_, ?_⟩
  · intro x y hwhole hx hy
    rw [hrw.pixel?_eq, Surface.pixel?_of_addressed hl hx hy, Option.map_some]
    exact congrArg some ((htinted x y _).whole ((hshares x y).2.1 hwhole))
  · intro x y hpos hlt hx hy
    have hold := Surface.pixel?_of_addressed hl hx hy
    have hnew := (htinted x y (.stored s.format s.data (s.place x y))).one _
      ((hshares x y).2.2 hpos hlt) hlt
    refine ⟨_, _, hold, by rw [hrw.pixel?_eq, hold, Option.map_some]; rfl, hnew, ?_⟩
    exact hnew ▸ Pixel.alpha_channelwise ..
  · intro x y hzero
    have hkeep : g x y = id := funext fun q => (htinted x y q).none ((hshares x y).1 hzero)
    rw [hrw.pixel?_eq, Effect.of_change, hkeep, Option.map_id, id]
  · intro i hi
    refine hrw.getElem?_of_kept (P := fun x y => 0 < rect.coverageAt radius inner x y) hstride ?_ hi
    intro x y p hzero
    exact (htinted x y p).none ((hshares x y).1 (Nat.eq_zero_of_not_pos hzero))

/-- Every point of the surface is blended once, by the greatest coverage of the offsets that have
it as a reflection, and no point outside the rectangle is. -/
theorem blends_by_coverage (s : Surface) (rect : Rect) (border radius : Nat) (v : UInt8)
    (hstride : s.stride < Offset.bound) (hright : rect.x + rect.w < Offset.bound)
    (hbottom : rect.y + rect.h < Offset.bound) (hborder : 1 ≤ border) (hlow : 1 ≤ radius)
    (hhigh : radius ≤ 2 ^ 27) (hw : 2 * radius ≤ rect.w) (hh : 2 * radius ≤ rect.h) :
    (∃ t, s.paint (smoothCorner rect border radius v) = (.ok (), t) ∧
      s.BlendedOnce t v (rect.coverageAt radius (radius - min border radius))) ∧
    ∀ x y, rect.coverageAt radius (radius - min border radius) x y ≤ 16 ∧
      (0 < rect.coverageAt radius (radius - min border radius) x y → rect.Covers x y) := by
  have hrounds := Rect.rounds_of_fits hright hbottom hw hh
  have htints := smoothCorner_tints (Surface.addressed_of_stride hstride) hrounds hborder hlow
    (hhigh.trans_lt (by decide)) v
  refine ⟨htints.blendedOnce hstride hrounds hlow,
    fun x y => ⟨Rect.coverageAt_le .., fun hpos => ?_⟩⟩
  obtain ⟨dx, hdx, dy, hdy, hxy, -⟩ := Rect.exists_covered_eq hpos.ne'
  exact hxy.covers hdx hdy hw hh hlow

/-- A surface of 5 × 4 points in gray with alpha, seen from the side. -/
def twilight : Surface where
  nativeWidth := 5
  nativeHeight := 4
  pixelStride := 5
  stride := 11
  format := .gray8a
  rotation := .counterClockwise
  data := .replicate 44 90
  fits := ⟨by decide, by decide, by decide, by decide⟩

/-- Each pair of corners side by side shares two columns, each pair on top of each other a row. -/
theorem blends_by_coverage_twilight :
    (∃ t, twilight.paint (smoothCorner ⟨0, 0, 4, 5⟩ 1 2 200) = (.ok (), t) ∧
      t.pixel? 2 0 = some (.ofGray .gray8a 200) ∧ t.pixel? 2 2 = twilight.pixel? 2 2 ∧
      ∃ old new, twilight.pixel? 1 1 = some old ∧ t.pixel? 1 1 = some new ∧
        new = old.blend (.gray 200) (.ofNat (8 * 255 / 16)) ∧ new.alpha = old.alpha) := by
  obtain ⟨⟨t, ht, hblended⟩, -⟩ := blends_by_coverage twilight ⟨0, 0, 4, 5⟩ 1 2 200 (by decide)
    (by decide) (by decide) (by decide) (by decide) (by decide) (by decide) (by decide)
  have hpart : Rect.coverageAt ⟨0, 0, 4, 5⟩ 2 1 1 1 = 8 := by decide
  refine ⟨t, ht, ?_, ?_, ?_⟩
  · exact hblended.whole 2 0 (by decide) (by decide) (by decide)
  · exact hblended.none 2 2 (by decide)
  · exact hpart ▸ hblended.part 1 1 (by decide) (by decide) (by decide) (by decide)

end Paint

end Raster
