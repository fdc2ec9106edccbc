import Mathlib.Algebra.BigOperators.Group.Finset.Basic
import Raster.Proofs.Corner
import Raster.Proofs.CornerFootprint
import Raster.Proofs.RingCoverage

/-!
# One gray pixel under the corner painters

What a corner painter makes of one pixel of a gray surface depends on the offsets at which it
meets the pixel. The stepped painter whitens the pixel when it meets it at all. The smooth one adds
a coat of white each time: full coverage counts as three coats, because two partial coats over
black are not yet white.
-/

namespace Raster

namespace Paint

theorem ofOption_some_bind {α β : Type} (a : α) (k : α → Paint β) :
    ofOption (some a) >>= k = k a :=
  rfl

/-- On every surface of the layout the computation succeeds and takes the gray at the point to one
that is related to it. -/
def Turns (p : Paint Unit) (l : Layout) (x y : Nat) (R : UInt8 → UInt8 → Prop) : Prop :=
  ∀ s : Surface, s.toLayout = l → ∃ t, s.paint p = (.ok (), t) ∧ t.toLayout = l ∧
    ∀ v, s.pixel? x y = some (.gray8 v) → ∃ w, t.pixel? x y = some (.gray8 w) ∧ R v w

/-- A relation between grays by a count: nothing counts nothing, and what happens one after the
other adds up. -/
structure Additive (R : Nat → UInt8 → UInt8 → Prop) : Prop where
  refl : ∀ v, R 0 v v
  trans : ∀ {m n u v w}, R m u v → R n v w → R (m + n) u w

namespace Turns

variable {α : Type} {p q : Paint Unit} {l : Layout} {x y m n : Nat}
  {R : Nat → UInt8 → UInt8 → Prop} (hR : Additive R)

include hR

theorem skip : Turns (pure ()) l x y (R 0) :=
  fun s hs => ⟨s, rfl, hs, fun v hv => ⟨v, hv, hR.refl v⟩⟩

theorem seq (hp : Turns p l x y (R m)) (hq : Turns q l x y (R n)) :
    Turns (do p; q) l x y (R (m + n)) := by
  intro s hs
  obtain ⟨t, hpaint, ht, hst⟩ := hp s hs
  obtain ⟨u, hpaint', hu, htu⟩ := hq t ht
  refine ⟨u, by rw [Surface.paint_bind, hpaint]; exact hpaint', hu, fun v hv => ?_⟩
  obtain ⟨w, hw, hvw⟩ := hst v hv
  obtain ⟨w', hw', hww'⟩ := htu w hw
  exact ⟨w', hw', hR.trans hvw hww'⟩

theorem forM {step : α → Paint Unit} {f : α → Nat} {as : List α}
    (h : ∀ a ∈ as, Turns (step a) l x y (R (f a))) :
    Turns (as.forM step) l x y (R (as.map f).sum) := by
  induction as with
  | nil => exact skip hR
  | cons a as ih =>
      rw [List.map_cons, List.sum_cons]
      exact seq hR (h a List.mem_cons_self) (ih fun b hb => h b (List.mem_cons_of_mem a hb))

theorem forEach {step : Nat → Paint Unit} {f : Nat → Nat} {start count : Nat}
    (h : ∀ i < count, Turns (step (start + i)) l x y (R (f i))) :
    Turns (Paint.forEach step start count) l x y (R (∑ i ∈ Finset.range count, f i)) := by
  induction count generalizing start f with
  | zero => exact skip hR
  | succ count ih =>
      rw [Finset.sum_range_succ', Nat.add_comm _ (f 0)]
      refine seq hR (h 0 (Nat.succ_pos _)) (ih fun i hi => ?_)
      rw [Nat.add_right_comm]
      exact h (i + 1) (by omega)

theorem of_hasEffect {a b : Int} {g : Pixel → Pixel} (h : p.HasEffect l
      (.of fun x' y' q => if (x' : Int) = a ∧ (y' : Int) = b then g q else q))
    (hg : ∀ v, ∃ w, g (.gray8 v) = .gray8 w ∧ R n v w) :
    Turns p l x y (R (if (x : Int) = a ∧ (y : Int) = b then n else 0)) := by
  intro s hs
  obtain ⟨hout, hrw⟩ := h s hs
  refine ⟨_, Prod.ext hout rfl, hrw.layout_eq.trans hs, fun v hv => ?_⟩
  rw [hrw.pixel?_eq, hv, Option.map_some, Effect.of_change]
  split
  case isTrue =>
    obtain ⟨w, hw, hvw⟩ := hg v
    exact ⟨w, congrArg some hw, hvw⟩
  case isFalse => exact ⟨v, rfl, hR.refl v⟩

end Turns

/-! ## Whitening -/

/-- The gray has been painted white `n` times over. -/
structure Whitened (n : Nat) (v w : UInt8) : Prop where
  same : n = 0 → w = v
  white : 0 < n → w = 255

theorem whitened_additive : Additive Whitened where
  refl _ := ⟨fun _ => rfl, fun h => absurd h (Nat.lt_irrefl 0)⟩
  trans {m n u v w} huv hvw := by
    refine ⟨fun h => ?_, fun h => ?_⟩
    · rw [hvw.same (by omega), huv.same (by omega)]
    · rcases Nat.eq_zero_or_pos n with rfl | hn
      · rw [hvw.same rfl, huv.white (by omega)]
      · exact hvw.white hn

theorem Whitened.pos {n : Nat} (h : Whitened n 0 255) : 0 < n := by
  rcases Nat.eq_zero_or_pos n with hn | hn
  · exact absurd (h.same hn) (by decide)
  · exact hn

/-! ## Coats of white -/

/-- The lightest gray that `n` coats of white leave over black. -/
def lightest : Nat → Nat
  | 0 => 0
  | 1 => 239
  | 2 => 254
  | _ => 255

/-- How many coats a pixel gets of which so many samples are covered. -/
def coats (covered : Nat) : Nat := if covered = 0 then 0 else if covered = 16 then 3 else 1

/-- The gray has become lighter by at most `n` coats of white, and is not black after any. -/
structure Coated (n : Nat) (v w : UInt8) : Prop where
  le_lightest : ∀ m, v.toNat ≤ lightest m → w.toNat ≤ lightest (m + n)
  le : v.toNat ≤ w.toNat
  pos : 0 < n → 0 < w.toNat

theorem coated_additive : Additive Coated where
  refl _ := ⟨fun _ h => h, Nat.le_refl _, fun h => absurd h (Nat.lt_irrefl 0)⟩
  trans {m n u v w} huv hvw := by
    refine ⟨fun k hk => ?_, huv.le.trans hvw.le, fun hpos => ?_⟩
    · rw [← Nat.add_assoc]
      exact hvw.le_lightest _ (huv.le_lightest k hk)
    · rcases Nat.eq_zero_or_pos n with rfl | hn
      · exact (huv.pos hpos).trans_le hvw.le
      · exact hvw.pos hn

theorem Coated.three_le {n : Nat} (h : Coated n 0 255) : 3 ≤ n := by
  have hlight := h.le_lightest 0 (Nat.le_refl 0)
  rw [Nat.zero_add] at hlight
  match n, hlight with
  | 0, hlight => exact absurd hlight (by decide)
  | 1, hlight => exact absurd hlight (by decide)
  | 2, hlight => exact absurd hlight (by decide)
  | n + 3, _ => omega

theorem coated_full (v : UInt8) : Coated 3 v 255 := by
  refine ⟨fun m _ => le_refl 255, ?_, fun _ => by decide⟩
  exact Nat.le_of_lt_succ v.toNat_lt

/-- A partial coat makes every gray lighter, and a coat over black leaves at most 239. -/
theorem div255_coat {v : Nat} (alpha : Nat) (hv : v ≤ 255) (hlow : 15 ≤ alpha)
    (hhigh : alpha ≤ 239) :
    ∃ w, Channel.div255 (v * (255 - alpha) + 255 * alpha) = w ∧ v ≤ w ∧ 15 ≤ w ∧ w ≤ 255 ∧
      (v = 0 → w ≤ 239) ∧ (v ≤ 239 → w ≤ 254) := by
  refine ⟨_, rfl, ?_⟩
  have hsplit : v * (255 - alpha) + v * alpha = v * 255 := by
    rw [← Nat.mul_add, Nat.sub_add_cancel (by omega)]
  have hpart : v * alpha ≤ 255 * alpha := Nat.mul_le_mul_right _ hv
  have hrest {n : Nat} (h : v ≤ n) : v * (255 - alpha) ≤ n * (255 - alpha) :=
    Nat.mul_le_mul_right _ h
  rw [Channel.div255]
  have hlight := hrest hv
  refine ⟨by omega, by omega, by omega, fun h => ?_, fun h => ?_⟩
  · subst h
    omega
  · have hdark := hrest h
    omega

theorem coated_mix {covered : Nat} (hpos : 0 < covered) (hlt : covered < 16) (v : UInt8) :
    Coated 1 v (Channel.mix (.ofNat (covered * 255 / 16)) v 255) := by
  have halpha : (UInt8.ofNat (covered * 255 / 16)).toNat = covered * 255 / 16 :=
    UInt8.toNat_ofNat_of_lt' (by rw [UInt8.size]; omega)
  obtain ⟨w, hw, hle, hlow, hhigh, hblack, hdark⟩ := div255_coat
    (covered * 255 / 16) (Nat.le_of_lt_succ v.toNat_lt) (by omega) (by omega)
  have hmix : (Channel.mix (.ofNat (covered * 255 / 16)) v 255).toNat = w := by
    rw [Channel.mix, halpha, show (255 : UInt8).toNat = 255 from rfl, hw]
    exact UInt8.toNat_ofNat_of_lt' (by rw [UInt8.size]; omega)
  refine ⟨fun m hm => ?_, hmix ▸ hle, fun _ => by omega⟩
  rw [hmix]
  match m with
  | 0 => exact hblack (Nat.le_zero.mp hm)
  | 1 => exact hdark hm
  | m + 2 => exact hhigh

end Paint

/-! ## Reflections -/

/-- The far edges of the box are offsets, and the radius fits twice into both of its sides. -/
structure Rect.Rounds (rect : Rect) (radius : Nat) : Prop where
  right_lt : rect.x + rect.w < Offset.bound
  bottom_lt : rect.y + rect.h < Offset.bound
  le_width : radius ≤ rect.w / 2
  le_height : radius ≤ rect.h / 2

/-- The centres of the corners, where nothing overflows. -/
def Rect.corners (rect : Rect) (radius : Nat) : Corners where
  left := rect.x + radius
  top := rect.y + radius
  right := rect.x + rect.w - radius - 1
  bottom := rect.y + rect.h - radius - 1

namespace Corners

variable {rect : Rect} {radius x y : Nat}

theorem of?_eq (h : rect.Rounds radius) : of? rect radius = some (rect.corners radius) := by
  obtain ⟨hright, hbottom, hw, hh⟩ := h
  have hbound := Offset.natCast_bound
  have hword := Offset.bound_lt_word
  rw [of?_eq_some_iff, Rect.isAddressable_iff, Rect.corners]
  unfold CentresFit Offset.Fits
  rw [Word.signed_of_lt hright, Word.signed_of_lt hbottom,
    Word.signed_of_lt (show rect.x < Offset.bound by omega),
    Word.signed_of_lt (show rect.y < Offset.bound by omega)]
  push_cast
  exact ⟨by omega, by omega, rfl⟩

/-- The four points at an offset. -/
def reflections (c : Corners) (dx dy : Int) : List (Int × Int) :=
  [(c.left - dx, c.top - dy), (c.right + dx, c.top - dy),
    (c.left - dx, c.bottom + dy), (c.right + dx, c.bottom + dy)]

/-- Where the centres can be calculated the points can, which lie between them and the edges. -/
theorem points?_eq {c : Corners} (hc : of? rect radius = some c) {dx dy : Nat} (hdx : dx ≤ radius)
    (hdy : dy ≤ radius) : c.points? dx dy = (c.reflections dx dy).map some := by
  obtain ⟨haddressable, ⟨⟨hleft, -, hright⟩, htop, -, hbottom⟩, rfl⟩ := of?_eq_some_iff.mp hc
  obtain ⟨hxw, hyh⟩ := Rect.isAddressable_iff.mp haddressable
  have hfit {i j k : Int} (hi : Offset.Fits i) (hk : Offset.Fits k) (hij : i ≤ j) (hjk : j ≤ k) :
      Offset.fit j = some j := Offset.fit_eq (hi.1.trans hij) (hjk.trans_lt hk.2)
  have hx := Word.signed_fits (show rect.x < Word.bound by omega)
  have hy := Word.signed_fits (show rect.y < Word.bound by omega)
  simp only [points?, Offset.add, Offset.sub]
  rw [hfit hx hleft (by omega) (by omega), hfit hy htop (by omega) (by omega),
    hfit hright (Word.signed_fits hxw) (by omega) (by omega),
    hfit hbottom (Word.signed_fits hyh) (by omega) (by omega)]
  rfl

/-- The four offsets at which a point is met. -/
def offsets (c : Corners) (x y : Nat) : List (Int × Int) :=
  [(c.left - x, c.top - y), (x - c.right, c.top - y),
    (c.left - x, y - c.bottom), (x - c.right, y - c.bottom)]

/-- `n` for every corner at which the offset meets the point. -/
def tally (c : Corners) (x y dx dy n : Nat) : Nat :=
  ((c.offsets x y).map fun o => if o = ((dx : Int), (dy : Int)) then n else 0).sum

/-- Summed up over the corners: the offset has the point as a reflection where it is met. -/
theorem sum_reflections_eq {M : Type} [AddCommMonoid M] (c : Corners) (x y dx dy : Nat) (n : M) :
    ((c.reflections dx dy).map fun (a, b) => if (x : Int) = a ∧ (y : Int) = b then n else 0).sum =
      ((c.offsets x y).map fun o => if o = ((dx : Int), (dy : Int)) then n else 0).sum := by
  have hleft : (x : Int) = c.left - dx ↔ c.left - x = dx := by omega
  have hright : (x : Int) = c.right + dx ↔ x - c.right = dx := by omega
  have htop : (y : Int) = c.top - dy ↔ c.top - y = dy := by omega
  have hbottom : (y : Int) = c.bottom + dy ↔ y - c.bottom = dy := by omega
  simp only [reflections, offsets, List.map_cons, List.map_nil, Prod.mk.injEq, hleft, hright,
    htop, hbottom]

theorem sum_reflections (c : Corners) (x y dx dy n : Nat) :
    ((c.reflections dx dy).map fun (a, b) => if (x : Int) = a ∧ (y : Int) = b then n else 0).sum =
      c.tally x y dx dy n :=
  c.sum_reflections_eq x y dx dy n

end Corners

/-! ## The painters -/

namespace Paint

variable {l : Layout} {rect : Rect} {radius inner dx dy : Nat}

theorem putCorners_eq {c : Corners} (hc : Corners.of? rect radius = some c) (hdx : dx ≤ radius)
    (hdy : dy ≤ radius) (p : Pixel) :
    putCorners c p dx dy =
      (c.reflections dx dy).forM fun point => putClamped point.1 point.2 p := by
  rw [putCorners, Corners.points?_eq hc hdx hdy]
  rfl

theorem putCorners_turns (hl : l.Addressed) (hformat : l.format = .gray8) (h : rect.Rounds radius)
    (hdx : dx ≤ radius) (hdy : dy ≤ radius) (x y : Nat) :
    Turns (putCorners (rect.corners radius) (.gray8 255) dx dy) l x y
      (Whitened ((rect.corners radius).tally x y dx dy 1)) := by
  rw [putCorners_eq (Corners.of?_eq h) hdx hdy, ← Corners.sum_reflections]
  refine Turns.forM whitened_additive fun point _ => ?_
  refine Turns.of_hasEffect whitened_additive
    (putClamped_hasEffect hl point.1 point.2 (p := .gray8 255) hformat.symm) fun v => ?_
  exact ⟨255, rfl, fun h => absurd h Nat.one_ne_zero, fun _ => rfl⟩

/-- Paints one point by the part of its samples that is covered. -/
def coverPoint (covered : Nat) (c : Rgba) (x y : Int) : Paint Unit :=
  if covered = 16 then setPixelClamped x y c
  else clamped x y fun x y => do
    putPixel x y ((← pixel x y).blend c (.ofNat (covered * 255 / 16)))

theorem blendCorners_eq_bind {c : Corners} (hc : Corners.of? rect radius = some c)
    (hdx : dx ≤ radius) (hdy : dy ≤ radius) (ring : Ring) (color : Rgba) :
    blendCorners c ring color dx dy = (do
      let covered ← ofOption (ring.coverage? dx dy)
      unless covered == 0 do
        (c.reflections dx dy).forM fun point => coverPoint covered color point.1 point.2) := by
  have hpoints : (c.points? dx dy).mapM id = some (c.reflections dx dy) := by
    rw [Corners.points?_eq hc hdx hdy]
    rfl
  rw [blendCorners, hpoints]
  rfl

theorem blendCorners_eq (h : rect.Rounds radius) (hradius : radius < 2 ^ 28) (hdx : dx ≤ radius)
    (hdy : dy ≤ radius) (inner : Nat) (c : Rgba) :
    blendCorners (rect.corners radius) (.between radius inner) c dx dy =
      if Ring.covered radius inner dx dy = 0 then pure ()
      else ((rect.corners radius).reflections dx dy).forM fun point =>
        coverPoint (Ring.covered radius inner dx dy) c point.1 point.2 := by
  rw [blendCorners_eq_bind (Corners.of?_eq h) hdx hdy, Ring.coverage?_between inner hradius hdx hdy]
  simp only [ofOption_some_bind, beq_iff_eq]

theorem blendCorners_turns (hl : l.Addressed) (hformat : l.format = .gray8)
    (h : rect.Rounds radius) (hradius : radius < 2 ^ 28) (hdx : dx ≤ radius) (hdy : dy ≤ radius)
    (x y : Nat) :
    Turns (blendCorners (rect.corners radius) (.between radius inner) (.gray 255) dx dy) l x y
      (Coated ((rect.corners radius).tally x y dx dy
        (coats (Ring.covered radius inner dx dy)))) := by
  have hle := Ring.covered_le radius inner dx dy
  rw [blendCorners_eq h hradius hdx hdy, ← Corners.sum_reflections]
  generalize Ring.covered radius inner dx dy = covered at hle
  by_cases hzero : covered = 0
  · have hnone : coats covered = 0 := if_pos hzero
    rw [if_pos hzero]
    simpa [hnone] using Turns.skip coated_additive
  · rw [if_neg hzero]
    refine Turns.forM coated_additive fun (a, b) _ => ?_
    rw [coverPoint]
    by_cases hfull : covered = 16
    · subst hfull
      refine Turns.of_hasEffect coated_additive (setPixelClamped_hasEffect hl a b _) fun v => ?_
      exact ⟨255, by rw [hformat]; rfl, coated_full v⟩
    · have hpartial : coats covered = 1 := by rw [coats, if_neg hzero, if_neg hfull]
      rw [if_neg hfull, hpartial]
      refine Turns.of_hasEffect coated_additive (blendClamped_hasEffect hl a b _ _) fun v => ?_
      exact ⟨_, rfl, coated_mix (by omega) (by omega) v⟩

end Paint

end Raster
