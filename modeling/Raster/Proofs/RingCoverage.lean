import Raster.Proofs.Arc
import Raster.Proofs.Optional

/-!
# Coverage by a sampled ring

The ring around the stepped one is half a pixel wider to the outside and half a pixel narrower to
the inside, so that no pixel of the stepped ring is missed by all of its samples, and a pixel with
all of its samples in the ring is plotted.
-/

namespace Raster

namespace Ring

/-- The distance of a sample from the centre along one axis, in eighths of a pixel. -/
def reach (d i : Nat) : Int := 8 * d + 2 * i - 3

/-- The squared distance of the sample `(i, j)` of the pixel at `(dx, dy)`. -/
def distance (dx dy i j : Nat) : Int := reach dx i * reach dx i + reach dy j * reach dy j

/-- The square of a radius and a half. -/
def limit (radius : Nat) : Int := (8 * radius + 4) * (8 * radius + 4)

/-- The ring between the two radii covers the sample `(i, j)` of the pixel at `(dx, dy)`; the
inner radius does not count if it is zero. -/
def Covers (outer inner dx dy i j : Nat) : Prop :=
  distance dx dy i j ≤ limit outer ∧ (0 < inner → limit inner < distance dx dy i j)

instance (outer inner dx dy i j : Nat) : Decidable (Covers outer inner dx dy i j) :=
  inferInstanceAs (Decidable (_ ∧ _))

/-- The number of covered samples of the pixel at `(dx, dy)`. -/
def covered (outer inner dx dy : Nat) : Nat :=
  (List.range 16).countP fun n => Covers outer inner dx dy (n % 4) (n / 4)

variable {outer inner dx dy i j : Nat}

theorem covered_le (outer inner dx dy : Nat) : covered outer inner dx dy ≤ 16 :=
  List.countP_le_length.trans_eq List.length_range

theorem forall_covers_of_covered (h : covered outer inner dx dy = 16) (hi : i < 4) (hj : j < 4) :
    Covers outer inner dx dy i j := by
  have hall := List.countP_eq_length.mp (h.trans List.length_range.symm) (i + 4 * j)
    (List.mem_range.mpr (by omega))
  have hmod : (i + 4 * j) % 4 = i := by omega
  have hdiv : (i + 4 * j) / 4 = j := by omega
  rw [hmod, hdiv] at hall
  exact of_decide_eq_true hall

theorem covered_pos (h : Covers outer inner dx dy i j) (hi : i < 4) (hj : j < 4) :
    0 < covered outer inner dx dy := by
  refine List.countP_pos_iff.mpr ⟨i + 4 * j, List.mem_range.mpr (by omega), ?_⟩
  have hmod : (i + 4 * j) % 4 = i := by omega
  have hdiv : (i + 4 * j) / 4 = j := by omega
  rw [hmod, hdiv]
  exact decide_eq_true h

/-! ## Nothing overflows -/

/-- The ring between the two radii. -/
def between (outer inner : Nat) : Ring :=
  ⟨limit outer, if 0 < inner then some (limit inner) else none⟩

theorem limit?_eq {radius : Nat} (h : radius < 2 ^ 28) : limit? radius = some (limit radius) := by
  have hbound := Offset.natCast_bound
  have hsquare : (8 * radius + 4 : Int) * (8 * radius + 4) ≤ 2 ^ 31 * 2 ^ 31 :=
    mul_self_le_mul_self (by omega) (by omega)
  simp only [limit?, Option.bind_eq_bind, Option.bind_eq_some_iff]
  exact ⟨2 * radius, Offset.fit_eq (by omega) (by omega), 2 * radius + 1,
    Offset.fit_eq (by omega) (by omega), 8 * radius + 4,
    Offset.fit_eq_some_iff.mpr ⟨⟨by omega, by omega⟩, by omega⟩,
    Offset.fit_eq (by nlinarith) (by omega)⟩

theorem of?_eq (houter : outer < 2 ^ 28) (hinner : inner ≤ outer) :
    of? outer inner = some (between outer inner) := by
  rw [of?, limit?_eq houter, limit?_eq (hinner.trans_lt houter), between]
  simp only [Int.natCast_pos]
  rfl

theorem reach_mul_self_lt (hd : dx < 2 ^ 28) (hi : i < 4) :
    reach dx i * reach dx i < 0x4000_0000_0000_0000 := by
  zify at hd hi
  rw [reach]
  nlinarith

theorem covers?_between (houter : outer < 2 ^ 28) (hdx : dx ≤ outer) (hdy : dy ≤ outer)
    (hi : i < 4) (hj : j < 4) :
    (between outer inner).covers? dx dy i j = some (decide (Covers outer inner dx dy i j)) := by
  have hbound := Offset.natCast_bound
  have hx := reach_mul_self_lt (hdx.trans_lt houter) hi
  have hy := reach_mul_self_lt (hdy.trans_lt houter) hj
  have hx' := mul_self_nonneg (reach dx i)
  have hy' := mul_self_nonneg (reach dy j)
  have hfit : Offset.fit (distance dx dy i j) = some (distance dx dy i j) :=
    Offset.fit_eq (by rw [distance]; omega) (by rw [distance]; omega)
  simp only [covers?, Option.bind_eq_bind, Option.bind_eq_some_iff]
  refine ⟨8 * dx, Offset.fit_eq (by omega) (by omega), 8 * dy, Offset.fit_eq (by omega) (by omega),
    _, hfit, congrArg some (decide_eq_decide.mpr (and_congr_right fun _ => ?_))⟩
  by_cases hzero : 0 < inner <;> simp [between, hzero]

theorem coverage?_between (inner : Nat) (houter : outer < 2 ^ 28) (hdx : dx ≤ outer)
    (hdy : dy ≤ outer) :
    (between outer inner).coverage? dx dy = some (covered outer inner dx dy) := by
  have hsamples : ((List.range 16).mapM fun n =>
        (between outer inner).covers? dx dy (n % 4) (n / 4)) =
      some ((List.range 16).map fun n => decide (Covers outer inner dx dy (n % 4) (n / 4))) :=
    mapM_eq_some_map fun n hn => by
      have hlt := List.mem_range.mp hn
      exact covers?_between houter hdx hdy (by omega) (by omega)
  rw [coverage?, hsamples, covered, Option.bind_eq_bind, Option.bind_some, List.count_eq_countP,
    List.countP_map]
  simp [Function.comp_def]

/-- A sample that is compared with the limits is at a distance that is an offset. -/
theorem distance_lt_of_covers? {ring : Ring} (h : (ring.covers? dx dy i j).isSome) :
    distance dx dy i j < Offset.bound := by
  obtain ⟨b, hb⟩ := Option.isSome_iff_exists.mp h
  simp only [covers?, Option.bind_eq_bind, Option.bind_eq_some_iff, Offset.mul,
    Offset.fit_eq_some_iff] at hb
  obtain ⟨_, ⟨-, rfl⟩, _, ⟨-, rfl⟩, _, ⟨⟨-, hlt⟩, -⟩, -⟩ := hb
  exact hlt

/-- The samples of all pixels up to the radius can be taken only below this radius: the farthest
pixel is on the diagonal. -/
theorem forall_coverage?_iff {radius : Nat} (hinner : inner ≤ radius) :
    (∃ ring, of? radius inner = some ring ∧
      ∀ dy ≤ radius, ∀ dx ≤ radius, (ring.coverage? dx dy).isSome) ↔ radius < 2 ^ 28 := by
  constructor
  · rintro ⟨ring, -, hall⟩
    have hsamples : ((List.range 16).mapM fun n =>
        ring.covers? radius radius (n % 4) (n / 4)).isSome := by
      have hcoverage := hall radius le_rfl radius le_rfl
      rw [coverage?] at hcoverage
      exact Option.isSome_of_isSome_bind hcoverage
    rw [isSome_mapM, List.all_eq_true] at hsamples
    have hlast : distance radius radius 3 3 < Offset.bound :=
      distance_lt_of_covers? (hsamples 15 (by decide))
    have hbound := Offset.natCast_bound
    by_contra hlarge
    have hreach : (2 ^ 31 : Int) * 2 ^ 31 ≤ reach radius 3 * reach radius 3 :=
      mul_self_le_mul_self (by decide) (by rw [reach]; omega)
    rw [distance] at hlast
    omega
  · intro hlt
    refine ⟨_, of?_eq hlt hinner, fun dy hdy dx hdx => ?_⟩
    rw [coverage?_between inner hlt hdx hdy]
    rfl

/-! ## On the axes -/

theorem reach_mul_self_le (dx : Nat) {i : Nat} (hi : i < 4) :
    reach dx i * reach dx i ≤ (8 * dx + 3) * (8 * dx + 3) := by
  have hd : (0 : Int) ≤ dx := Int.natCast_nonneg dx
  rw [reach]
  nlinarith

theorem lt_reach (dx i : Nat) : 8 * (dx : Int) - 4 < reach dx i := by
  rw [reach]
  omega

section

variable {radius : Nat}

theorem distance_le_limit (haxis : dx = 0 ∨ dy = 0) (hradius : 0 < radius) (hdx : dx ≤ radius)
    (hdy : dy ≤ radius) (hi : i < 4) (hj : j < 4) : distance dx dy i j ≤ limit radius := by
  have hx := reach_mul_self_le dx hi
  have hy := reach_mul_self_le dy hj
  zify at hradius hdx hdy
  rw [distance, limit]
  rcases haxis with rfl | rfl <;> push_cast at hx hy <;> nlinarith

theorem limit_lt_distance (h : radius < dx ∨ radius < dy) : limit radius < distance dx dy i j := by
  have hx := lt_reach dx i
  have hy := lt_reach dy j
  have hx' := mul_self_nonneg (reach dx i)
  have hy' := mul_self_nonneg (reach dy j)
  zify at h
  rw [distance, limit]
  rcases h with h | h <;> nlinarith

end

theorem covered_axis (inner : Nat) (haxis : dx = 0 ∨ dy = 0) (houter : 0 < outer) (hdx : dx ≤ outer)
    (hdy : dy ≤ outer) : covered outer inner dx dy = 0 ∨ covered outer inner dx dy = 16 := by
  by_cases hbeyond : 0 < inner → inner < dx ∨ inner < dy
  · refine .inr (List.countP_eq_length.mpr fun n hn => decide_eq_true ⟨?_, fun hinner => ?_⟩)
    · have hn := List.mem_range.mp hn
      exact distance_le_limit haxis houter hdx hdy (by omega) (by omega)
    · exact limit_lt_distance (hbeyond hinner)
  · refine .inl (List.countP_eq_zero.mpr fun n hn hcovers => ?_)
    have hn := List.mem_range.mp hn
    have hwithin : distance dx dy (n % 4) (n / 4) ≤ limit inner :=
      distance_le_limit haxis (by omega) (by omega) (by omega) (by omega) (by omega)
    exact absurd ((of_decide_eq_true hcovers).2 (by omega)) (not_lt.mpr hwithin)

theorem two_le_of_partial (houter : 0 < outer) (hpos : 0 < covered outer inner dx dy)
    (hpartial : covered outer inner dx dy ≠ 16) : 2 ≤ dx + dy := by
  by_contra hlt
  have haxis := covered_axis inner (show dx = 0 ∨ dy = 0 by omega) houter (by omega)
    (by omega)
  omega

/-! ## The stepped ring and the sampled one -/

variable {radius n m : Nat}

theorem near_of_encloses (h : Arc.Encloses radius n m) : distance n m 0 0 ≤ limit radius := by
  have hrow := h.le_radius
  rw [Arc.Encloses] at h
  zify at hrow
  simp only [distance, reach, limit]
  push_cast
  nlinarith

theorem far_of_not_encloses (h : ¬ Arc.Encloses radius n m) (hnm : n ≤ m) :
    limit radius < distance n m 3 3 := by
  rw [Arc.Encloses] at h
  zify at hnm
  have hrow : (4 * radius : Int) ≤ 7 * m + 3 * n := by nlinarith
  simp only [distance, reach, limit]
  push_cast
  nlinarith

theorem distance_comm (dx dy i : Nat) : distance dx dy i i = distance dy dx i i := Int.add_comm ..

theorem distance_min_max (dx dy i : Nat) :
    distance (min dx dy) (max dx dy) i i = distance dx dy i i := by
  rcases le_total dx dy with h | h
  · rw [min_eq_left h, max_eq_right h]
  · rw [min_eq_right h, max_eq_left h, distance_comm]

theorem onSteppedRing_of_covered (h : covered outer inner dx dy = 16) :
    OnSteppedRing outer inner dx dy := by
  have hfar := (forall_covers_of_covered h (show 3 < 4 by decide) (show 3 < 4 by decide)).1
  have hnear := (forall_covers_of_covered h (show 0 < 4 by decide) (show 0 < 4 by decide)).2
  constructor
  · by_contra hout
    have hbeyond := far_of_not_encloses hout min_le_max
    rw [distance_min_max] at hbeyond
    omega
  · intro hin
    have hwithin := near_of_encloses hin
    rw [distance_min_max] at hwithin
    rcases Nat.eq_zero_or_pos inner with rfl | hpos
    · exact Arc.not_encloses_zero hin
    · exact absurd (hnear hpos) (not_lt.mpr hwithin)

theorem reach_le (h : distance dx dy i j ≤ limit inner) :
    reach dx i ≤ 8 * inner + 4 ∧ reach dy j ≤ 8 * inner + 4 := by
  rw [distance, limit] at h
  constructor <;> nlinarith

theorem distance_succ_le (hinner : inner < outer) (h : distance dx dy i i ≤ limit inner) :
    distance dx dy (i + 1) (i + 1) ≤ limit outer := by
  obtain ⟨hx, hy⟩ := reach_le h
  have hnext (d : Nat) : reach d (i + 1) = reach d i + 2 := by
    rw [reach, reach]
    push_cast
    omega
  rw [distance, limit] at h ⊢
  rw [hnext, hnext]
  zify at hinner
  nlinarith

theorem covered_pos_of_onSteppedRing (hring : OnSteppedRing outer inner dx dy)
    (hinner : inner < outer) : 0 < covered outer inner dx dy := by
  obtain ⟨hin, hout⟩ := hring
  have hnear := near_of_encloses hin
  have hfar := far_of_not_encloses hout min_le_max
  rw [distance_min_max] at hnear hfar
  obtain ⟨k, hk, hbeyond, hwithin⟩ : ∃ k < 4, limit inner < distance dx dy k k ∧
      distance dx dy k k ≤ limit outer := by
    by_cases h₀ : limit inner < distance dx dy 0 0
    · exact ⟨0, by decide, h₀, hnear⟩
    by_cases h₁ : limit inner < distance dx dy 1 1
    · exact ⟨1, by decide, h₁, distance_succ_le hinner (not_lt.mp h₀)⟩
    by_cases h₂ : limit inner < distance dx dy 2 2
    · exact ⟨2, by decide, h₂, distance_succ_le hinner (not_lt.mp h₁)⟩
    · exact ⟨3, by decide, hfar, distance_succ_le hinner (not_lt.mp h₂)⟩
  exact covered_pos ⟨hwithin, fun _ => hbeyond⟩ hk hk

end Ring

end Raster
