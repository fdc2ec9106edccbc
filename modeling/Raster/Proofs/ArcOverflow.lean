import Mathlib.Data.Nat.Sqrt
import Raster.Proofs.Arc

/-!
# Circles that are too large to be traced

Tracing a circle down to the diagonal, the greatest number is twice the distance from the diagonal
in the first step inwards. A trace that is carried on behind the diagonal goes inwards in every
column, and its decision variable grows like the square of the column. The inner circle of a ring
is carried on until the outer one meets the diagonal, so a wide ring overflows long before a narrow
one of the same radius does.
-/

namespace Raster

namespace Arc

variable {radius n m x : Nat} {a : Arc}

/-! ## Before the diagonal -/

namespace Traces

theorem decision_bounds (h : Traces radius x a) (hx : (x : Int) ≤ a.y) :
    2 * x + 1 - 2 * a.y ≤ a.d ∧ a.d < 2 * x + 1 := by
  obtain ⟨hd, henclosed, houtside, -, -⟩ := h
  have hinside := henclosed hx
  exact ⟨by linarith, by linarith⟩

theorem column_lt (h : Traces radius x a) (hx : (x : Int) ≤ a.y)
    (hr : radius ≤ 2 ^ 62 + 2 ^ 31) : x < 2 ^ 62 - 2 := by
  by_contra hge
  have hinside := h.enclosed hx
  have hrow : (x : Int) * (x - 1) ≤ a.y * (a.y - 1) := mul_pred_mono (by omega) hx
  have hsquare : ((2 : Int) ^ 62 - 2) * (2 ^ 62 - 2) ≤ x * x :=
    mul_self_le_mul_self (by norm_num) (by omega)
  have hradius : (radius : Int) * radius ≤ (2 ^ 62 + 2 ^ 31) * (2 ^ 62 + 2 ^ 31) :=
    mul_self_le_mul_self (by omega) (by omega)
  have hlast : (x : Int) ≤ 2 ^ 62 + 2 ^ 31 := by
    have := h.row_le
    omega
  linarith

/-- The circle has left its first row only if the square of the column has reached the radius. -/
theorem radius_le_of_row_lt (h : Traces radius x a) (hlow : 0 ≤ a.y) (hy : a.y < radius) :
    (radius : Int) ≤ x * x := by
  have hrow := mul_pred_mono (i := a.y + 1) (j := radius) (by omega) (by omega)
  have houtside := h.next_outside
  linarith

/-- It leaves the row of a column only if the square of the next column reaches the radius. -/
theorem radius_le_of_decision (h : Traces radius x a) (hlow : 0 ≤ a.y) (hd : 0 ≤ a.d) :
    (radius : Int) ≤ (x + 1) * (x + 1) := by
  have hrow := mul_pred_mono hlow h.row_le
  have hdecision := h.decision
  linarith

/-- Up to this radius every column before the diagonal can be traced: a step inwards is not made
before the column `2 ^ 31`, and doubles a distance from the diagonal of at most `2 ^ 62`. -/
theorem stepFits (h : Traces radius x a) (hx : (x : Int) ≤ a.y)
    (hr : radius ≤ 2 ^ 62 + 2 ^ 31) : a.StepFits x := by
  have hbound := Offset.natCast_bound
  have hcolumn := h.column_lt hx hr
  obtain ⟨hlow, hhigh⟩ := h.decision_bounds hx
  have hrow := h.row_le
  have hearly (hfar : 2 ^ 62 < a.y - x) : ((x : Int) + 1) * (x + 1) ≤ 2 ^ 31 * 2 ^ 31 :=
    mul_self_le_mul_self (by omega) (by omega)
  unfold StepFits Offset.Fits
  split
  case isTrue hneg =>
    have hd : -2 ^ 63 ≤ a.d := by
      by_contra hover
      have hsquare := hearly (by omega)
      have hdecision := h.decision
      rcases hrow.eq_or_lt with heq | hlt
      · rw [heq] at hdecision
        nlinarith
      · have hradius := h.radius_le_of_row_lt (by omega) hlt
        nlinarith
    omega
  case isFalse hneg =>
    have hnear : a.y - x ≤ 2 ^ 62 := by
      by_contra hfar
      have hradius := h.radius_le_of_decision (by omega) (by omega)
      have hsquare := hearly (by omega)
      omega
    omega

end Traces

/-- The state of a trace in its first row. -/
def atTop (radius x : Nat) : Arc := ⟨radius, (x + 1) * (x + 1) - radius⟩

theorem atTop_zero (radius : Nat) : atTop radius 0 = ⟨radius, 1 - radius⟩ := by simp [atTop]

theorem next_atTop (h : ((x : Int) + 1) * (x + 1) < radius) :
    (atTop radius x).next x = atTop radius (x + 1) := by
  rw [next, atTop, if_pos (by dsimp only; omega), atTop]
  congr 1
  push_cast
  linarith

theorem not_stepFits_atTop (hr : 2 ^ 62 + 2 ^ 31 < radius) (hx : x * x < radius)
    (hstep : (radius : Int) ≤ (x + 1) * (x + 1)) : ¬ (atTop radius x).StepFits x := by
  intro hfits
  have hbound := Offset.natCast_bound
  have hfar : 2 ^ 62 < (radius : Int) - x := by
    rcases Nat.lt_or_ge (2 ^ 31) x with hlarge | hsmall
    · zify at hlarge hx
      nlinarith
    · omega
  unfold StepFits Offset.Fits at hfits
  rw [atTop, if_neg (by dsimp only; omega)] at hfits
  dsimp only at hfits
  omega

/-! ## Behind the diagonal -/

/-- The number of the last diagonal across the axes that the circle meets. -/
def diagonal (radius : Nat) : Nat := (Nat.sqrt (8 * (radius * radius)) + 1) / 2

theorem le_diagonal_iff (hr : 0 < radius) :
    m ≤ diagonal radius ↔ (m : Int) * (m - 1) < 2 * (radius * radius) := by
  rcases Nat.eq_zero_or_pos m with rfl | hm
  · have hpos : 0 < radius * radius := Nat.mul_pos hr hr
    zify at hpos
    simp [hpos]
  · have hsqrt := Nat.le_sqrt (m := 2 * m - 1) (n := 8 * (radius * radius))
    have hodd : m ≤ diagonal radius ↔ 2 * m - 1 ≤ Nat.sqrt (8 * (radius * radius)) := by
      rw [diagonal]
      omega
    rw [hodd, hsqrt]
    zify [show 1 ≤ 2 * m by omega]
    constructor <;> intro h <;> nlinarith

/-- Half its number is the last column in which the circle encloses the diagonal between the
axes. -/
theorem encloses_iff_le_diagonal (hr : 0 < radius) :
    Encloses radius x x ↔ x ≤ diagonal radius / 2 := by
  have h := le_diagonal_iff (m := 2 * x) hr
  rw [Encloses]
  push_cast at h
  constructor
  · intro hlt
    have := h.mpr (by nlinarith)
    omega
  · intro hle
    have := h.mp (by omega)
    nlinarith

theorem diagonal_mono {r s : Nat} (h : r ≤ s) : diagonal r ≤ diagonal s :=
  Nat.div_le_div_right (Nat.add_le_add_right
    (Nat.sqrt_le_sqrt (Nat.mul_le_mul_left 8 (Nat.mul_le_mul h h))) 1)

theorem eq_diagonal (hr : 0 < radius) {k : Int} (hpos : 0 ≤ k)
    (hinside : k * (k - 1) < 2 * (radius * radius))
    (houtside : 2 * (radius * radius) ≤ k * (k + 1)) : k = diagonal radius := by
  lift k to Nat using hpos
  have hle := (le_diagonal_iff (m := k) hr).mpr hinside
  have hlt := (le_diagonal_iff (m := k + 1) hr).not.mpr (by push_cast; linarith)
  omega

/-- The state of a trace that is carried on behind the diagonal. There it keeps to the last
diagonal across the axes, one row further in with each column. -/
structure Follows (radius x : Nat) (a : Arc) : Prop extends Traces radius x a where
  behind : a.y < x → a.y + x = diagonal radius

/-- The decision variable behind the diagonal. -/
def decisionBehind (radius x : Nat) : Int :=
  (x + 1) * (x + 1) + (diagonal radius - x) * (diagonal radius - x - 1) - radius * radius

theorem decisionBehind_mono (hx : diagonal radius ≤ 2 * x) (h : x ≤ n) :
    decisionBehind radius x ≤ decisionBehind radius n := by
  have hgrows : 0 ≤ ((n : Int) - x) * (2 * x + 2 * n + 3 - 2 * diagonal radius) :=
    mul_nonneg (by omega) (by omega)
  unfold decisionBehind
  linarith

namespace Follows

theorem start (hr : 0 < radius) : Follows radius 0 ⟨radius, 1 - radius⟩ where
  toTraces := .start hr
  behind h := absurd h (by simp)

theorem decision_eq (h : Follows radius x a) (hx : a.y < x) : a.d = decisionBehind radius x := by
  have hrow : a.y = diagonal radius - x := by
    have := h.behind hx
    omega
  rw [decisionBehind, ← hrow, h.decision]

theorem decision_pos (h : Follows radius x a) (hr : 0 < radius) (hx : a.y < x) : 0 < a.d := by
  have houtside := (le_diagonal_iff (m := diagonal radius + 1) hr).not.mp (by omega)
  have hd := h.decision
  push_cast at houtside
  rw [← h.behind hx] at houtside
  nlinarith

theorem behind_next (h : Follows radius x a) (hr : 0 < radius) (hx : a.y < x) :
    (a.next x).y < (x + 1 : Nat) := by
  have hpos := h.decision_pos hr hx
  rw [Arc.next, if_neg (by omega)]
  push_cast
  omega

theorem next (h : Follows radius x a) (hr : 0 < radius) : Follows radius (x + 1) (a.next x) := by
  refine ⟨h.toTraces.next, fun hx => ?_⟩
  have hd := h.decision
  by_cases hbefore : (x : Int) ≤ a.y
  · have hinside := h.enclosed hbefore
    have houtside := h.next_outside
    rw [Arc.next] at hx ⊢
    push_cast at hx ⊢
    split at hx
    case isTrue hneg =>
      have hrow : a.y = x := by
        dsimp only at hx
        omega
      rw [hrow] at hd houtside
      linarith
    case isFalse hneg =>
      rw [if_neg hneg]
      dsimp only at hx ⊢
      obtain hrow | hrow : a.y = x ∨ a.y = x + 1 := by omega
      · rw [hrow] at hinside houtside ⊢
        exact eq_diagonal hr (by omega) (by linarith) (by linarith)
      · rw [hrow] at hinside hd ⊢
        exact eq_diagonal hr (by omega) (by linarith) (by linarith)
  · have hpos := h.decision_pos hr (by omega)
    have hdiagonal := h.behind (by omega)
    rw [Arc.next, if_neg (by omega)]
    push_cast
    omega

/-- The next decision variable is the greatest number on the way to the next column. -/
theorem stepFits_behind (h : Follows radius x a) (hr : 0 < radius) (hx : a.y < x)
    (hlast : x ≤ 2 ^ 62) (hnext : decisionBehind radius (x + 1) < 2 ^ 63) : a.StepFits x := by
  have hpos := h.decision_pos hr hx
  have hrow := h.behind hx
  have hbound := Offset.natCast_bound
  rw [← (h.next hr).decision_eq (h.behind_next hr hx), Arc.next, if_neg (by omega)] at hnext
  unfold StepFits Offset.Fits
  rw [if_neg (by omega)]
  dsimp only at hnext
  omega

end Follows

theorem StepFits.fits_next {x : Int} (h : a.StepFits x) : Offset.Fits (a.next x).d := by
  unfold StepFits at h
  rw [next]
  split at h
  case isTrue hneg =>
    rw [if_pos hneg]
    exact h.2.2
  case isFalse hneg =>
    rw [if_neg hneg]
    exact h.2.2.2.2

/-- The trace of the inner circle, carried on behind its diagonal. -/
def FollowsInner (radius x : Nat) : Option Arc → Prop
  | none => radius = 0
  | some a => 0 < radius ∧ Follows radius x a

/-! ## Rings -/

/-- The ring between two circles is too large to be traced: the outer circle for its first step
inwards, or the inner one for the column behind the last one before the outer one meets the
diagonal. -/
def Overflows (outer inner : Nat) : Prop :=
  2 ^ 62 + 2 ^ 31 < outer ∨
    0 < inner ∧ 2 ^ 63 ≤ decisionBehind inner (diagonal outer / 2 + 1)

instance (outer inner : Nat) : Decidable (Overflows outer inner) :=
  inferInstanceAs (Decidable (_ ∨ _))

/-- No ring of a radius of at most `2 ^ 31` is too large, however wide it is. -/
theorem not_overflows_of_le {outer inner : Nat} (hinner : inner ≤ outer) (houter : outer ≤ 2 ^ 31) :
    ¬ Overflows outer inner := by
  rintro (hlarge | ⟨hpos, hover⟩)
  · omega
  have hmono := diagonal_mono hinner
  have hencloses := (encloses_iff_le_diagonal (by omega)).mpr (le_refl (diagonal outer / 2))
  have hlast := hencloses.le_radius
  have hrow : ((diagonal inner : Int) - (diagonal outer / 2 + 1 : Nat) + (diagonal outer / 2 + 1)) *
      (diagonal inner - (diagonal outer / 2 + 1 : Nat) - (diagonal outer / 2 + 2)) ≤ 0 :=
    mul_nonpos_of_nonneg_of_nonpos (by omega) (by omega)
  have hradius : (outer : Int) * outer ≤ 2 ^ 31 * 2 ^ 31 :=
    mul_self_le_mul_self (by omega) (by omega)
  have hsquare : (0 : Int) ≤ inner * inner := by positivity
  unfold decisionBehind at hover
  unfold Encloses at hencloses
  push_cast at hover hrow hencloses
  nlinarith

end Arc

open Arc

variable {r ri x n : Nat} {outer : Arc} {inner : Option Arc}

theorem exists_steppedOffsets (hr : 0 < r) (hri : ri ≤ r) (h : ¬ Overflows r ri)
    (houter : outer.Traces r x) (hinner : FollowsInner ri x inner) (hn : x + n = r + 1) :
    ∃ offsets, steppedOffsets outer inner x n = some offsets := by
  simp only [Overflows, not_or, not_and, not_le, not_lt] at h
  obtain ⟨hlimit, hover⟩ := h
  induction n generalizing outer inner x with
  | zero => exact ⟨[], rfl⟩
  | succ n ih =>
      rw [steppedOffsets]
      by_cases hx : (x : Int) ≤ outer.y
      · have hcolumn := (encloses_iff_le_diagonal hr).mp ((houter.le_row_iff le_rfl).mp hx)
        have hsmall := houter.column_lt hx hlimit
        have hnext := advance?_eq_some_iff.mpr ⟨houter.stepFits hx hlimit, rfl⟩
        obtain ⟨inner', hnextInner, hinner'⟩ :
            ∃ inner', advanceInner? inner x = some inner' ∧ FollowsInner ri (x + 1) inner' := by
          cases inner with
          | none => exact ⟨none, rfl, hinner⟩
          | some a =>
              obtain ⟨hpos, hfollows⟩ := hinner
              have hfits : a.StepFits x := by
                by_cases hbefore : (x : Int) ≤ a.y
                · exact hfollows.stepFits hbefore (hri.trans hlimit)
                · have hrow := hfollows.behind (by omega)
                  have hmono : decisionBehind ri (x + 1) ≤ decisionBehind ri (diagonal r / 2 + 1) :=
                    decisionBehind_mono (by omega) (by omega)
                  exact hfollows.stepFits_behind hpos (by omega) (by omega)
                    (hmono.trans_lt (hover hpos))
              refine ⟨some (a.next x), ?_, hpos, hfollows.next hpos⟩
              rw [advanceInner?, advance?_eq_some_iff.mpr ⟨hfits, rfl⟩]
              rfl
        obtain ⟨offsets, hoffsets⟩ := ih houter.next hinner' (by omega)
        rw [if_pos hx, hnext, hnextInner]
        simp only [Option.bind_eq_bind, Option.bind_some, hoffsets]
        exact ⟨_, rfl⟩
      · rw [if_neg hx]
        exact ⟨[], rfl⟩

theorem steppedOffsets_eq_none_of_outer (hr : 2 ^ 62 + 2 ^ 31 < r) (hx : x * x < r)
    (hn : x + n = r + 1) : steppedOffsets (atTop r x) inner x n = none := by
  induction n generalizing inner x with
  | zero => nlinarith
  | succ n ih =>
      have hcolumn : (x : Int) ≤ (atTop r x).y := Int.ofNat_le.mpr (by nlinarith)
      rw [steppedOffsets, if_pos hcolumn]
      cases hnext : (atTop r x).advance? x with
      | none => rfl
      | some outer' =>
          obtain ⟨hfits, rfl⟩ := advance?_eq_some_iff.mp hnext
          have hsquare : ((x : Int) + 1) * (x + 1) < r := by
            by_contra hstep
            exact not_stepFits_atTop hr hx (not_lt.mp hstep) hfits
          rw [next_atTop hsquare]
          simp [ih (x := x + 1) (by zify; exact hsquare) (by omega)]

theorem steppedOffsets_eq_none_of_inner (hri : ri ≤ r) (hpos : 0 < ri)
    (hover : 2 ^ 63 ≤ decisionBehind ri (diagonal r / 2 + 1)) {a : Arc} (houter : outer.Traces r x)
    (hinner : Follows ri x a) (hx : x ≤ diagonal r / 2) (hn : x + n = r + 1) :
    steppedOffsets outer (some a) x n = none := by
  have hr : 0 < r := by omega
  induction n generalizing outer a x with
  | zero =>
      have hle := ((encloses_iff_le_diagonal hr).mpr hx).le_radius
      omega
  | succ n ih =>
      have hcolumn := (houter.le_row_iff le_rfl).mpr ((encloses_iff_le_diagonal hr).mpr hx)
      rw [steppedOffsets, if_pos hcolumn]
      cases hnext : outer.advance? x with
      | none => rfl
      | some outer' =>
          obtain ⟨-, rfl⟩ := advance?_eq_some_iff.mp hnext
          cases hnextInner : a.advance? x with
          | none => simp [advanceInner?, hnextInner]
          | some a' =>
              obtain ⟨hfits, rfl⟩ := advance?_eq_some_iff.mp hnextInner
              have hfollows := hinner.next hpos
              rcases hx.eq_or_lt with rfl | hlt
              · have hbehind : (a.next (diagonal r / 2 : Nat)).y < (diagonal r / 2 + 1 : Nat) := by
                  by_contra hbefore
                  have hencloses := (hfollows.le_row_iff le_rfl).mp (not_lt.mp hbefore)
                  have hle := (encloses_iff_le_diagonal hpos).mp hencloses
                  have hmono := diagonal_mono hri
                  omega
                have hd := hfits.fits_next
                rw [hfollows.decision_eq hbehind] at hd
                exact absurd hd.2 (not_lt.mpr hover)
              · have hrest := ih houter.next hfollows hlt (by omega)
                simp [advanceInner?, hnextInner, hrest]

/-- Tracing a ring fails exactly if one of its circles is too large for that. -/
theorem steppedOffsets_eq_none_iff (hr : 0 < r) (hri : ri ≤ r) :
    steppedOffsets ⟨r, 1 - r⟩ (if 0 < ri then some ⟨ri, 1 - ri⟩ else none) 0 (r + 1) = none ↔
      Overflows r ri := by
  have hstart : FollowsInner ri 0 (if 0 < ri then some ⟨ri, 1 - ri⟩ else none) := by
    split
    case isTrue hpos => exact ⟨hpos, .start hpos⟩
    case isFalse hzero => exact Nat.eq_zero_of_not_pos hzero
  constructor
  · intro hnone
    by_contra h
    obtain ⟨offsets, hsome⟩ :=
      exists_steppedOffsets (n := r + 1) hr hri h (.start hr) hstart (by omega)
    cases hnone.symm.trans hsome
  · rintro (hlarge | ⟨hpos, hover⟩)
    · rw [← atTop_zero]
      exact steppedOffsets_eq_none_of_outer hlarge (by omega) (by omega)
    · rw [if_pos hpos]
      exact steppedOffsets_eq_none_of_inner hri hpos hover (.start hr) (.start hpos)
        (Nat.zero_le _) (by omega)

end Raster
