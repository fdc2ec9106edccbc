import Mathlib.Tactic.Linarith
import Raster.Proofs.Addressing
import Raster.Surface.Corner

/-!
# Circles traced by the midpoint rule

Down to the diagonal, the row of a traced circle is the last one of its column that the circle
encloses. What the stepped painter plots is therefore known without running it: the offsets that
the outer circle encloses and the inner one does not.
-/

namespace Raster

/-- The number is an offset. -/
def Offset.Fits (i : Int) : Prop := -bound ≤ i ∧ i < bound

theorem Offset.fit_iff_fits {i j : Int} : fit i = some j ↔ Fits i ∧ i = j := fit_eq_some_iff

theorem Word.signed_fits {n : Nat} (hn : n < bound) : Offset.Fits (signed n) := by
  have hbound := Offset.natCast_bound
  unfold bound at hn
  unfold Offset.Fits signed bound
  split <;> omega

namespace Arc

/-- The circle of this radius encloses the row `m` of the column `n`, measured half a pixel before
the row: `n ^ 2 + (m - 1 / 2) ^ 2 < radius ^ 2 + 1 / 4`, written without fractions. -/
def Encloses (radius n m : Nat) : Prop := (n : Int) * n + m * (m - 1) < radius * radius

instance (radius n m : Nat) : Decidable (Encloses radius n m) :=
  inferInstanceAs (Decidable (_ < _))

/-- The state of the trace of a circle at the column `x`. Behind the diagonal the row need not be
enclosed any more: the inner circle is traced on until the outer one meets the diagonal. -/
structure Traces (radius x : Nat) (a : Arc) : Prop where
  decision : a.d = (x + 1) * (x + 1) + a.y * (a.y - 1) - radius * radius
  enclosed : (x : Int) ≤ a.y → (x : Int) * x + a.y * (a.y - 1) < radius * radius
  next_outside : (radius : Int) * radius ≤ x * x + a.y * (a.y + 1)
  row_ge : (radius : Int) - x ≤ a.y
  row_le : a.y ≤ radius

/-- The trace of the inner circle, which there is unless the ring is a full disc. -/
def TracesInner (radius x : Nat) : Option Arc → Prop
  | none => radius = 0
  | some a => Traces radius x a

variable {radius n m x : Nat} {a b : Arc}

theorem mul_pred_mono {i j : Int} (hi : 0 ≤ i) (h : i ≤ j) : i * (i - 1) ≤ j * (j - 1) := by
  rcases h.eq_or_lt with rfl | hlt
  · exact le_refl _
  · nlinarith

theorem not_encloses_zero : ¬ Encloses 0 n m := by
  have hrow := mul_pred_mono le_rfl (Int.natCast_nonneg m)
  have hsquare : (0 : Int) ≤ n * n := by positivity
  rw [Encloses]
  omega

theorem Encloses.diagonal (h : Encloses radius n m) (hx : x ≤ n) (hnm : n ≤ m) :
    Encloses radius x x := by
  have hsquare : x * x ≤ n * n := Nat.mul_le_mul hx hx
  have hrow := mul_pred_mono (Int.natCast_nonneg x) (Int.ofNat_le.mpr (hx.trans hnm))
  rw [Encloses] at h ⊢
  zify at hsquare
  omega

theorem Encloses.le_radius (h : Encloses radius n m) : m ≤ radius := by
  by_contra hlt
  have hm : (radius : Int) + 1 ≤ m := Int.ofNat_lt.mpr (Nat.lt_of_not_le hlt)
  rw [Encloses] at h
  nlinarith

theorem ofRadius?_eq (hr : radius < Offset.bound) :
    ofRadius? radius = some ⟨radius, 1 - radius⟩ := by
  have hbound := Offset.natCast_bound
  have hstart : Offset.sub 1 radius = some (1 - radius : Int) :=
    Offset.fit_eq (by omega) (by omega)
  rw [ofRadius?, hstart]
  rfl

/-- The state in the next column, in numbers without bounds. -/
def next (a : Arc) (x : Int) : Arc :=
  if a.d < 0 then ⟨a.y, a.d + (2 * x + 3)⟩ else ⟨a.y - 1, a.d + (2 * (x - a.y) + 5)⟩

/-- All numbers on the way to the next column are offsets. -/
def StepFits (a : Arc) (x : Int) : Prop :=
  if a.d < 0 then
    Offset.Fits (2 * x) ∧ Offset.Fits (2 * x + 3) ∧ Offset.Fits (a.d + (2 * x + 3))
  else
    Offset.Fits (x - a.y) ∧ Offset.Fits (2 * (x - a.y)) ∧ Offset.Fits (2 * (x - a.y) + 5) ∧
      Offset.Fits (a.y - 1) ∧ Offset.Fits (a.d + (2 * (x - a.y) + 5))

theorem advance?_eq_some_iff {x : Int} : a.advance? x = some b ↔ a.StepFits x ∧ a.next x = b := by
  rw [advance?, StepFits, next]
  split <;>
    simp only [Option.bind_eq_bind, Option.bind_eq_some_iff, Option.pure_def, Option.some.injEq,
      Offset.add, Offset.mul, Offset.sub, Offset.fit_iff_fits, and_assoc, exists_and_left,
      exists_eq_left']

namespace Traces

theorem start (hr : 0 < radius) : Traces radius 0 ⟨radius, 1 - radius⟩ where
  decision := by
    push_cast
    linarith
  enclosed _ := by
    push_cast
    nlinarith
  next_outside := by
    push_cast
    nlinarith
  row_ge := by simp
  row_le := le_refl _

/-- The rows up to the traced one are those that the circle encloses. -/
theorem le_row_iff (h : Traces radius x a) (hx : x ≤ m) :
    (m : Int) ≤ a.y ↔ Encloses radius x m := by
  obtain ⟨-, henclosed, houtside, hge, -⟩ := h
  have hm : (x : Int) ≤ m := Int.ofNat_le.mpr hx
  rw [Encloses]
  constructor
  · intro hle
    have hrow := mul_pred_mono (Int.natCast_nonneg m) hle
    have hinside := henclosed (hm.trans hle)
    omega
  · intro hlt
    by_contra hgt
    have hnext : 0 ≤ (m + a.y) * (m - a.y - 1) := mul_nonneg (by omega) (by omega)
    linarith

theorem next (h : Traces radius x a) : Traces radius (x + 1) (a.next x) := by
  obtain ⟨hd, henclosed, houtside, hge, hle⟩ := h
  rw [Arc.next]
  split
  case isTrue hneg =>
    refine ⟨?_, fun _ => ?_, ?_, ?_, hle⟩
    all_goals push_cast; linarith
  case isFalse hneg =>
    refine ⟨?_, fun hdiagonal => ?_, ?_, ?_, ?_⟩
    · push_cast
      linarith
    · push_cast at hdiagonal ⊢
      have hinside := henclosed (by omega)
      linarith
    all_goals push_cast; linarith

theorem advance (h : Traces radius x a) (hr : radius ≤ 2 ^ 30) (hx : x ≤ 2 ^ 30) :
    ∃ b, a.advance? x = some b ∧ Traces radius (x + 1) b := by
  refine ⟨_, advance?_eq_some_iff.mpr ⟨?_, rfl⟩, h.next⟩
  obtain ⟨hd, -, houtside, hge, hle⟩ := h
  have hhigh : a.d < 2 ^ 62 := by
    zify at hr hx
    nlinarith
  have hlow : -2 ^ 62 < a.d := by
    zify at hr hx
    nlinarith
  have hbound := Offset.natCast_bound
  unfold StepFits Offset.Fits
  split <;> omega

end Traces

/-- The first row of a column that the inner circle leaves. -/
def firstRow (inner : Option Arc) (x : Nat) : Nat :=
  match inner with
  | some arc => if (x : Int) ≤ arc.y then (arc.y + 1).toNat else x
  | none => x

def advanceInner? (inner : Option Arc) (x : Int) : Option (Option Arc) :=
  match inner with
  | some arc => some <$> arc.advance? x
  | none => some none

namespace TracesInner

variable {inner : Option Arc}

theorem firstRow_le_iff (h : TracesInner radius x inner) (hx : x ≤ m) :
    firstRow inner x ≤ m ↔ ¬ Encloses radius x m := by
  cases inner with
  | none =>
      cases h
      exact iff_of_true hx not_encloses_zero
  | some arc =>
      rw [← Traces.le_row_iff h hx, firstRow]
      split <;> omega

theorem advance (h : TracesInner radius x inner) (hr : radius ≤ 2 ^ 30) (hx : x ≤ 2 ^ 30) :
    ∃ next, advanceInner? inner x = some next ∧ TracesInner radius (x + 1) next := by
  cases inner with
  | none => exact ⟨none, rfl, h⟩
  | some arc =>
      obtain ⟨next, hnext, htraces⟩ := Traces.advance h hr hx
      exact ⟨some next, by rw [advanceInner?, hnext]; rfl, htraces⟩

end TracesInner

theorem le_firstRow (inner : Option Arc) (x : Nat) : x ≤ firstRow inner x := by
  cases inner with
  | none => exact le_rfl
  | some arc =>
      rw [firstRow]
      split <;> omega

end Arc

/-! ## The offsets that are plotted -/

/-- The stepped painter plots the offset: the outer circle encloses it, the inner one does not. -/
def OnSteppedRing (outer inner dx dy : Nat) : Prop :=
  Arc.Encloses outer (min dx dy) (max dx dy) ∧ ¬ Arc.Encloses inner (min dx dy) (max dx dy)

instance (outer inner dx dy : Nat) : Decidable (OnSteppedRing outer inner dx dy) :=
  inferInstanceAs (Decidable (_ ∧ ¬ _))

/-- The offsets of a run of rows of the column `x`, each with its mirror image. -/
def columnOffsets (x low count : Nat) : List (Nat × Nat) :=
  (List.range' low count).flatMap fun t => [(x, t), (t, x)]

/-- The offsets that `Paint.steppedColumns` plots one after the other. -/
def steppedOffsets (outer : Arc) (inner : Option Arc) (x : Nat) :
    (n : Nat) → Option (List (Nat × Nat))
  | 0 => some []
  | n + 1 =>
    if (x : Int) ≤ outer.y then do
      let low := Arc.firstRow inner x
      let column := columnOffsets x low (outer.y + 1 - low).toNat
      let columns ← steppedOffsets (← outer.advance? x) (← Arc.advanceInner? inner x) (x + 1) n
      return column ++ columns
    else some []

/-- The columns from `x` on are traced until the outer circle is behind the diagonal, and plot
these offsets. The rules know no bound on the number of columns. -/
inductive Columns : Arc → Option Arc → Nat → List (Nat × Nat) → Prop where
  | behind {outer : Arc} {inner} {x : Nat} : outer.y < x → Columns outer inner x []
  | column {outer outer' : Arc} {inner inner' rest} {x : Nat} : x ≤ outer.y →
      outer.advance? x = some outer' → Arc.advanceInner? inner x = some inner' →
      Columns outer' inner' (x + 1) rest →
      Columns outer inner x (columnOffsets x (Arc.firstRow inner x)
        (outer.y + 1 - Arc.firstRow inner x).toNat ++ rest)

theorem mem_columnOffsets {x low count dx dy : Nat} (hx : x ≤ low) :
    (dx, dy) ∈ columnOffsets x low count ↔
      min dx dy = x ∧ low ≤ max dx dy ∧ max dx dy < low + count := by
  simp only [columnOffsets, List.mem_flatMap, List.mem_range'_1, List.mem_cons, Prod.mk.injEq,
    List.not_mem_nil, or_false]
  constructor
  · rintro ⟨t, ht, ⟨rfl, rfl⟩ | ⟨rfl, rfl⟩⟩ <;> omega
  · rintro ⟨hmin, hmax⟩
    exact ⟨max dx dy, hmax, by omega⟩

section

variable {r ri x n : Nat} {outer : Arc} {inner : Option Arc}

theorem mem_column_iff (houter : outer.Traces r x) (hinner : Arc.TracesInner ri x inner)
    (dx dy : Nat) :
    (dx, dy) ∈ columnOffsets x (Arc.firstRow inner x)
        (outer.y + 1 - Arc.firstRow inner x).toNat ↔
      min dx dy = x ∧ OnSteppedRing r ri dx dy := by
  rw [mem_columnOffsets (Arc.le_firstRow inner x)]
  refine and_congr_right fun hmin => ?_
  have hmax : x ≤ max dx dy := hmin ▸ min_le_max
  rw [OnSteppedRing, hmin, ← houter.le_row_iff hmax, ← hinner.firstRow_le_iff hmax]
  omega

/-- From the column `x` on, the offsets of the ring in the columns up to the diagonal, and their
mirror images, are plotted; the circle is behind the diagonal before the columns run out. -/
theorem mem_steppedOffsets (hr : r ≤ 2 ^ 30) (hri : ri ≤ r) (houter : outer.Traces r x)
    (hinner : Arc.TracesInner ri x inner) (hn : x + n = r + 1) :
    ∃ offsets, steppedOffsets outer inner x n = some offsets ∧ Columns outer inner x offsets ∧
      ∀ dx dy, (dx, dy) ∈ offsets ↔ x ≤ min dx dy ∧ OnSteppedRing r ri dx dy := by
  induction n generalizing outer inner x with
  | zero =>
      have hbehind : outer.y < x := by
        have hrow := houter.row_le
        omega
      refine ⟨[], rfl, .behind hbehind, fun dx dy => iff_of_false List.not_mem_nil ?_⟩
      rintro ⟨hx, hring, -⟩
      have := hring.le_radius
      omega
  | succ n ih =>
      rw [steppedOffsets]
      by_cases hx : (x : Int) ≤ outer.y
      · obtain ⟨outer', hnext, houter'⟩ := houter.advance hr (by omega)
        obtain ⟨inner', hnextInner, hinner'⟩ := hinner.advance (hri.trans hr) (by omega)
        obtain ⟨offsets, hoffsets, hcolumns, hmem⟩ := ih houter' hinner' (by omega)
        rw [if_pos hx]
        simp only [Option.bind_eq_bind, Option.bind_eq_some_iff]
        refine ⟨_, ⟨_, hnext, _, hnextInner, _, hoffsets, rfl⟩,
          .column hx hnext hnextInner hcolumns, fun dx dy => ?_⟩
        rw [List.mem_append, mem_column_iff houter hinner, hmem, ← or_and_right]
        exact and_congr_left fun _ => by omega
      · rw [if_neg hx]
        refine ⟨[], rfl, .behind (not_le.mp hx), fun dx dy => iff_of_false List.not_mem_nil ?_⟩
        rintro ⟨hmin, hring, -⟩
        exact hx ((houter.le_row_iff le_rfl).mpr (hring.diagonal hmin min_le_max))

end

/-! ## The painter and its offsets -/

namespace Paint

theorem forEach_eq_forM (step : Nat → Paint Unit) (start count : Nat) :
    forEach step start count = (List.range' start count).forM step := by
  induction count generalizing start with
  | zero => rfl
  | succ count ih =>
      rw [forEach, ih, List.range'_succ]
      rfl

theorem forM_append {α : Type} (step : α → Paint Unit) (as bs : List α) :
    (as ++ bs).forM step = (do as.forM step; bs.forM step) := by
  simpa only [List.forM_eq_forM] using List.forM_append

theorem forM_flatMap {α β : Type} (step : β → Paint Unit) (f : α → List β) (as : List α) :
    (as.flatMap f).forM step = as.forM fun a => (f a).forM step := by
  induction as with
  | nil => rfl
  | cons a as ih =>
      rw [List.flatMap_cons, forM_append, ih]
      rfl

theorem forM_columnOffsets (plot : Nat → Nat → Paint Unit) (x low count : Nat) :
    ((columnOffsets x low count).forM fun (dx, dy) => plot dx dy) =
      forEach (fun t => do plot x t; plot t x) low count := by
  rw [columnOffsets, forM_flatMap, forEach_eq_forM]
  refine congrArg _ (funext fun t => ?_)
  exact congrArg (plot x t >>= ·) (funext fun _ => bind_pure _)

section

variable (corners : Corners) (p : Pixel) {outer : Arc} (inner : Option Arc) {x : Nat} (n : Nat)

theorem steppedColumns_succ (hx : (x : Int) ≤ outer.y) :
    steppedColumns corners p outer inner x (n + 1) = (do
      forEach (fun t => do putCorners corners p x t; putCorners corners p t x)
        (Arc.firstRow inner x) (outer.y + 1 - Arc.firstRow inner x).toNat
      let outer ← ofOption (outer.advance? x)
      let inner ← ofOption (Arc.advanceInner? inner x)
      steppedColumns corners p outer inner (x + 1) n) := by
  rw [steppedColumns.eq_def]
  dsimp only
  rw [if_pos hx]
  cases inner with
  | none => rfl
  | some arc =>
      dsimp only [Arc.advanceInner?]
      cases arc.advance? x <;> rfl

theorem steppedColumns_of_lt (hx : outer.y < x) :
    steppedColumns corners p outer inner x n = pure () := by
  cases n with
  | zero => rfl
  | succ n =>
      rw [steppedColumns.eq_def]
      dsimp only
      rw [if_neg (not_le.mpr hx)]

end

theorem steppedColumns_eq_forM (corners : Corners) (p : Pixel) {outer : Arc} {inner : Option Arc}
    {x n : Nat} {offsets : List (Nat × Nat)} (h : steppedOffsets outer inner x n = some offsets) :
    steppedColumns corners p outer inner x n =
      offsets.forM fun (dx, dy) => putCorners corners p dx dy := by
  induction n generalizing outer inner x offsets with
  | zero =>
      cases h
      rfl
  | succ n ih =>
      rw [steppedOffsets] at h
      by_cases hx : (x : Int) ≤ outer.y
      · rw [if_pos hx] at h
        simp only [Option.bind_eq_bind, Option.bind_eq_some_iff] at h
        obtain ⟨outer', hnext, inner', hnextInner, rest, hrest, heq⟩ := h
        cases heq
        rw [steppedColumns_succ corners p inner n hx, forM_append,
          forM_columnOffsets (fun dx dy => putCorners corners p dx dy), hnext, hnextInner]
        exact congrArg (forEach _ _ _ >>= ·) (funext fun _ => ih hrest)
      · rw [if_neg hx] at h
        cases h
        exact steppedColumns_of_lt corners p inner (n + 1) (not_le.mp hx)

end Paint

end Raster
