import Mathlib.Data.Set.Basic
import Raster.Proofs.Geometry

/-!
# Rectangles as sets of points

Intersecting rectangles is intersecting the sets of their points, if all far edges fit a word. A
part that is not empty is determined by its points, so that the laws of sets carry over: it does not
matter in which order rectangles are intersected, nor how they are grouped.
-/

namespace Raster

namespace Rect

/-- The points that the rectangle covers. -/
def points (r : Rect) : Set (Nat × Nat) := {p | r.Covers p.1 p.2}

variable {a b c r s : Rect}

theorem mem_points {p : Nat × Nat} : p ∈ r.points ↔ r.Covers p.1 p.2 := Iff.rfl

theorem points_eq_empty_iff : r.points = ∅ ↔ r.isEmpty = true := by
  constructor
  · intro h
    rw [isEmpty_iff]
    by_contra hsides
    have hcorner : (r.x, r.y) ∈ r.points := ⟨by omega, by omega⟩
    rw [h] at hcorner
    exact hcorner
  · intro h
    exact Set.eq_empty_of_forall_notMem fun p hp => not_covers_of_isEmpty h p.1 p.2 hp

theorem points_empty : Rect.empty.points = ∅ := points_eq_empty_iff.mpr rfl

theorem points_subset_iff (hr : r.isEmpty = false) :
    r.points ⊆ s.points ↔
      (s.x ≤ r.x ∧ r.x + r.w ≤ s.x + s.w) ∧ s.y ≤ r.y ∧ r.y + r.h ≤ s.y + s.h := by
  obtain ⟨hw, hh⟩ := sides_pos hr
  constructor
  · intro h
    have hfirst := @h (r.x, r.y) ⟨by omega, by omega⟩
    have hlast := @h (r.x + r.w - 1, r.y + r.h - 1) ⟨by omega, by omega⟩
    simp only [mem_points, Covers] at hfirst hlast
    omega
  · rintro ⟨hacross, hdown⟩ p ⟨hx, hy⟩
    exact ⟨by omega, by omega⟩

theorem eq_of_points_eq (hr : r.isEmpty = false) (hs : s.isEmpty = false)
    (h : r.points = s.points) : r = s := by
  have hrs := (points_subset_iff hr).mp h.subset
  have hsr := (points_subset_iff hs).mp h.superset
  obtain ⟨x, y, w, h⟩ := r
  obtain ⟨x', y', w', h'⟩ := s
  simp only [Rect.mk.injEq]
  dsimp only at hrs hsr
  omega

/-! ## Questions whose answers need no more than a word -/

theorem contains?_eq (hr : r.isAddressable = true) (x y : Nat) :
    r.contains? x y = some (decide (r.Covers x y)) := by
  obtain ⟨hright, hbottom⟩ := isAddressable_iff.mp hr
  simp only [contains?, right?, bottom?, Word.add_of_lt hright, Word.add_of_lt hbottom,
    Option.bind_eq_bind, Option.bind_some, Option.pure_def]
  split
  case isTrue hleft =>
    exact congrArg some (decide_eq_false fun hc => Nat.not_lt_of_le hc.1.1 hleft).symm
  case isFalse hleft =>
    split
    case isTrue hright =>
      exact congrArg some (decide_eq_false fun hc => Nat.not_le_of_lt hc.1.2 hright).symm
    case isFalse hright =>
      split
      case isTrue htop =>
        exact congrArg some (decide_eq_false fun hc => Nat.not_lt_of_le hc.2.1 htop).symm
      case isFalse htop => exact congrArg some (decide_eq_decide.mpr (by rw [Covers]; omega))

theorem containsRect?_eq (ha : a.isAddressable = true) (hb : b.isAddressable = true) :
    a.containsRect? b = some (decide
      ((a.x ≤ b.x ∧ b.x + b.w ≤ a.x + a.w) ∧ a.y ≤ b.y ∧ b.y + b.h ≤ a.y + a.h)) := by
  obtain ⟨hright, hbottom⟩ := isAddressable_iff.mp ha
  obtain ⟨hright', hbottom'⟩ := isAddressable_iff.mp hb
  simp only [containsRect?, right?, bottom?, Word.add_of_lt hright, Word.add_of_lt hbottom,
    Word.add_of_lt hright', Word.add_of_lt hbottom', Option.bind_eq_bind, Option.bind_some,
    Option.pure_def, Bool.or_eq_true, decide_eq_true_eq]
  split
  case isTrue hcorner => exact congrArg some (decide_eq_false (by omega)).symm
  case isFalse hcorner =>
    split
    case isTrue hwide => exact congrArg some (decide_eq_false (by omega)).symm
    case isFalse hwide => exact congrArg some (decide_eq_decide.mpr (by omega))

/-! ## The part that two rectangles share -/

/-- The part is the rectangle of these points. If there are none it is missing, and never a
rectangle that is empty. -/
structure PartOf (part : Option Rect) (points : Set (Nat × Nat)) : Prop where
  eq_none_iff : part = none ↔ points = ∅
  points_eq : ∀ p ∈ part, p.points = points
  isAddressable : ∀ p ∈ part, p.isAddressable = true

theorem partOf_none : PartOf none ∅ where
  eq_none_iff := ⟨fun _ => rfl, fun _ => rfl⟩
  points_eq := by simp
  isAddressable := by simp

theorem partOf_some (hne : r.isEmpty = false) (hr : r.isAddressable = true) :
    PartOf (some r) r.points where
  eq_none_iff := by simp [points_eq_empty_iff, hne]
  points_eq := by simp
  isAddressable := by simpa using hr

namespace PartOf

variable {part part' : Option Rect} {P : Set (Nat × Nat)}

theorem isEmpty_eq_false (h : PartOf part P) : ∀ p ∈ part, p.isEmpty = false := by
  intro p hp
  refine Bool.eq_false_iff.mpr fun hempty => ?_
  have hnone := h.eq_none_iff.mpr ((h.points_eq p hp).symm.trans (points_eq_empty_iff.mpr hempty))
  rw [hnone] at hp
  cases hp

/-- The points determine the part. -/
theorem unique (h : PartOf part P) (h' : PartOf part' P) : part = part' := by
  cases hpart : part with
  | none => exact (h'.eq_none_iff.mpr (h.eq_none_iff.mp hpart)).symm
  | some p =>
      cases hpart' : part' with
      | none =>
          rw [h.eq_none_iff.mpr (h'.eq_none_iff.mp hpart')] at hpart
          cases hpart
      | some p' =>
          exact congrArg some (eq_of_points_eq (h.isEmpty_eq_false p hpart)
            (h'.isEmpty_eq_false p' hpart')
            ((h.points_eq p hpart).trans (h'.points_eq p' hpart').symm))

theorem getD_empty (h : PartOf part P) :
    (part.getD .empty).points = P ∧ (part.getD .empty).isAddressable = true := by
  cases hpart : part with
  | none => exact ⟨points_empty.trans (h.eq_none_iff.mp hpart).symm, rfl⟩
  | some p => exact ⟨h.points_eq p hpart, h.isAddressable p hpart⟩

end PartOf

theorem intersect?_partOf (ha : a.isAddressable = true) (hb : b.isAddressable = true) :
    ∃ part, a.intersect? b = some part ∧ PartOf part (a.points ∩ b.points) := by
  refine ⟨_, intersect?_eq ha hb, ?_⟩
  have hbounds := isAddressable_iff.mp ha
  split
  case isTrue hmeet =>
    have hpoints : (⟨max a.x b.x, max a.y b.y, min (a.x + a.w) (b.x + b.w) - max a.x b.x,
        min (a.y + a.h) (b.y + b.h) - max a.y b.y⟩ : Rect).points = a.points ∩ b.points := by
      ext p
      simp only [mem_points, Set.mem_inter_iff, Covers]
      omega
    rw [← hpoints]
    refine partOf_some (Bool.eq_false_iff.mpr ?_) (isAddressable_iff.mpr ?_)
    · rw [Ne, isEmpty_iff]
      dsimp only
      omega
    · dsimp only
      omega
  case isFalse hapart =>
    have hnone : a.points ∩ b.points = ∅ := by
      refine Set.eq_empty_of_forall_notMem fun p hp => hapart ?_
      simp only [mem_points, Set.mem_inter_iff, Covers] at hp
      omega
    rw [hnone]
    exact partOf_none

theorem intersect?_comm (ha : a.isAddressable = true) (hb : b.isAddressable = true) :
    b.intersect? a = a.intersect? b := by
  obtain ⟨part, hpart, h⟩ := intersect?_partOf ha hb
  obtain ⟨part', hpart', h'⟩ := intersect?_partOf hb ha
  rw [hpart, hpart', h.unique (Set.inter_comm b.points a.points ▸ h')]

theorem intersect?_assoc (ha : a.isAddressable = true) (hb : b.isAddressable = true)
    (hc : c.isAddressable = true) :
    ∃ ab bc abc, a.intersect? b = some ab ∧ b.intersect? c = some bc ∧
      (ab.getD .empty).intersect? c = some abc ∧ a.intersect? (bc.getD .empty) = some abc := by
  obtain ⟨ab, hab, hfirst⟩ := intersect?_partOf ha hb
  obtain ⟨bc, hbc, hlast⟩ := intersect?_partOf hb hc
  obtain ⟨abc, habc, hleft⟩ := intersect?_partOf hfirst.getD_empty.2 hc
  obtain ⟨abc', habc', hright⟩ := intersect?_partOf ha hlast.getD_empty.2
  rw [hfirst.getD_empty.1, Set.inter_assoc] at hleft
  rw [hlast.getD_empty.1] at hright
  exact ⟨ab, bc, abc, hab, hbc, habc, hleft.unique hright ▸ habc'⟩

theorem intersect?_eq_self_iff (ha : a.isAddressable = true) (hb : b.isAddressable = true)
    (hne : b.isEmpty = false) :
    a.intersect? b = some (some b) ↔ b.points ⊆ a.points := by
  obtain ⟨part, hpart, h⟩ := intersect?_partOf ha hb
  rw [hpart, Option.some.injEq, ← Set.inter_eq_right]
  constructor
  · intro heq
    exact (h.points_eq b heq).symm
  · intro heq
    rw [heq] at h
    exact h.unique (partOf_some hne hb)

theorem containsRect?_eq_true_iff (ha : a.isAddressable = true) (hb : b.isAddressable = true)
    (hne : b.isEmpty = false) :
    a.containsRect? b = some true ↔ b.points ⊆ a.points := by
  rw [containsRect?_eq ha hb, Option.some.injEq, decide_eq_true_iff, points_subset_iff hne]

/-- Rectangles whose far edges fit a word are an algebra of sets of points. No question about them
goes unanswered: whether one covers a point, which part two of them share, and whether one lies
within another. -/
theorem algebra_of_sets (a b c : Rect) (ha : a.isAddressable = true)
    (hb : b.isAddressable = true) (hc : c.isAddressable = true) :
    (∀ x y, a.contains? x y = some (decide (a.Covers x y))) ∧
    (∃ part, a.intersect? b = some part ∧
      (part = none ↔ ∀ x y, ¬ (a.Covers x y ∧ b.Covers x y)) ∧
      ∀ p ∈ part, p.isEmpty = false ∧ p.isAddressable = true ∧
        ∀ x y, p.Covers x y ↔ a.Covers x y ∧ b.Covers x y) ∧
    b.intersect? a = a.intersect? b ∧
    (∃ ab bc abc, a.intersect? b = some ab ∧ b.intersect? c = some bc ∧
      (ab.getD .empty).intersect? c = some abc ∧ a.intersect? (bc.getD .empty) = some abc) ∧
    ∃ within, a.containsRect? b = some within ∧ (b.isEmpty = false →
      (within = true ↔ ∀ x y, b.Covers x y → a.Covers x y) ∧
      (within = true ↔ a.intersect? b = some (some b))) := by
  refine ⟨contains?_eq ha, ?shared, intersect?_comm ha hb, intersect?_assoc ha hb hc,
    _, containsRect?_eq ha hb, fun hne => ?within⟩
  case shared =>
    obtain ⟨part, hpart, h⟩ := intersect?_partOf ha hb
    refine ⟨part, hpart, h.eq_none_iff.trans ?_, fun p hp => ?_⟩
    · exact Set.eq_empty_iff_forall_notMem.trans Prod.forall
    · exact ⟨h.isEmpty_eq_false p hp, h.isAddressable p hp,
        fun x y => Set.ext_iff.mp (h.points_eq p hp) (x, y)⟩
  case within =>
    have hsubset := containsRect?_eq_true_iff ha hb hne
    rw [containsRect?_eq ha hb, Option.some.injEq] at hsubset
    exact ⟨hsubset.trans Prod.forall, hsubset.trans (intersect?_eq_self_iff ha hb hne).symm⟩

/-- Far edges that are the greatest words, and an empty rectangle across both. -/
theorem algebra_of_sets_farthest :
    (⟨7, 0, 0xFFFF_FFFF_FFFF_FFF8, 9⟩ : Rect).intersect? ⟨0xFFFF_FFFF_FFFF_FFF0, 5, 15, 4⟩ =
      some (some ⟨0xFFFF_FFFF_FFFF_FFF0, 5, 15, 4⟩) ∧
    (∀ x y, (⟨0xFFFF_FFFF_FFFF_FFF0, 5, 15, 4⟩ : Rect).Covers x y →
      (⟨7, 0, 0xFFFF_FFFF_FFFF_FFF8, 9⟩ : Rect).Covers x y) ∧
    ∃ bc, (⟨0xFFFF_FFFF_FFFF_FFF0, 5, 15, 4⟩ : Rect).intersect?
        ⟨0, 8, 0xFFFF_FFFF_FFFF_FFFF, 0⟩ = some bc ∧
      (⟨7, 0, 0xFFFF_FFFF_FFFF_FFF8, 9⟩ : Rect).intersect? (bc.getD .empty) = some none := by
  obtain ⟨-, -, -, ⟨ab, bc, abc, hab, hbc, habc, habc'⟩, within, hwithin, hpoints⟩ :=
    algebra_of_sets ⟨7, 0, 0xFFFF_FFFF_FFFF_FFF8, 9⟩ ⟨0xFFFF_FFFF_FFFF_FFF0, 5, 15, 4⟩
      ⟨0, 8, 0xFFFF_FFFF_FFFF_FFFF, 0⟩ (by decide) (by decide) (by decide)
  obtain ⟨hcovers, hself⟩ := hpoints rfl
  have hinside : within = true := Option.some.inj (hwithin.symm.trans (by decide))
  have hpart := hself.mp hinside
  cases hab.symm.trans hpart
  have hnone : abc = none := Option.some.inj (habc.symm.trans (by decide))
  exact ⟨hpart, hcovers.mp hinside, bc, hbc, hnone ▸ habc'⟩

end Rect

end Raster
