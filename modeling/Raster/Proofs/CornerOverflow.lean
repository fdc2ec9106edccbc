import Raster.Proofs.ArcOverflow
import Raster.Proofs.CornerFootprint
import Raster.Proofs.Refusal
import Raster.Proofs.SteppedCorner

/-!
# Corners that overflow

The painters work out the points of the corners with a sign, skip those that are off the surface,
and check nothing before. So a corner can fail far away from every surface: where the coordinates
change their sign between an edge and the centres next to it, or where the radius is too large for
the squares that the smooth painter compares or for the circles that the stepped one traces.
Whether a corner fails does not depend on the surface, and no other corner does.
-/

namespace Raster

namespace Paint

/-! ## When a computation succeeds -/

/-- On every surface of this layout, which it keeps, the computation succeeds if and only if `P`. -/
def OkIff (p : Paint Unit) (l : Layout) (P : Prop) : Prop :=
  ∀ s : Surface, s.toLayout = l → (s.paint p).2.toLayout = l ∧ ((s.paint p).1 = .ok () ↔ P)

namespace OkIff

variable {α : Type} {l : Layout} {p q : Paint Unit} {P Q : Prop}

theorem pure : OkIff (pure ()) l True :=
  fun _ hs => ⟨hs, iff_of_true rfl trivial⟩

theorem congr (hp : p.OkIff l P) (h : P ↔ Q) : p.OkIff l Q :=
  fun s hs => ⟨(hp s hs).1, (hp s hs).2.trans h⟩

theorem seq (hp : p.OkIff l P) (hq : q.OkIff l Q) : OkIff (do p; q) l (P ∧ Q) := by
  intro s hs
  obtain ⟨hkept, hok⟩ := hp s hs
  rw [Surface.paint_bind]
  cases hout : s.paint p with
  | mk out t =>
      rw [hout] at hkept hok
      cases out with
      | ok a =>
          obtain ⟨hkept', hok'⟩ := hq t hkept
          exact ⟨hkept', hok'.trans (and_iff_right (hok.mp rfl)).symm⟩
      | error e => exact ⟨hkept, iff_of_false nofun fun h => nomatch hok.mpr h.1⟩

theorem get_bind {k : Surface → Paint Unit} (hk : ∀ s : Surface, s.toLayout = l → (k s).OkIff l P) :
    OkIff (get >>= k) l P :=
  fun s hs => hk s hs s hs

theorem ofOption_bind {o : Option α} {k : α → Paint Unit} {P : α → Prop}
    (hk : ∀ a, o = some a → (k a).OkIff l (P a)) :
    OkIff (ofOption o >>= k) l (∃ a, o = some a ∧ P a) := by
  cases o with
  | none => exact fun _ hs => ⟨hs, iff_of_false nofun nofun⟩
  | some a => exact (hk a rfl).congr (by simp)

theorem forM {step : α → Paint Unit} {P : α → Prop} {as : List α}
    (h : ∀ a ∈ as, (step a).OkIff l (P a)) : (as.forM step).OkIff l (∀ a ∈ as, P a) := by
  induction as with
  | nil => exact pure.congr (by simp)
  | cons a as ih =>
      have hrest := ih fun b hb => h b (List.mem_cons_of_mem a hb)
      exact (seq (h a List.mem_cons_self) hrest).congr List.forall_mem_cons.symm

theorem forEach {step : Nat → Paint Unit} {P : Nat → Prop} {start count : Nat}
    (h : ∀ i, start ≤ i → i < start + count → (step i).OkIff l (P i)) :
    (Paint.forEach step start count).OkIff l (∀ i, start ≤ i → i < start + count → P i) := by
  rw [forEach_eq_forM]
  refine (forM (P := P) fun i hi => ?_).congr (by simp only [List.mem_range'_1, and_imp])
  obtain ⟨hlow, hhigh⟩ := List.mem_range'_1.mp hi
  exact h i hlow hhigh

theorem forM_ok {step : α → Paint Unit} {as : List α} (h : ∀ a ∈ as, (step a).OkIff l True) :
    (as.forM step).OkIff l True :=
  (forM h).congr (by simp)

theorem of_hasEffect {g : Nat → Nat → Pixel → Pixel} (h : p.HasEffect l (.of g)) :
    p.OkIff l True := by
  intro s hs
  obtain ⟨hout, hrw⟩ := h s hs
  exact ⟨hrw.layout_eq.trans hs, iff_of_true hout trivial⟩

theorem outcome_eq [Decidable P] (h : p.OkIff l P) (hp : p.Unrefused) {s : Surface}
    (hs : s.toLayout = l) : (s.paint p).1 = if P then .ok () else .error .fault := by
  have hok := (h s hs).2
  have hrefused := hp.ne_refused s
  match hout : (s.paint p).1 with
  | .ok () => rw [if_pos (hok.mp hout)]
  | .error .fault => rw [if_neg fun hP => nomatch hout.symm.trans (hok.mpr hP)]
  | .error (.refused cause) => exact absurd hout (hrefused cause)

end OkIff

end Paint

/-! ## Where the coordinates change their sign -/

/-- Between the two coordinates words read with a sign begin anew: the first is read as positive,
the second as negative. -/
def Word.Straddles (a b : Nat) : Prop := a < Offset.bound ∧ Offset.bound ≤ b

instance (a b : Nat) : Decidable (Word.Straddles a b) := inferInstanceAs (Decidable (_ ∧ _))

/-- Along one of the sides, the coordinates change their sign between an edge of the box and the
centres of the corners next to it. -/
def Rect.Straddles (rect : Rect) (radius : Nat) : Prop :=
  (Word.Straddles rect.x (rect.x + radius) ∨
      Word.Straddles (rect.x + rect.w - radius - 1) (rect.x + rect.w)) ∨
    Word.Straddles rect.y (rect.y + radius) ∨
      Word.Straddles (rect.y + rect.h - radius - 1) (rect.y + rect.h)

instance (rect : Rect) (radius : Nat) : Decidable (rect.Straddles radius) :=
  inferInstanceAs (Decidable ((_ ∨ _) ∨ _ ∨ _))

/-- There are corners to paint, and the coordinates change their sign next to an edge, or the ring
is too large for the stepped painter to trace. -/
def Rect.SteppedOverflows (rect : Rect) (border radius : Nat) : Prop :=
  rect.cornerBorder? border radius ≠ none ∧
    (rect.Straddles radius ∨ Arc.Overflows radius (radius - border))

instance (rect : Rect) (border radius : Nat) : Decidable (rect.SteppedOverflows border radius) :=
  inferInstanceAs (Decidable (_ ∧ (_ ∨ _)))

/-- The same for the smooth painter, for which the square of the radius is too large. -/
def Rect.SmoothOverflows (rect : Rect) (border radius : Nat) : Prop :=
  rect.cornerBorder? border radius ≠ none ∧ (rect.Straddles radius ∨ 2 ^ 28 ≤ radius)

instance (rect : Rect) (border radius : Nat) : Decidable (rect.SmoothOverflows border radius) :=
  inferInstanceAs (Decidable (_ ∧ (_ ∨ _)))

namespace Rect

variable {rect : Rect} {radius : Nat}

theorem not_steppedOverflows_of_le (h : ¬ rect.Straddles radius) (hradius : radius ≤ 2 ^ 31)
    (border : Nat) : ¬ rect.SteppedOverflows border radius := by
  rintro ⟨-, hstraddles | hover⟩
  · exact h hstraddles
  · exact Arc.not_overflows_of_le (Nat.sub_le radius border) hradius hover

/-- In a box that ends before the coordinates change their sign, corners of any radius that the
smooth painter can square are painted, by either painter. -/
theorem Rounds.not_overflows (h : rect.Rounds radius) (hradius : radius < 2 ^ 28) (border : Nat) :
    ¬ rect.SteppedOverflows border radius ∧ ¬ rect.SmoothOverflows border radius := by
  obtain ⟨hright, hbottom, hw, hh⟩ := h
  have hbefore : ¬ rect.Straddles radius := by
    unfold Straddles Word.Straddles
    omega
  refine ⟨not_steppedOverflows_of_le hbefore (by omega) border, ?_⟩
  rintro ⟨-, hstraddles | hlarge⟩
  · exact hbefore hstraddles
  · omega

end Rect

namespace Corners

variable {rect : Rect} {radius start side : Nat}

theorem centresFit_iff (hside : start + side < Word.bound) (hpos : 0 < radius)
    (hfits : 2 * radius ≤ side) : CentresFit start side radius ↔
      ¬ (Word.Straddles start (start + radius) ∨
        Word.Straddles (start + side - radius - 1) (start + side)) := by
  have hbound := Offset.natCast_bound
  unfold Word.bound at hside
  unfold CentresFit Offset.Fits Word.signed Word.Straddles Word.bound
  split <;> split <;> omega

/-- The corners have centres unless the coordinates change their sign next to an edge. -/
theorem of?_isSome_iff (haddressable : rect.isAddressable = true) (hpos : 0 < radius)
    (hw : 2 * radius ≤ rect.w) (hh : 2 * radius ≤ rect.h) :
    (of? rect radius).isSome ↔ ¬ rect.Straddles radius := by
  obtain ⟨hright, hbottom⟩ := Rect.isAddressable_iff.mp haddressable
  rw [Rect.Straddles, not_or, ← centresFit_iff hright hpos hw, ← centresFit_iff hbottom hpos hh]
  simp only [Option.isSome_iff_exists, of?_eq_some_iff, haddressable, true_and, exists_and_left,
    exists_eq', and_true]

end Corners

/-! ## The painters -/

namespace Paint

section

variable {l : Layout} {rect : Rect} {c : Corners} {radius : Nat} {p : Pixel} (hl : l.Addressed)

include hl

theorem coverPoint_okIff (covered : Nat) (color : Rgba) (x y : Int) :
    (coverPoint covered color x y).OkIff l True := by
  rw [coverPoint]
  split
  · exact .of_hasEffect (setPixelClamped_hasEffect hl x y color)
  · exact .of_hasEffect (blendClamped_hasEffect hl x y color _)

variable (hc : Corners.of? rect radius = some c)

include hc

theorem putCorners_okIff (hp : p.format = l.format) {dx dy : Nat} (hdx : dx ≤ radius)
    (hdy : dy ≤ radius) : (putCorners c p dx dy).OkIff l True := by
  rw [putCorners_eq hc hdx hdy]
  exact .forM_ok fun point _ => .of_hasEffect (putClamped_hasEffect hl point.1 point.2 hp)

theorem steppedColumns_okIff (hp : p.format = l.format) {outer : Arc} (houter : outer.y ≤ radius)
    (inner : Option Arc) (x n : Nat) :
    (steppedColumns c p outer inner x n).OkIff l (steppedOffsets outer inner x n).isSome := by
  induction n generalizing outer inner x with
  | zero => exact OkIff.pure.congr (iff_of_true trivial rfl)
  | succ n ih =>
      rw [steppedOffsets]
      by_cases hx : (x : Int) ≤ outer.y
      · rw [steppedColumns_succ c p inner n hx, if_pos hx]
        have hcolumn (t : Nat) (ht : (t : Int) ≤ radius) :
            OkIff (do putCorners c p x t; putCorners c p t x) l True :=
          (OkIff.seq (putCorners_okIff hl hc hp (by omega) (by omega))
            (putCorners_okIff hl hc hp (by omega) (by omega))).congr (and_self_iff ..)
        refine (OkIff.seq (.forEach (P := fun _ => True) fun t _ ht => hcolumn t (by omega))
          (.ofOption_bind fun outer' hadvance => .ofOption_bind fun inner' _ =>
            ih ((Arc.y_le_of_advance? hadvance).trans houter) inner' (x + 1))).congr ?_
        simp [Option.isSome_iff_exists, Option.bind_eq_some_iff]
      · rw [steppedColumns_of_lt c p inner (n + 1) (not_le.mp hx), if_neg hx]
        exact OkIff.pure.congr (iff_of_true trivial rfl)

theorem blendCorners_okIff (ring : Ring) (color : Rgba) {dx dy : Nat} (hdx : dx ≤ radius)
    (hdy : dy ≤ radius) :
    (blendCorners c ring color dx dy).OkIff l (ring.coverage? dx dy).isSome := by
  rw [blendCorners_eq_bind hc hdx hdy]
  refine (OkIff.ofOption_bind (P := fun _ => True) fun covered _ => ?_).congr
    (by simp [Option.isSome_iff_exists])
  split
  · exact .pure
  · exact .forM_ok fun point _ => coverPoint_okIff hl covered color point.1 point.2

end

section

variable {l : Layout} {rect : Rect} (hl : l.Addressed) (haddressable : rect.isAddressable = true)
  (border radius : Nat) (v : UInt8)

include hl haddressable

theorem roundedCorner_okIff :
    (roundedCorner rect border radius v).OkIff l (¬ rect.SteppedOverflows border radius) := by
  rw [roundedCorner]
  cases hwidth : rect.cornerBorder? border radius with
  | none => exact OkIff.pure.congr (iff_of_true trivial fun h => h.1 hwidth)
  | some width =>
      obtain ⟨⟨hpos, hw, hh⟩, hborder, rfl⟩ := Rect.cornerBorder?_eq_some_iff.mp hwidth
      have hright := (Rect.isAddressable_iff.mp haddressable).1
      have hword := Offset.add_bound
      have hinner : radius - min border radius = radius - border := by omega
      have hring : (min border radius < radius) = (0 < radius - border) := by
        rw [eq_iff_iff]
        omega
      refine (OkIff.ofOption_bind (P := fun _ => ¬ Arc.Overflows radius (radius - border))
        fun c hc => ?_).congr ?_
      · rw [hinner, Arc.ofRadius?_eq (by omega), Arc.ofRadius?_eq (by omega),
          ofOption_some_bind, ofOption_some_bind]
        refine .get_bind fun s hs => ?_
        subst hs
        refine (steppedColumns_okIff hl hc (Pixel.format_ofRgba ..) le_rfl _ 0
          (radius + 1)).congr ?_
        simp only [hring]
        rw [← steppedOffsets_eq_none_iff hpos (Nat.sub_le radius border), ← ne_eq,
          Option.isSome_iff_ne_none]
      · rw [exists_and_right, ← Option.isSome_iff_exists,
          Corners.of?_isSome_iff haddressable hpos hw hh, Rect.SteppedOverflows, hwidth]
        simp

theorem smoothCorner_okIff :
    (smoothCorner rect border radius v).OkIff l (¬ rect.SmoothOverflows border radius) := by
  rw [smoothCorner]
  cases hwidth : rect.cornerBorder? border radius with
  | none => exact OkIff.pure.congr (iff_of_true trivial fun h => h.1 hwidth)
  | some width =>
      obtain ⟨⟨hpos, hw, hh⟩, hborder, rfl⟩ := Rect.cornerBorder?_eq_some_iff.mp hwidth
      refine (OkIff.ofOption_bind (P := fun _ => radius < 2 ^ 28) fun c hc => ?_).congr ?_
      · refine (OkIff.ofOption_bind fun ring _ => .forEach fun dy _ hdy => .forEach fun dx _ hdx =>
          blendCorners_okIff hl hc ring (.gray v) (by omega) (by omega)).congr ?_
        rw [← Ring.forall_coverage?_iff (Nat.sub_le radius (min border radius))]
        simp only [Nat.zero_le, Nat.zero_add, Nat.lt_succ_iff, true_imp_iff]
      · rw [exists_and_right, ← Option.isSome_iff_exists,
          Corners.of?_isSome_iff haddressable hpos hw hh, Rect.SmoothOverflows, hwidth]
        simp

end

/-- On a surface whose scanlines are not too far apart, each painter fails for the corners that
overflow and succeeds for all others, be they on the surface or not. In any case it leaves
everything as it was but the pixels of the surface within the rectangle. -/
theorem outcome_corner (s : Surface) (rect : Rect) (border radius : Nat) (v : UInt8)
    (hstride : s.stride < Offset.bound) (haddressable : rect.isAddressable = true) :
    (s.paint (roundedCorner rect border radius v)).1 =
        (if rect.SteppedOverflows border radius then .error .fault else .ok ()) ∧
      (s.paint (smoothCorner rect border radius v)).1 =
        (if rect.SmoothOverflows border radius then .error .fault else .ok ()) ∧
      s.AgreeOn (s.bytesOf rect)ᶜ (s.paint (roundedCorner rect border radius v)).2 ∧
      s.AgreeOn (s.bytesOf rect)ᶜ (s.paint (smoothCorner rect border radius v)).2 := by
  have hl : s.Addressed := Surface.addressed_of_stride hstride
  have hstepped := roundedCorner_okIff hl haddressable border radius v
  have hsmooth := smoothCorner_okIff hl haddressable border radius v
  refine ⟨?_, ?_, (roundedCorner_confined rect border radius v).agreeOn_compl rfl,
    (smoothCorner_confined rect border radius v).agreeOn_compl rfl⟩
  · rw [hstepped.outcome_eq (roundedCorner_unrefused rect border radius v) rfl, ite_not]
  · rw [hsmooth.outcome_eq (smoothCorner_unrefused rect border radius v) rfl, ite_not]

/-- Boxes around the change of sign, first with room between the edges and the centres; the
greatest smooth corner and the next; a full disc, and a ring of its radius with a hole that is
traced too far. -/
theorem outcome_corner_dusk :
    (dusk.paint (roundedCorner ⟨2 ^ 63 - 4, 0, 8, 8⟩ 1 2 200)).1 = .ok () ∧
    (dusk.paint (roundedCorner ⟨2 ^ 63 - 2, 0, 8, 8⟩ 1 2 200)).1 = .error .fault ∧
    (dusk.paint (smoothCorner ⟨0, 2 ^ 63 - 6, 8, 8⟩ 1 2 200)).1 = .error .fault ∧
    (dusk.paint (smoothCorner ⟨0, 0, 2 ^ 29, 2 ^ 29⟩ 1 (2 ^ 28 - 1) 200)).1 = .ok () ∧
    (dusk.paint (smoothCorner ⟨0, 0, 2 ^ 29, 2 ^ 29⟩ 1 (2 ^ 28) 200)).1 = .error .fault ∧
    (dusk.paint (roundedCorner ⟨0, 0, 2 ^ 34, 2 ^ 34⟩ (2 ^ 33) (2 ^ 33) 200)).1 = .ok () ∧
    (dusk.paint (roundedCorner ⟨0, 0, 2 ^ 34, 2 ^ 34⟩ (2 ^ 32) (2 ^ 33) 200)).1 =
      .error .fault := by
  have hpaint (rect : Rect) (border radius : Nat) :=
    outcome_corner dusk rect border radius 200 (by decide)
  have houter : (12148002000 : Int) = Arc.diagonal (2 ^ 33) :=
    Arc.eq_diagonal (by decide) (by decide) (by decide) (by decide)
  have hinner : (6074001000 : Int) = Arc.diagonal (2 ^ 33 - 2 ^ 32) :=
    Arc.eq_diagonal (by decide) (by decide) (by decide) (by decide)
  have hlast : Arc.diagonal (2 ^ 33) / 2 + 1 = 6074001001 := by omega
  refine ⟨?_, ?_, ?_, ?_, ?_, ?_, ?_⟩
  · rw [(hpaint _ _ _ (by decide)).1, if_neg]
    exact Rect.not_steppedOverflows_of_le (by decide) (by decide) 1
  · rw [(hpaint _ _ _ (by decide)).1, if_pos (by decide)]
  · rw [(hpaint _ _ _ (by decide)).2.1, if_pos (by decide)]
  · rw [(hpaint _ _ _ (by decide)).2.1, if_neg]
    exact (Rect.Rounds.not_overflows ⟨by decide, by decide, by decide, by decide⟩ (by decide) 1).2
  · rw [(hpaint _ _ _ (by decide)).2.1, if_pos (by decide)]
  · rw [(hpaint _ _ _ (by decide)).1, if_neg]
    rintro ⟨-, hstraddles | hlarge | ⟨hpos, -⟩⟩
    · exact absurd hstraddles (by decide)
    · exact absurd hlarge (by decide)
    · exact absurd hpos (by decide)
  · rw [(hpaint _ _ _ (by decide)).1, if_pos]
    refine ⟨by decide, .inr (.inr ⟨by decide, ?_⟩)⟩
    rw [Arc.decisionBehind, hlast, ← hinner]
    decide

/-- Not every corner of an addressable rectangle can be painted. -/
theorem not_all_corners_answered :
    ¬ ∀ (s : Surface) (rect : Rect) (border radius : Nat) (v : UInt8), 0 < s.nativeWidth →
      0 < s.nativeHeight → s.stride < Offset.bound → rect.isAddressable = true →
      (s.paint (roundedCorner rect border radius v)).1 ≠ .error .fault ∧
        (s.paint (smoothCorner rect border radius v)).1 ≠ .error .fault := by
  intro h
  exact (h dusk ⟨2 ^ 63 - 1, 0, 2, 2⟩ 1 1 255 (by decide) (by decide) (by decide) (by decide)).1 rfl

end Paint

end Raster
