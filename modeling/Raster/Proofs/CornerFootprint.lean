import Raster.Proofs.Arc
import Raster.Proofs.Footprint
import Raster.Proofs.Optional

/-!
# Corner painters confined to their box

The offsets of a corner painter are at most the radius, which fits twice into both sides of the
box. Their reflections stay in the box, unless they are off every surface.
-/

namespace Raster

/-- The rectangle covers the point, if any surface can show it. -/
def Rect.CoversShown (r : Rect) (x y : Int) : Prop := 0 ≤ x → 0 ≤ y → r.Covers x.toNat y.toNat

namespace Paint

variable {l : Layout} {r : Rect}

theorem clamped_confined {x y : Int} {step : Nat → Nat → Paint Unit} (hxy : r.CoversShown x y)
    (h : ∀ x y, r.Covers x y → (step x y).Confined l (l.bytesOf r)) :
    (clamped x y step).Confined l (l.bytesOf r) := by
  refine .get_bind (fun s hs => ?_) fun s t h => by rw [h]
  exact .ite (fun hin => h _ _ (hxy hin.1 hin.2.1)) fun _ => .pure ()

theorem putClamped_confined {x y : Int} {p : Pixel} (hxy : r.CoversShown x y)
    (hp : p.format = l.format) : (putClamped x y p).Confined l (l.bytesOf r) :=
  clamped_confined hxy fun _ _ hc => putPixel_confinedTo hc hp

theorem setPixelClamped_confined {x y : Int} (hxy : r.CoversShown x y) (c : Rgba) :
    (setPixelClamped x y c).Confined l (l.bytesOf r) := by
  refine .get_bind (fun s hs => ?_) fun s t h => by rw [h]
  subst hs
  exact putClamped_confined hxy (Pixel.format_ofRgba ..)

end Paint

namespace Corners

variable {rect : Rect} {c : Corners} {radius : Nat} {dx dy x y : Int}

/-- Along one side of the box, an offset of at most the radius is reflected into the side, or
becomes negative where the side has no signed ends. -/
theorem reflected_within {start side : Nat} {near far d a : Int}
    (hside : start + side < Word.bound) (hpos : 0 < radius) (hfits : 2 * radius ≤ side)
    (hnear : near = Word.signed start + radius)
    (hfar : far = Word.signed (start + side) - radius - 1)
    (hd : 0 ≤ d ∧ d ≤ radius) (ha : a = near - d ∨ a = far + d) (h : 0 ≤ a) :
    start ≤ a.toNat ∧ a.toNat < start + side := by
  unfold Word.bound at hside
  unfold Word.signed Word.bound at hnear hfar
  split at hnear <;> split at hfar <;> omega

/-- The centres of a side, of which the far one is calculated in two steps, are offsets. -/
def CentresFit (start side radius : Nat) : Prop :=
  Offset.Fits (Word.signed start + radius) ∧
    Offset.Fits (Word.signed (start + side) - radius) ∧
      Offset.Fits (Word.signed (start + side) - radius - 1)

theorem of?_eq_some_iff : of? rect radius = some c ↔
    rect.isAddressable = true ∧
      (CentresFit rect.x rect.w radius ∧ CentresFit rect.y rect.h radius) ∧
        ⟨Word.signed rect.x + radius, Word.signed rect.y + radius,
          Word.signed (rect.x + rect.w) - radius - 1,
          Word.signed (rect.y + rect.h) - radius - 1⟩ = c := by
  simp only [of?, Option.bind_eq_bind, Option.bind_eq_some_iff, Option.pure_def, Option.some.injEq,
    Offset.add, Offset.sub, Offset.fit_iff_fits, Rect.right?, Rect.bottom?, Word.add_eq_some_iff,
    Rect.isAddressable_iff, CentresFit, and_assoc, exists_and_left, exists_eq_left']
  constructor
  · rintro ⟨hleft, htop, hxw, hright, hright', hyh, hbottom, hbottom', rfl⟩
    exact ⟨hxw, hyh, hleft, hright, hright', htop, hbottom, hbottom', rfl⟩
  · rintro ⟨hxw, hyh, hleft, hright, hright', htop, hbottom, hbottom', rfl⟩
    exact ⟨hleft, htop, hxw, hright, hright', hyh, hbottom, hbottom', rfl⟩

theorem eq_of_mem_points? (h : some (x, y) ∈ c.points? dx dy) :
    (x = c.left - dx ∨ x = c.right + dx) ∧ (y = c.top - dy ∨ y = c.bottom + dy) := by
  simp only [points?, List.mem_cons, List.not_mem_nil, or_false, eq_comm (a := some (x, y)),
    Option.bind_eq_bind, Option.bind_eq_some_iff, Offset.add, Offset.sub, Offset.fit_eq_some_iff,
    Option.pure_def, Option.some.injEq, Prod.mk.injEq] at h
  rcases h with h | h | h | h <;> obtain ⟨_, ⟨-, rfl⟩, _, ⟨-, rfl⟩, rfl, rfl⟩ := h <;> simp

theorem coversShown_of_mem_points? {border width : Nat} (hc : of? rect radius = some c)
    (hborder : rect.cornerBorder? border radius = some width) (hdx : 0 ≤ dx ∧ dx ≤ radius)
    (hdy : 0 ≤ dy ∧ dy ≤ radius) (h : some (x, y) ∈ c.points? dx dy) : rect.CoversShown x y := by
  obtain ⟨⟨hpos, hw, hh⟩, -⟩ := Rect.cornerBorder?_eq_some_iff.mp hborder
  obtain ⟨haddressable, -, rfl⟩ := of?_eq_some_iff.mp hc
  obtain ⟨hx, hy⟩ := eq_of_mem_points? h
  obtain ⟨hxw, hyh⟩ := Rect.isAddressable_iff.mp haddressable
  intro hx0 hy0
  exact ⟨reflected_within hxw hpos hw rfl rfl hdx hx hx0,
    reflected_within hyh hpos hh rfl rfl hdy hy hy0⟩

end Corners

theorem Arc.y_le_of_advance? {a b : Arc} {x : Int} (h : a.advance? x = some b) : b.y ≤ a.y := by
  simp only [advance?, Option.bind_eq_bind, Option.pure_def] at h
  split at h
  · simp only [Option.bind_eq_some_iff, Option.some.injEq] at h
    obtain ⟨_, -, _, -, _, -, rfl⟩ := h
    exact Int.le_refl _
  · simp only [Option.bind_eq_some_iff, Option.some.injEq, Offset.sub, Offset.fit_eq_some_iff] at h
    obtain ⟨_, -, _, -, _, -, _, ⟨-, rfl⟩, _, -, rfl⟩ := h
    exact Int.sub_le_self _ (by decide)

namespace Paint

section Corner

variable {l : Layout} {rect : Rect} {c : Corners} {border radius width : Nat} {p : Pixel}
  {dx dy : Int} (hc : Corners.of? rect radius = some c)
  (hborder : rect.cornerBorder? border radius = some width)

include hc hborder

theorem putCorners_confined (hp : p.format = l.format) (hdx : 0 ≤ dx ∧ dx ≤ radius)
    (hdy : 0 ≤ dy ∧ dy ≤ radius) : (putCorners c p dx dy).Confined l (l.bytesOf rect) := by
  refine .forM fun point hpoint => .ofOption_bind fun (x, y) hxy => ?_
  exact putClamped_confined
    (Corners.coversShown_of_mem_points? hc hborder hdx hdy (hxy ▸ hpoint)) hp

/-- The columns are traced within the radius, since the outer arc starts there. -/
theorem steppedColumns_confined (hp : p.format = l.format) {outer : Arc} (houter : outer.y ≤ radius)
    (inner : Option Arc) (x n : Nat) :
    (steppedColumns c p outer inner x n).Confined l (l.bytesOf rect) := by
  induction n generalizing outer inner x with
  | zero => exact .pure ()
  | succ n ih =>
      refine .ite (fun hx => ?_) fun _ => .pure ()
      refine .bind (.forEach fun t _ ht => ?_) fun _ => .ofOption_bind fun outer' hadvance => ?_
      · refine .bind (putCorners_confined hc hborder hp ?_ ?_) fun _ =>
          putCorners_confined hc hborder hp ?_ ?_ <;> omega
      · have hnext := ih (Int.le_trans (Arc.y_le_of_advance? hadvance) houter)
        cases inner with
        | none => exact hnext none (x + 1)
        | some arc => exact .bind .map_ofOption fun inner' => hnext inner' (x + 1)

theorem blendCorners_confined (ring : Ring) (color : Rgba) (hdx : 0 ≤ dx ∧ dx ≤ radius)
    (hdy : 0 ≤ dy ∧ dy ≤ radius) :
    (blendCorners c ring color dx dy).Confined l (l.bytesOf rect) := by
  refine .ofOption_bind fun covered _ => .ite (fun _ => .pure ()) fun _ => ?_
  refine .ofOption_bind fun points hpoints => .forM fun (x, y) hxy => ?_
  have hshown := Corners.coversShown_of_mem_points? hc hborder hdx hdy
    (some_mem_of_mapM_id hpoints hxy)
  refine .ite (fun _ => setPixelClamped_confined hshown color) fun _ => ?_
  refine clamped_confined hshown fun x y hin => pixel_bind_confinedTo hin fun p hp => ?_
  exact putPixel_confinedTo hin ((Pixel.format_channelwise ..).trans hp)

end Corner

theorem roundedCorner_confined {l : Layout} (rect : Rect) (border radius : Nat) (v : UInt8) :
    (roundedCorner rect border radius v).Confined l (l.bytesOf rect) := by
  rw [roundedCorner]
  cases hborder : rect.cornerBorder? border radius with
  | none => exact .pure ()
  | some width =>
      refine .ofOption_bind fun c hc => .ofOption_bind fun outer houter => ?_
      refine .ofOption_bind fun _ _ => ?_
      refine .get_bind (fun s hs => ?_) fun s t h => by rw [h]
      subst hs
      obtain ⟨_, -, hstart⟩ := Option.bind_eq_some_iff.mp houter
      cases hstart
      exact steppedColumns_confined hc hborder (Pixel.format_ofRgba ..) (Int.le_refl _) _ _ _

theorem smoothCorner_confined {l : Layout} (rect : Rect) (border radius : Nat) (v : UInt8) :
    (smoothCorner rect border radius v).Confined l (l.bytesOf rect) := by
  rw [smoothCorner]
  cases hborder : rect.cornerBorder? border radius with
  | none => exact .pure ()
  | some width =>
      refine .ofOption_bind fun c hc => .ofOption_bind fun ring _ => ?_
      refine .forEach fun dy _ hdy => .forEach fun dx _ hdx => ?_
      exact blendCorners_confined hc hborder ring _ (by omega) (by omega)

end Paint

end Raster
