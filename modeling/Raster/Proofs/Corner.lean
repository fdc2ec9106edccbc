import Raster.Proofs.Region
import Raster.Surface.Corner

/-!
# Effects of the corner painters

A corner painter skips the points off the surface, so that its effect does not depend on the size
of the surface. It is enough to know that there is one effect for all surfaces of a format.
-/

namespace Raster

namespace Paint

open Effect

variable {format : PixelFormat}

/-! ## Points that may lie off the surface -/

theorem clamped_hasEffect {l : Layout} {g : Pixel → Pixel} {step : Nat → Nat → Paint Unit}
    (x y : Int) (h : ∀ x y, x < l.width → y < l.height → (step x y).HasEffect l
      (.of fun x' y' p => if x' = x ∧ y' = y then g p else p)) :
    (clamped x y step).HasEffect l
      (.of fun x' y' p => if (x' : Int) = x ∧ (y' : Int) = y then g p else p) := by
  apply HasEffect.get_bind
  intro s hs
  subst hs
  dsimp only
  split
  case isTrue hin =>
    obtain ⟨hx, hy, hwidth, hheight⟩ := hin
    refine (h _ _ hwidth hheight).congr rfl ?_
    intro x' y' p _ _ _
    have hiff : ((x' : Int) = x ∧ (y' : Int) = y) ↔ x' = x.toNat ∧ y' = y.toNat := by omega
    simp only [of_change, hiff]
  case isFalse hout =>
    refine HasEffect.skip.congr rfl ?_
    intro x' y' p hx hy _
    exact if_neg fun h => hout (by omega)

theorem putClamped_hasEffect {l : Layout} (hl : l.Addressed) (x y : Int) {p : Pixel}
    (hp : p.format = l.format) : (putClamped x y p).HasEffect l
      (.of fun x' y' q => if (x' : Int) = x ∧ (y' : Int) = y then p else q) :=
  clamped_hasEffect x y (g := fun _ => p) fun _ _ hx hy => putPixel_hasEffect hl hx hy hp

theorem setPixelClamped_hasEffect {l : Layout} (hl : l.Addressed) (x y : Int) (c : Rgba) :
    (setPixelClamped x y c).HasEffect l
      (.of fun x' y' q => if (x' : Int) = x ∧ (y' : Int) = y then .ofRgba l.format c else q) := by
  apply HasEffect.get_bind
  rintro s rfl
  exact putClamped_hasEffect hl x y (Pixel.format_ofRgba ..)

theorem blendClamped_hasEffect {l : Layout} (hl : l.Addressed) (x y : Int) (c : Rgba)
    (alpha : UInt8) :
    HasEffect (clamped x y fun x y => do putPixel x y ((← pixel x y).blend c alpha)) l
      (.of fun x' y' q => if (x' : Int) = x ∧ (y' : Int) = y then q.blend c alpha else q) :=
  clamped_hasEffect x y (g := fun p => p.blend c alpha) fun _ _ hx hy =>
    update_hasEffect hl hx hy fun _ hp => (Pixel.format_channelwise ..).trans hp

/-! ## One effect for all surfaces -/

/-- The computation has one effect on all surfaces of the format. -/
def Uniform (p : Paint Unit) (format : PixelFormat) : Prop :=
  ∃ e, ∀ l : Layout, l.Usable → l.format = format → p.HasEffect l e

namespace Uniform

variable {α : Type} {format : PixelFormat} {p q : Paint Unit}

theorem skip : Uniform (pure ()) format :=
  ⟨.skip, fun _ _ _ => .skip⟩

theorem seq (hp : p.Uniform format) (hq : q.Uniform format) : Uniform (do p; q) format := by
  obtain ⟨e, he⟩ := hp
  obtain ⟨f, hf⟩ := hq
  exact ⟨e.andThen f, fun l hl hformat => .seq (he l hl hformat) (hf l hl hformat)⟩

theorem ite {c : Prop} [Decidable c] (hp : p.Uniform format) (hq : q.Uniform format) :
    Uniform (if c then p else q) format := by
  split
  · exact hp
  · exact hq

theorem ofOption_bind {o : Option α} {k : α → Paint Unit} (hk : ∀ a, (k a).Uniform format) :
    Uniform (ofOption o >>= k) format := by
  cases o with
  | none => exact ⟨.fail .fault, fun l _ _ => .ofOption_none rfl⟩
  | some a => exact hk a

theorem map_ofOption_bind {β : Type} {o : Option α} {g : α → β} {k : β → Paint Unit}
    (hk : ∀ a, (k (g a)).Uniform format) : Uniform (g <$> ofOption o >>= k) format := by
  cases o with
  | none => exact ⟨.fail .fault, fun l _ _ => .fail .fault⟩
  | some a => exact hk a

theorem get_bind {k : Surface → Paint Unit} (hk : ∀ s : Surface, s.format = format → k s = q)
    (hq : q.Uniform format) : Uniform (get >>= k) format := by
  obtain ⟨e, he⟩ := hq
  refine ⟨e, fun l hl hformat => .get_bind fun s hs => ?_⟩
  rw [hk s (hs ▸ hformat)]
  exact he l hl hformat

theorem forEach {step : Nat → Paint Unit} (h : ∀ i, (step i).Uniform format) (start count : Nat) :
    (Paint.forEach step start count).Uniform format := by
  induction count generalizing start with
  | zero => exact skip
  | succ count ih => exact seq (h start) (ih (start + 1))

theorem forM {step : α → Paint Unit} (h : ∀ a, (step a).Uniform format) (as : List α) :
    (as.forM step).Uniform format := by
  induction as with
  | nil => exact skip
  | cons a as ih => exact seq (h a) ih

/-- It is enough to find one effect on every addressed layout of the format. -/
theorem of_addressed {e : Effect}
    (h : ∀ l : Layout, l.Addressed → l.format = format → p.HasEffect l e) : p.Uniform format :=
  ⟨e, fun l hl hformat => .of_surface fun s hs => by
    subst hs
    exact h s.toLayout (Surface.addressed hl) hformat⟩

end Uniform

theorem putClamped_uniform (x y : Int) {p : Pixel} (hp : p.format = format) :
    (putClamped x y p).Uniform format :=
  .of_addressed fun _ hl hformat => putClamped_hasEffect hl x y (hp.trans hformat.symm)

theorem setPixelClamped_uniform (x y : Int) (c : Rgba) :
    (setPixelClamped x y c).Uniform format :=
  .of_addressed fun _ hl hformat => hformat ▸ setPixelClamped_hasEffect hl x y c

/-! ## Stepped corners -/

theorem putCorners_uniform (corners : Corners) {p : Pixel} (hp : p.format = format) (dx dy : Int) :
    (putCorners corners p dx dy).Uniform format := by
  rw [putCorners]
  exact .forM (fun _ => .ofOption_bind fun (x, y) => putClamped_uniform x y hp) _

theorem steppedColumns_uniform (corners : Corners) {p : Pixel} (hp : p.format = format)
    (outer : Arc) (inner : Option Arc) (x n : Nat) :
    (steppedColumns corners p outer inner x n).Uniform format := by
  induction n generalizing outer inner x with
  | zero => exact .skip
  | succ n ih =>
      refine .ite (.seq (.forEach (fun t => ?_) _ _) (.ofOption_bind fun outer' => ?_)) .skip
      · exact .seq (putCorners_uniform corners hp _ _) (putCorners_uniform corners hp _ _)
      · cases inner with
        | none => exact ih outer' none (x + 1)
        | some arc => exact .map_ofOption_bind fun arc' => ih outer' (some arc') (x + 1)

theorem roundedCorner_uniform (rect : Rect) (border radius : Nat) (v : UInt8) :
    (roundedCorner rect border radius v).Uniform format := by
  rw [roundedCorner]
  cases rect.cornerBorder? border radius with
  | none => exact .skip
  | some width =>
      refine .ofOption_bind fun corners => .ofOption_bind fun outer => .ofOption_bind fun inner => ?_
      refine .get_bind (q := steppedColumns corners (.ofGray format v) outer
        (if width < radius then some inner else none) 0 (radius + 1)) (fun s hs => by rw [hs]) ?_
      exact steppedColumns_uniform corners (Pixel.format_ofRgba ..) outer _ 0 (radius + 1)

/-! ## Smooth corners -/

theorem blendCorners_uniform (corners : Corners) (ring : Ring) (c : Rgba) (dx dy : Int) :
    (blendCorners corners ring c dx dy).Uniform format := by
  refine .ofOption_bind fun covered => .ite .skip (.ofOption_bind fun points => ?_)
  refine .forM (fun (x, y) => .ite (setPixelClamped_uniform x y c) ?_) points
  exact .of_addressed fun l hl _ => blendClamped_hasEffect hl x y c _

theorem smoothCorner_uniform (rect : Rect) (border radius : Nat) (v : UInt8) :
    (smoothCorner rect border radius v).Uniform format := by
  rw [smoothCorner]
  cases rect.cornerBorder? border radius with
  | none => exact .skip
  | some width =>
      refine .ofOption_bind fun corners => .ofOption_bind fun ring => ?_
      exact .forEach (fun dy => .forEach (fun dx => blendCorners_uniform ..) _ _) _ _

end Paint

end Raster
