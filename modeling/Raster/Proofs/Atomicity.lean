import Mathlib.Logic.Function.Basic
import Raster.Proofs.Footprint
import Raster.Proofs.LayoutIndependence
import Raster.Proofs.RegionBytes

/-!
# Calls are all or nothing

Every check of an operator comes before its first write, and after the checks nothing fails any
more. This holds for all arguments and on every surface, also where the distance of the scanlines
is no offset: such a surface has a single scanline, so that its copies are single writes, and pixel
by pixel either every point of it has an address or none has.
-/

namespace Raster

namespace Paint

variable {α : Type} {s : Surface} {p q : Paint Unit}

/-! ## Computations that write nothing -/

/-- Whether it succeeds or not, the computation leaves the surface as it is. -/
def Idle (p : Paint Unit) (s : Surface) : Prop := (s.paint p).2 = s

namespace Idle

theorem pure : Idle (Pure.pure ()) s := rfl

theorem throw (e : Failure) : Idle (MonadExcept.throw e) s := rfl

theorem ofOption_bind {o : Option α} {k : α → Paint Unit} (hk : ∀ a, (k a).Idle s) :
    Idle (Paint.ofOption o >>= k) s := by
  cases o with
  | none => exact throw .fault
  | some a => exact hk a

theorem get_bind {k : Surface → Paint Unit} (hk : (k s).Idle s) : Idle (get >>= k) s :=
  hk

theorem require_bind {P : Prop} [Decidable P] (hq : P → q.Idle s) :
    Idle (do require P; q) s := by
  by_cases h : P
  · rw [Idle, s.paint_require_bind h]
    exact hq h
  · rw [Idle, s.paint_require_bind_of_not h]

theorem requireInside_bind {r : Rect} (hq : s.admits r = true → q.Idle s) :
    Idle (do requireInside r; q) s := by
  rw [requireInside, bind_assoc]
  exact get_bind (require_bind hq)

theorem ite {c : Prop} [Decidable c] (hp : p.Idle s) (hq : q.Idle s) :
    Idle (if c then p else q) s := by
  split
  · exact hp
  · exact hq

theorem forEach {step : Nat → Paint Unit} {start count : Nat}
    (h : ∀ i, start ≤ i → i < start + count → (step i).Idle s) :
    (Paint.forEach step start count).Idle s := by
  induction count generalizing start with
  | zero => exact pure
  | succ count ih =>
      have hfirst := h start (Nat.le_refl _) (by omega)
      have hrest : (Paint.forEach step (start + 1) count).Idle s :=
        ih fun i hlow hhigh => h i (by omega) (by omega)
      rw [Idle, Paint.forEach, Surface.paint_bind]
      rcases hpaint : s.paint (step start) with ⟨out, t⟩
      obtain rfl : t = s := by rwa [Idle, hpaint] at hfirst
      cases out with
      | ok a => exact hrest
      | error e => rfl

end Idle

/-! ## Computations that succeed or write nothing -/

/-- The computation succeeds on the surface or leaves it as it is. -/
def AllOrNothing (p : Paint Unit) (s : Surface) : Prop := (s.paint p).1 = .ok () ∨ (s.paint p).2 = s

namespace AllOrNothing

theorem pure : AllOrNothing (Pure.pure ()) s := Or.inl rfl

theorem throw (e : Failure) : AllOrNothing (MonadExcept.throw e) s := Or.inr rfl

theorem of_idle (h : p.Idle s) : p.AllOrNothing s := Or.inr h

theorem of_changes {r : Rect} {f : Pixel → Pixel}
    (h : ∃ out, s.paint p = (.ok (), out) ∧ s.Changes out r f) : p.AllOrNothing s := by
  obtain ⟨out, hout, -⟩ := h
  exact Or.inl (by rw [hout])

theorem of_effect {e : Effect} (h : p.HasEffect s.toLayout e) (he : e.outcome = .ok ()) :
    p.AllOrNothing s :=
  Or.inl ((h s rfl).1.trans he)

theorem get_bind {k : Surface → Paint Unit} (hk : (k s).AllOrNothing s) :
    AllOrNothing (get >>= k) s :=
  hk

theorem ofOption_bind {o : Option α} {k : α → Paint Unit}
    (hk : ∀ a, o = some a → (k a).AllOrNothing s) : AllOrNothing (Paint.ofOption o >>= k) s := by
  cases o with
  | none => exact throw .fault
  | some a => exact hk a rfl

theorem require_bind {P : Prop} [Decidable P] (hq : P → q.AllOrNothing s) :
    AllOrNothing (do require P; q) s := by
  by_cases h : P
  · rw [AllOrNothing, s.paint_require_bind h]
    exact hq h
  · rw [AllOrNothing, s.paint_require_bind_of_not h]
    exact Or.inr rfl

theorem requireInside_bind {r : Rect} (hq : s.admits r = true → q.AllOrNothing s) :
    AllOrNothing (do requireInside r; q) s := by
  rw [requireInside, bind_assoc]
  exact get_bind (require_bind hq)

theorem ite {c : Prop} [Decidable c] (hp : c → p.AllOrNothing s) (hq : ¬ c → q.AllOrNothing s) :
    AllOrNothing (if c then p else q) s := by
  split
  · exact hp ‹_›
  · exact hq ‹_›

/-- A loop of one round. -/
theorem forEach_one {step : Nat → Paint Unit} {start : Nat} (h : (step start).AllOrNothing s) :
    (forEach step start 1).AllOrNothing s := by
  rw [AllOrNothing, forEach, Surface.paint_bind]
  rcases hpaint : s.paint (step start) with ⟨out, t⟩
  rw [AllOrNothing, hpaint] at h
  cases out with
  | ok a => exact Or.inl rfl
  | error e =>
      rcases h with hok | hsame
      · cases hok
      · exact Or.inr hsame

/-- What is done to a rectangle that turned out to lie within the surface. -/
theorem inside {r : Rect} (hne : r.isEmpty = false) (hq : s.Holds r → q.AllOrNothing s) :
    AllOrNothing (do requireInside r; q) s :=
  requireInside_bind fun h => hq (Layout.holds_of_admits h hne)

end AllOrNothing

open AllOrNothing

/-! ## Single pixels -/

theorem overwrite_allOrNothing (start : Nat) (bytes : List UInt8) :
    (overwrite start bytes).AllOrNothing s :=
  get_bind (require_bind fun _ => Or.inl rfl)

theorem putPixel_allOrNothing (x y : Nat) (p : Pixel) : (putPixel x y p).AllOrNothing s :=
  get_bind (require_bind fun _ => ofOption_bind fun _ _ => overwrite_allOrNothing _ _)

/-! ## Operators on one surface -/

variable {r : Rect} {f g : Pixel → Pixel}

theorem mapInside_allOrNothing (hf : ∀ p, p.format = s.format → (f p).format = s.format) :
    AllOrNothing (unless r.isEmpty do requireInside r; mapRegion r f) s := by
  refine ite (fun _ => pure) fun hne => ?_
  have hne := Bool.eq_false_iff.mpr hne
  exact inside hne fun hr => of_changes (mapRegion_changes hne hr hf)

theorem fillRect_allOrNothing (r : Rect) (v : UInt8) : (fillRect r v).AllOrNothing s := by
  refine ite (fun _ => pure) fun hne => ?_
  have hne := Bool.eq_false_iff.mpr hne
  refine inside hne fun hr => get_bind ?_
  split
  · exact of_changes (fillBytes_changes hne hr v)
  · exact of_changes (fillBytes_changes hne hr v)
  · exact of_changes (mapRegion_changes hne hr fun p hp => (Pixel.format_channelwise ..).trans hp)

theorem replaceRect_allOrNothing (r : Rect) (c : Rgba) : (replaceRect r c).AllOrNothing s :=
  get_bind (ite (fun _ => throw _) fun _ =>
    mapInside_allOrNothing fun _ _ => Pixel.format_ofRgba ..)

theorem mapByAlpha_allOrNothing (alpha : UInt8)
    (hf : ∀ p, p.format = s.format → (f p).format = s.format)
    (hg : ∀ p, p.format = s.format → (g p).format = s.format) :
    AllOrNothing (unless r.isEmpty || alpha == 0 do
        requireInside r
        if alpha = 255 then mapRegion r f else mapRegion r g) s := by
  refine ite (fun _ => pure) fun hne => ?_
  have hne := (Bool.or_eq_false_iff.mp (Bool.eq_false_iff.mpr hne)).1
  refine inside hne fun hr => ite (fun _ => ?_) fun _ => ?_
  · exact of_changes (mapRegion_changes hne hr hf)
  · exact of_changes (mapRegion_changes hne hr hg)

theorem blendRect_allOrNothing (r : Rect) (c : Rgba) : (blendRect r c).AllOrNothing s :=
  mapByAlpha_allOrNothing c.alpha (fun _ hp => (Pixel.format_channelwise ..).trans hp)
    fun _ hp => (Pixel.format_channelwise ..).trans hp

theorem multiplyBlendRect_allOrNothing (r : Rect) (c : Rgba) :
    (multiplyBlendRect r c).AllOrNothing s :=
  mapByAlpha_allOrNothing c.alpha (fun _ hp => (Pixel.format_channelwise ..).trans hp)
    fun _ hp => (Pixel.format_channelwise ..).trans hp

/-- Stripes need the addresses of points: if there are none, none is read, let alone written. -/
theorem hatchRect_allOrNothing (r : Rect) (stripe : Nat) (v alpha : UInt8) :
    (hatchRect r stripe v alpha).AllOrNothing s := by
  refine ite (fun _ => pure) fun hne => ?_
  have hne : r.isEmpty = false := by
    cases h : r.isEmpty <;> simp [h] at hne ⊢
  refine inside hne fun hr => ofOption_bind fun period hperiod => ?_
  obtain ⟨-, rfl⟩ := Word.mul_eq_some_iff.mp hperiod
  obtain ⟨hw, hh⟩ := nativeSides_pos hne hr
  cases ha : s.addressing? with
  | none =>
      refine of_idle (.forEach fun j _ _ => .forEach fun i _ _ => .ofOption_bind fun _ => ?_)
      refine .ite (.ofOption_bind fun x => .ofOption_bind fun y => ?_) .pure
      have hread : s.pixel? x y = none := by
        rw [Surface.pixel?, Layout.offset?, ha]
        exact ite_self none
      rw [Idle, pixel, Surface.paint_bind, Surface.paint_get_bind, hread]
      rfl
  | some a =>
      obtain ⟨hwidth, hheight⟩ := Surface.size_lt hw hh
      have haddressed := Surface.addressed_of_addressing? hw hh ha
      exact of_effect (hatchRows_hasEffect haddressed hwidth hheight hr stripe v alpha) rfl

/-! ## Operators between two surfaces -/

section Transfer

variable {src : Surface} {sx sy : Nat} {f : Pixel → Pixel → Nat → Nat → Option Pixel}

/-- Combining finds both addressings before its first row, and has no pixels in an empty one. -/
theorem combine_allOrNothing (hf : KeepsFormat f s.format src.format) :
    (combine src r sx sy f).AllOrNothing s := by
  cases hempty : r.isEmpty with
  | true =>
      have hsides := Rect.isEmpty_iff.mp hempty
      refine requireInside_bind fun _ => require_bind fun _ => get_bind ?_
      refine ofOption_bind fun _ _ => ofOption_bind fun _ _ => of_idle (.forEach fun j _ hj => ?_)
      refine .ofOption_bind fun _ => .ofOption_bind fun _ => .forEach fun i _ hi => ?_
      omega
  | false =>
      refine inside hempty fun hr => require_bind fun hadmits => get_bind ?_
      have hregion := Layout.holds_of_admits hadmits hempty
      refine ofOption_bind fun target htarget => ofOption_bind fun origin horigin => ?_
      obtain ⟨hw, hh⟩ := nativeSides_pos hempty hr
      obtain ⟨hw', hh'⟩ := nativeSides_pos (r := ⟨sx, sy, r.w, r.h⟩) hempty hregion
      have haddressed := Surface.addressed_of_addressing? hw hh htarget
      have haddressed' := Surface.addressed_of_addressing? hw' hh' horigin
      exact of_effect (combineRows_hasEffect haddressed htarget haddressed' horigin
        (Surface.size_lt hw hh) (Surface.size_lt hw' hh') hf hr hregion) rfl

/-- Copies between surfaces of which one has scanlines too far apart consist of one write, since
the other shows no more than one scanline of it. -/
theorem copyLines_allOrNothing_of_line (hrot : src.rotation = s.rotation) (hne : r.isEmpty = false)
    (hstride : ¬ (s.stride < Offset.bound ∧ src.stride < Offset.bound)) :
    (copyLines src r sx sy).AllOrNothing s := by
  refine require_bind fun hadmits => inside hne fun hr => get_bind ?_
  have hregion := Layout.holds_of_admits hadmits hne
  have hone : (src.nativeRect ⟨sx, sy, r.w, r.h⟩).h = 1 := by
    obtain ⟨hw, hh⟩ := nativeSides_pos hne hr
    obtain ⟨hw', hh'⟩ := nativeSides_pos (r := ⟨sx, sy, r.w, r.h⟩) hne hregion
    by_cases hs : s.stride < Offset.bound
    · have hline := Surface.nativeHeight_eq_one hw' hh' fun h => hstride ⟨hs, h⟩
      exact (nativeRect_of_line (r := ⟨sx, sy, r.w, r.h⟩) hline hne hregion).2
    · have hline := Surface.nativeHeight_eq_one hw hh hs
      rw [(Layout.nativeRect_size hrot sx sy).2]
      exact (nativeRect_of_line hline hne hr).2
  refine ofOption_bind fun source hsource => ofOption_bind fun destination _ => ?_
  cases (Layout.nativeRect?_eq hregion).symm.trans hsource
  refine ofOption_bind fun lineBytes _ => ite (fun _ => ?_) fun _ => ?_
  · exact ofOption_bind fun _ _ => ofOption_bind fun _ _ => ofOption_bind fun _ _ =>
      ofOption_bind fun _ _ => overwrite_allOrNothing _ _
  · rw [hone]
    exact forEach_one (ofOption_bind fun _ _ => ofOption_bind fun _ _ => ofOption_bind fun _ _ =>
      overwrite_allOrNothing _ _)

theorem copyLines_allOrNothing (hformat : src.format = s.format) (hrot : src.rotation = s.rotation)
    (hne : r.isEmpty = false) : (copyLines src r sx sy).AllOrNothing s := by
  by_cases hstride : s.stride < Offset.bound ∧ src.stride < Offset.bound
  case neg => exact copyLines_allOrNothing_of_line hrot hne hstride
  by_cases hin : s.Holds r ∧ src.Holds ⟨sx, sy, r.w, r.h⟩
  case neg =>
    refine require_bind fun hadmits => inside hne fun hr => ?_
    exact absurd ⟨hr, Layout.holds_of_admits hadmits hne⟩ hin
  have hs := Layout.usable_of_holds hstride.1 hne hin.1
  have hsrc := Layout.usable_of_holds (r := ⟨sx, sy, r.w, r.h⟩) hstride.2 hne hin.2
  refine of_effect (copyLines_hasEffect hs hsrc hformat hrot hne) ?_
  rw [Effect.between, if_pos hin.1, if_pos hin.2]
  rfl

theorem blit_allOrNothing (src : Surface) (r : Rect) (sx sy : Nat) :
    (blit src r sx sy).AllOrNothing s := by
  refine ite (fun _ => pure) fun hne => get_bind (ite (fun h => ?_) fun _ => ?_)
  · exact copyLines_allOrNothing h.1 h.2 (Bool.eq_false_iff.mpr hne)
  · exact combine_allOrNothing keepsFormat_convert

theorem ditherBlit_allOrNothing (src : Surface) (r : Rect) (sx sy : Nat) :
    (ditherBlit src r sx sy).AllOrNothing s := by
  refine get_bind (ite (fun _ => ite (fun _ => pure) fun _ => ?_) fun _ => ?_)
  · exact combine_allOrNothing keepsFormat_dithered
  · exact blit_allOrNothing src r sx sy

theorem addBlit_allOrNothing (src : Surface) (r : Rect) (sx sy : Nat) (alpha : UInt8) :
    (addBlit src r sx sy alpha).AllOrNothing s := by
  refine get_bind (ite (fun _ => throw _) fun _ => ite (fun _ => pure) fun _ => ?_)
  refine ite (fun _ => blit_allOrNothing src r sx sy) fun _ => ?_
  exact combine_allOrNothing (keepsFormat_blend alpha)

theorem invertBlit_allOrNothing (src : Surface) (r : Rect) (sx sy : Nat) :
    (invertBlit src r sx sy).AllOrNothing s := by
  refine get_bind (ite (fun _ => throw _) fun hformat => ?_)
  exact combine_allOrNothing (keepsFormat_inverted (Classical.not_not.mp hformat))

theorem compositeBlit_allOrNothing (op : String) (mode : AlphaMode) (dither : Bool) (src : Surface)
    (r : Rect) (sx sy : Nat) : (compositeBlit op mode dither src r sx sy).AllOrNothing s := by
  refine get_bind (ite (fun _ => ite (fun _ => pure) fun _ => ?_) fun _ => throw _)
  exact combine_allOrNothing (keepsFormat_composite mode dither)

theorem maskBlit_allOrNothing (mask : Surface) (r : Rect) (sx sy : Nat) (c : Rgba) :
    (maskBlit mask r sx sy c).AllOrNothing s :=
  ite (fun _ => pure) fun _ => combine_allOrNothing (keepsFormat_mask c)

end Transfer

end Paint

/-! ## Calls -/

namespace Call

variable {σ : Type}

/-- The call paints rounded corners. -/
def isCorner : Call σ → Bool
  | roundedCorner .. | smoothCorner .. => true
  | _ => false

theorem paint_allOrNothing (sources : σ → Surface) (s : Surface) (call : Call σ)
    (hcall : call.isCorner = false) : (call.paint sources).AllOrNothing s := by
  cases call with
  | fill v => exact Paint.AllOrNothing.get_bind (Paint.fillRect_allOrNothing _ v)
  | fillRect r v => exact Paint.fillRect_allOrNothing r v
  | replaceRect r c => exact Paint.replaceRect_allOrNothing r c
  | blendGray r c => exact Paint.blendRect_allOrNothing r c.toRgba
  | blendColor r c => exact Paint.blendRect_allOrNothing r c
  | multiplyRect r c =>
      exact Paint.mapInside_allOrNothing fun _ hp => (Pixel.format_channelwise ..).trans hp
  | multiplyBlendRect r c => exact Paint.multiplyBlendRect_allOrNothing r c
  | invertRect r =>
      exact Paint.mapInside_allOrNothing fun p hp => (Pixel.format_inverted p).trans hp
  | hatchRect r stripe v alpha => exact Paint.hatchRect_allOrNothing r stripe v alpha
  | roundedCorner => cases hcall
  | smoothCorner => cases hcall
  | setPixel x y c => exact Paint.AllOrNothing.get_bind (Paint.putPixel_allOrNothing x y _)
  | setPixelClamped x y c =>
      exact .get_bind (.get_bind (.ite (fun _ => Paint.putPixel_allOrNothing ..) fun _ => .pure))
  | blit src r sx sy => exact Paint.blit_allOrNothing _ r sx sy
  | ditherBlit src r sx sy => exact Paint.ditherBlit_allOrNothing _ r sx sy
  | addBlit src r sx sy alpha => exact Paint.addBlit_allOrNothing _ r sx sy alpha
  | alphaBlit src r sx sy => exact Paint.compositeBlit_allOrNothing _ _ _ _ r sx sy
  | ditherAlphaBlit src r sx sy => exact Paint.compositeBlit_allOrNothing _ _ _ _ r sx sy
  | premultipliedBlit src r sx sy => exact Paint.compositeBlit_allOrNothing _ _ _ _ r sx sy
  | ditherPremultipliedBlit src r sx sy => exact Paint.compositeBlit_allOrNothing _ _ _ _ r sx sy
  | invertBlit src r sx sy => exact Paint.invertBlit_allOrNothing _ r sx sy
  | maskGray src r sx sy c => exact Paint.maskBlit_allOrNothing _ r sx sy c.toRgba
  | maskColor src r sx sy c => exact Paint.maskBlit_allOrNothing _ r sx sy c

/-- Makes the call on one surface of a store that holds its sources too: how the call ends, and the
store afterwards. -/
def run [DecidableEq σ] (store : σ → Surface) (target : σ) (call : Call σ) :
    Except Failure Unit × (σ → Surface) :=
  let after := (store target).paint (call.paint store)
  (after.1, Function.update store target after.2)

/-- A call that paints no corners succeeds or changes nothing, and in any case changes no surface
but its target. -/
theorem run_atomic [DecidableEq σ] (store : σ → Surface) (target : σ) (call : Call σ)
    (hcall : call.isCorner = false) :
    ((call.run store target).1 = .ok () ∨ (call.run store target).2 = store) ∧
      ∀ i ≠ target, (call.run store target).2 i = store i := by
  refine ⟨?_, fun i hi => Function.update_of_ne hi _ store⟩
  refine (call.paint_allOrNothing store (store target) hcall).imp id fun h => ?_
  rw [run, h]
  exact Function.update_eq_self target store

/-- Both regions lie within their surfaces, and still the call fails: on scanlines so far apart no
address is found for a pixel. -/
theorem run_atomic_lonelyLine :
    ((Call.invertBlit true ⟨0, 0, 1, 2⟩ 0 1).run (fun _ : Bool => RegionOperator.lonelyLine)
      false).2 = fun _ : Bool => RegionOperator.lonelyLine := by
  have h := run_atomic (fun _ : Bool => RegionOperator.lonelyLine) false
    (.invertBlit true ⟨0, 0, 1, 2⟩ 0 1) rfl
  exact h.1.resolve_left (by decide)

end Call

end Raster
