import Raster.Proofs.Effect
import Raster.Scene.Render

/-!
# What is refused

Faults aside, an operator is either never refused, or refused for the formats of its surfaces
before it has changed anything.
-/

namespace Raster

/-- How a call ends that does not fault. -/
def Refusal.verdict : Option Refusal → Except Failure Unit
  | some cause => .error (.refused cause)
  | none => .ok ()

namespace Paint

variable {α β : Type}

/-! ## Computations that are never refused -/

/-- However the computation ends, it is not by a refusal. -/
structure Unrefused (p : Paint α) : Prop where
  ne_refused : ∀ (s : Surface) (cause : Refusal), (s.paint p).1 ≠ .error (.refused cause)

namespace Unrefused

theorem pure (a : α) : Unrefused (Pure.pure a) := ⟨fun _ _ => nofun⟩

theorem fault : Unrefused (throw .fault : Paint α) := ⟨fun _ _ => nofun⟩

theorem bind {p : Paint α} {k : α → Paint β} (hp : p.Unrefused) (hk : ∀ a, (k a).Unrefused) :
    (p >>= k).Unrefused := by
  refine ⟨fun s cause => ?_⟩
  have hs := hp.ne_refused s cause
  rw [Surface.paint_bind]
  cases hpaint : s.paint p with
  | mk out t =>
      cases out with
      | ok a => exact (hk a).ne_refused t cause
      | error e =>
          rw [hpaint] at hs
          intro h
          cases h
          exact hs rfl

theorem get_bind {k : Surface → Paint α} (hk : ∀ s, (k s).Unrefused) : (get >>= k).Unrefused :=
  ⟨fun s => (hk s).ne_refused s⟩

theorem modify (f : Surface → Surface) : Unrefused (modify f : Paint Unit) := ⟨fun _ _ => nofun⟩

theorem ofOption (o : Option α) : (ofOption o).Unrefused := by
  cases o with
  | none => exact fault
  | some a => exact pure a

theorem map_ofOption {g : β → α} (o : Option β) : (g <$> Paint.ofOption o).Unrefused := by
  cases o with
  | none => exact fault
  | some b => exact pure (g b)

theorem require (P : Prop) [Decidable P] : (require P).Unrefused := by
  rw [Paint.require]
  split
  · exact pure ()
  · exact fault

theorem ite {c : Prop} [Decidable c] {p q : Paint α} (hp : p.Unrefused) (hq : q.Unrefused) :
    Unrefused (if c then p else q) := by
  split
  · exact hp
  · exact hq

theorem forEach {step : Nat → Paint Unit} (h : ∀ i, (step i).Unrefused) (start count : Nat) :
    (forEach step start count).Unrefused := by
  induction count generalizing start with
  | zero => exact pure ()
  | succ count ih => exact bind (h start) fun _ => ih (start + 1)

theorem forM {step : α → Paint Unit} (h : ∀ a, (step a).Unrefused) (as : List α) :
    (as.forM step).Unrefused := by
  induction as with
  | nil => exact pure ()
  | cons a as ih => exact bind (h a) fun _ => ih

end Unrefused

/-! ### Single pixels -/

theorem overwrite_unrefused (start : Nat) (bytes : List UInt8) :
    (overwrite start bytes).Unrefused :=
  .get_bind fun _ => .bind (.require _) fun _ => .modify _

theorem pixel_unrefused (x y : Nat) : (pixel x y).Unrefused :=
  .get_bind fun _ => .ofOption _

theorem putPixel_unrefused (x y : Nat) (p : Pixel) : (putPixel x y p).Unrefused :=
  .get_bind fun _ => .bind (.require _) fun _ => .bind (.ofOption _) fun _ =>
    overwrite_unrefused ..

theorem setPixel_unrefused (x y : Nat) (c : Rgba) : (setPixel x y c).Unrefused :=
  .get_bind fun _ => putPixel_unrefused ..

theorem clamped_unrefused {step : Nat → Nat → Paint Unit} (h : ∀ x y, (step x y).Unrefused)
    (x y : Int) : (clamped x y step).Unrefused :=
  .get_bind fun _ => .ite (h _ _) (.pure ())

theorem putClamped_unrefused (x y : Int) (p : Pixel) : (putClamped x y p).Unrefused :=
  clamped_unrefused (fun x y => putPixel_unrefused x y p) x y

/-! ### Rectangles -/

variable (r : Rect)

theorem requireInside_unrefused : (requireInside r).Unrefused :=
  .get_bind fun _ => .require _

theorem mapRegion_unrefused (f : Pixel → Pixel) : (mapRegion r f).Unrefused :=
  .get_bind fun _ => .bind (.ofOption _) fun _ => .bind (.ofOption _) fun _ =>
    .forEach (fun _ => .bind (.ofOption _) fun _ => .get_bind fun _ =>
      .bind (.require _) fun _ => .modify _) _ _

theorem fillBytes_unrefused (byte : UInt8) : (fillBytes r byte).Unrefused := by
  refine .get_bind fun _ => .bind (.ofOption _) fun _ => .bind (.ofOption _) fun _ =>
    .bind (.ofOption _) fun _ => .ite ?_ ?_
  · exact .bind (.ofOption _) fun _ => .bind (.ofOption _) fun _ => overwrite_unrefused ..
  · exact .forEach (fun _ => .bind (.ofOption _) fun _ => overwrite_unrefused ..) _ _

theorem fillRect_unrefused (v : UInt8) : (fillRect r v).Unrefused := by
  refine .ite (.pure ()) (.bind (requireInside_unrefused r) fun _ => .get_bind fun s => ?_)
  split
  · exact fillBytes_unrefused r v
  · exact fillBytes_unrefused r v
  · exact mapRegion_unrefused r _

theorem fill_unrefused (v : UInt8) : (fill v).Unrefused :=
  .get_bind fun _ => fillRect_unrefused _ v

theorem mapInside_unrefused (f : Pixel → Pixel) :
    Unrefused (unless r.isEmpty do requireInside r; mapRegion r f) :=
  .ite (.pure ()) (.bind (requireInside_unrefused r) fun _ => mapRegion_unrefused r f)

theorem blendRect_unrefused (c : Rgba) : (blendRect r c).Unrefused :=
  .ite (.pure ()) (.bind (requireInside_unrefused r) fun _ =>
    .ite (mapRegion_unrefused r _) (mapRegion_unrefused r _))

theorem multiplyBlendRect_unrefused (c : Rgba) : (multiplyBlendRect r c).Unrefused :=
  .ite (.pure ()) (.bind (requireInside_unrefused r) fun _ =>
    .ite (mapRegion_unrefused r _) (mapRegion_unrefused r _))

theorem invertRect_unrefused : (invertRect r).Unrefused := mapInside_unrefused r _

theorem hatchRect_unrefused (stripe : Nat) (v alpha : UInt8) :
    (hatchRect r stripe v alpha).Unrefused := by
  refine .ite (.pure ()) (.bind (requireInside_unrefused r) fun _ => ?_)
  refine .bind (.ofOption _) fun _ => ?_
  refine .forEach (fun j => .forEach (fun i => .bind (.ofOption _) fun _ => .ite ?_ (.pure ())) _ _)
    _ _
  refine .bind (.ofOption _) fun _ => .bind (.ofOption _) fun _ => ?_
  exact .bind (pixel_unrefused _ _) fun _ => putPixel_unrefused ..

/-! ### Corners -/

theorem putCorners_unrefused (c : Corners) (p : Pixel) (dx dy : Int) :
    (putCorners c p dx dy).Unrefused :=
  .forM (fun _ => .bind (.ofOption _) fun (x, y) => putClamped_unrefused x y p) _

theorem steppedColumns_unrefused (c : Corners) (p : Pixel) (outer : Arc) (inner : Option Arc)
    (x n : Nat) : (steppedColumns c p outer inner x n).Unrefused := by
  induction n generalizing outer inner x with
  | zero => exact .pure ()
  | succ n ih =>
      refine .ite (.bind (.forEach (fun t => ?_) _ _) fun _ => .bind (.ofOption _) fun outer' => ?_)
        (.pure ())
      · exact .bind (putCorners_unrefused ..) fun _ => putCorners_unrefused ..
      · cases inner with
        | none => exact ih outer' none (x + 1)
        | some arc => exact .bind (.map_ofOption _) fun inner' => ih outer' inner' (x + 1)

theorem roundedCorner_unrefused (border radius : Nat) (v : UInt8) :
    (roundedCorner r border radius v).Unrefused := by
  rw [roundedCorner]
  cases r.cornerBorder? border radius with
  | none => exact .pure ()
  | some width =>
      exact .bind (.ofOption _) fun _ => .bind (.ofOption _) fun _ => .bind (.ofOption _) fun _ =>
        .get_bind fun _ => steppedColumns_unrefused ..

theorem blendCorners_unrefused (c : Corners) (ring : Ring) (color : Rgba) (dx dy : Int) :
    (blendCorners c ring color dx dy).Unrefused := by
  refine .bind (.ofOption _) fun _ => .ite (.pure ()) (.bind (.ofOption _) fun points => ?_)
  refine .forM (fun (x, y) => .ite ?_ ?_) points
  · exact .get_bind fun _ => putClamped_unrefused ..
  · exact clamped_unrefused (fun x y => .bind (pixel_unrefused x y) fun _ =>
      putPixel_unrefused ..) x y

theorem smoothCorner_unrefused (border radius : Nat) (v : UInt8) :
    (smoothCorner r border radius v).Unrefused := by
  rw [smoothCorner]
  cases r.cornerBorder? border radius with
  | none => exact .pure ()
  | some width =>
      exact .bind (.ofOption _) fun _ => .bind (.ofOption _) fun _ =>
        .forEach (fun _ => .forEach (fun _ => blendCorners_unrefused ..) _ _) _ _

/-! ### Two surfaces -/

variable (src : Surface) (sx sy : Nat)

theorem combine_unrefused (f : Pixel → Pixel → Nat → Nat → Option Pixel) :
    (combine src r sx sy f).Unrefused := by
  refine .bind (requireInside_unrefused r) fun _ => .bind (.require _) fun _ => .get_bind fun _ =>
    .bind (.ofOption _) fun target => .bind (.ofOption _) fun origin => ?_
  refine .forEach (fun j => .bind (.ofOption _) fun y => .bind (.ofOption _) fun v => ?_) _ _
  refine .forEach (fun i => .bind (.ofOption _) fun u => .bind (.ofOption _) fun x => ?_) _ _
  refine .bind (.ofOption _) fun start => .bind (.ofOption _) fun _ => ?_
  refine .bind (.get_bind fun _ => .ofOption _) fun old => .bind (.ofOption _) fun new => ?_
  split
  · exact overwrite_unrefused ..
  · exact .pure ()

theorem copyLines_unrefused : (copyLines src r sx sy).Unrefused := by
  refine .bind (.require _) fun _ => .bind (requireInside_unrefused r) fun _ => ?_
  refine .get_bind fun _ => ?_
  refine .bind (.ofOption _) fun _ => .bind (.ofOption _) fun _ => .bind (.ofOption _) fun _ => ?_
  refine .ite ?_ (.forEach (fun _ => ?_) _ _)
  · exact .bind (.ofOption _) fun _ => .bind (.ofOption _) fun _ => .bind (.ofOption _) fun _ =>
      .bind (.ofOption _) fun _ => overwrite_unrefused ..
  · exact .bind (.ofOption _) fun _ => .bind (.ofOption _) fun _ => .bind (.ofOption _) fun _ =>
      overwrite_unrefused ..

theorem blit_unrefused : (blit src r sx sy).Unrefused :=
  .ite (.pure ()) (.get_bind fun _ => .ite (copyLines_unrefused ..) (combine_unrefused ..))

theorem ditherBlit_unrefused : (ditherBlit src r sx sy).Unrefused :=
  .get_bind fun _ => .ite (.ite (.pure ()) (combine_unrefused ..)) (blit_unrefused ..)

theorem maskBlit_unrefused (c : Rgba) : (maskBlit src r sx sy c).Unrefused :=
  .ite (.pure ()) (combine_unrefused ..)

/-! ## Computations that are refused at once or not at all -/

/-- On a surface of this layout the computation faults, or ends by this refusal without having
changed anything, or, if there is none, succeeds. -/
structure Settles (p : Paint Unit) (l : Layout) (refusal : Option Refusal) : Prop where
  of_refused : ∀ (s : Surface) (cause : Refusal), s.toLayout = l →
    (s.paint p).1 = .error (.refused cause) → refusal = some cause ∧ (s.paint p).2 = s
  of_ok : ∀ s : Surface, s.toLayout = l → (s.paint p).1 = .ok () → refusal = none

namespace Settles

variable {l : Layout} {o o' : Option Refusal} {p q : Paint Unit}

theorem of_unrefused (hp : p.Unrefused) : p.Settles l none :=
  ⟨fun s cause _ h => absurd h (hp.ne_refused s cause), fun _ _ _ => rfl⟩

theorem refuse (cause : Refusal) : (refuse cause).Settles l (some cause) := by
  refine ⟨fun s cause' _ h => ?_, fun s _ h => nomatch h⟩
  cases h
  exact ⟨rfl, rfl⟩

theorem fault : Settles (throw .fault) l o := ⟨fun _ _ _ => nofun, fun _ _ => nofun⟩

theorem get_bind {k : Surface → Paint Unit}
    (hk : ∀ s : Surface, s.toLayout = l → (k s).Settles l o) : Settles (get >>= k) l o :=
  ⟨fun s cause hs => (hk s hs).of_refused s cause hs, fun s hs => (hk s hs).of_ok s hs⟩

theorem ofOption_bind {value : Option α} {k : α → Paint Unit}
    (hk : ∀ a, value = some a → (k a).Settles l o) : Settles (Paint.ofOption value >>= k) l o := by
  cases value with
  | none => exact fault
  | some a => exact hk a rfl

theorem ofExcept_bind {result : Except Failure α} {k : α → Paint Unit}
    (herror : ∀ e, result = .error e → e = .fault)
    (hk : ∀ a, result = .ok a → (k a).Settles l o) :
    Settles (do k (← MonadExcept.ofExcept result)) l o := by
  cases result with
  | error e =>
      cases herror e rfl
      exact fault
  | ok a => exact hk a rfl

theorem ite {c : Prop} [Decidable c] (hp : c → p.Settles l o) (hq : ¬ c → q.Settles l o') :
    Settles (if c then p else q) l (if c then o else o') := by
  split
  · exact hp ‹_›
  · exact hq ‹_›

/-- Whatever is not a fault is the verdict. -/
theorem outcome_eq (hp : p.Settles l o) {s : Surface} (hs : s.toLayout = l)
    (hfault : (s.paint p).1 ≠ .error .fault) : (s.paint p).1 = Refusal.verdict o := by
  match hout : (s.paint p).1 with
  | .ok () =>
      rw [hp.of_ok s hs hout]
      rfl
  | .error .fault => exact absurd hout hfault
  | .error (.refused cause) =>
      rw [(hp.of_refused s cause hs hout).1]
      rfl

end Settles

variable {l : Layout}

theorem replaceRect_settles (c : Rgba) :
    (replaceRect r c).Settles l (if l.format.isGray then
      some (.unsupportedFormat "fill_rect_rgb32" l.format) else none) := by
  refine .get_bind fun s hs => ?_
  subst hs
  exact .ite (fun _ => .refuse _) fun _ => .of_unrefused (mapInside_unrefused r _)

theorem addBlit_settles (alpha : UInt8) :
    (addBlit src r sx sy alpha).Settles l (if l.format ≠ src.format then
      some (.incompatibleFormats "add_blit_from" l.format src.format) else none) := by
  refine .get_bind fun s hs => ?_
  subst hs
  refine .ite (fun _ => .refuse _) fun _ => .of_unrefused (.ite (.pure ()) ?_)
  exact .ite (blit_unrefused r src sx sy) (combine_unrefused ..)

theorem invertBlit_settles :
    (invertBlit src r sx sy).Settles l (if l.format ≠ src.format then
      some (.incompatibleFormats "invert_blit_from" l.format src.format) else none) := by
  refine .get_bind fun s hs => ?_
  subst hs
  exact .ite (fun _ => .refuse _) fun _ => .of_unrefused (combine_unrefused ..)

theorem compositeBlit_settles (op : String) (mode : AlphaMode) (dither : Bool) :
    (compositeBlit op mode dither src r sx sy).Settles l (if l.format.compositesFrom src.format then
      none else some (.incompatibleFormats op l.format src.format)) := by
  refine .get_bind fun s hs => ?_
  subst hs
  exact .ite (fun _ => .of_unrefused (.ite (.pure ()) (combine_unrefused ..))) fun _ => .refuse _

end Paint

namespace BlitMode

/-- Why a mode refuses these formats, if it does. -/
def refusal? (mode : BlitMode) (format source : PixelFormat) : Option Refusal :=
  match mode with
  | add =>
    if format ≠ source then some (.incompatibleFormats "add_blit_from" format source) else none
  | invert =>
    if format ≠ source then some (.incompatibleFormats "invert_blit_from" format source) else none
  | .alpha => uncomposable "alpha_blit_from"
  | ditherAlpha => uncomposable "dither_alpha_blit_from"
  | premultiplied => uncomposable "pmulalpha_blit_from"
  | ditherPremultiplied => uncomposable "dither_pmulalpha_blit_from"
  | copy | dither | gray | .color => none
where
  uncomposable (op : String) : Option Refusal :=
    if format.compositesFrom source then none
    else some (.incompatibleFormats op format source)

theorem transfer_settles {l : Layout} (mode : BlitMode) (src : Surface) (r : Rect) (sx sy : Nat)
    (alpha : UInt8) (color : Rgba) :
    (mode.transfer src r sx sy alpha color).Settles l (mode.refusal? l.format src.format) := by
  cases mode with
  | copy => exact .of_unrefused (Paint.blit_unrefused r src sx sy)
  | dither => exact .of_unrefused (Paint.ditherBlit_unrefused r src sx sy)
  | add => exact Paint.addBlit_settles r src sx sy alpha
  | invert => exact Paint.invertBlit_settles r src sx sy
  | gray => exact .of_unrefused (Paint.maskBlit_unrefused r src sx sy _)
  | color => exact .of_unrefused (Paint.maskBlit_unrefused r src sx sy color)
  | _ => exact Paint.compositeBlit_settles r src sx sy _ _ _

end BlitMode

end Raster
