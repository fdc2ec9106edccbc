import Mathlib.Data.List.Forall2
import Raster.Proofs.Agreement

/-!
# Layout independence over whole runs

A run is a sequence of operator calls on one surface, with sources that may change from call to
call. Runs on surfaces that agree, from sources that agree, go alike.
-/

namespace Raster

/-- A call of an operator. The sources are named by the type `σ`. -/
inductive Call (σ : Type) where
  | fill (v : UInt8)
  | fillRect (r : Rect) (v : UInt8)
  | replaceRect (r : Rect) (c : Rgba)
  | blendGray (r : Rect) (c : GrayAlpha)
  | blendColor (r : Rect) (c : Rgba)
  | multiplyRect (r : Rect) (c : Rgb)
  | multiplyBlendRect (r : Rect) (c : Rgba)
  | invertRect (r : Rect)
  | hatchRect (r : Rect) (stripe : Nat) (v alpha : UInt8)
  | roundedCorner (r : Rect) (border radius : Nat) (v : UInt8)
  | smoothCorner (r : Rect) (border radius : Nat) (v : UInt8)
  | setPixel (x y : Nat) (c : Rgba)
  | setPixelClamped (x y : Int) (c : Rgba)
  | blit (src : σ) (r : Rect) (sx sy : Nat)
  | ditherBlit (src : σ) (r : Rect) (sx sy : Nat)
  | addBlit (src : σ) (r : Rect) (sx sy : Nat) (alpha : UInt8)
  | alphaBlit (src : σ) (r : Rect) (sx sy : Nat)
  | ditherAlphaBlit (src : σ) (r : Rect) (sx sy : Nat)
  | premultipliedBlit (src : σ) (r : Rect) (sx sy : Nat)
  | ditherPremultipliedBlit (src : σ) (r : Rect) (sx sy : Nat)
  | invertBlit (src : σ) (r : Rect) (sx sy : Nat)
  | maskGray (src : σ) (r : Rect) (sx sy : Nat) (c : GrayAlpha)
  | maskColor (src : σ) (r : Rect) (sx sy : Nat) (c : Rgba)

namespace Call

variable {σ : Type}

def paint (sources : σ → Surface) : Call σ → Paint Unit
  | fill v => Paint.fill v
  | fillRect r v => Paint.fillRect r v
  | replaceRect r c => Paint.replaceRect r c
  | blendGray r c => Paint.blendRect r c.toRgba
  | blendColor r c => Paint.blendRect r c
  | multiplyRect r c => Paint.multiplyRect r c
  | multiplyBlendRect r c => Paint.multiplyBlendRect r c
  | invertRect r => Paint.invertRect r
  | hatchRect r stripe v alpha => Paint.hatchRect r stripe v alpha
  | roundedCorner r border radius v => Paint.roundedCorner r border radius v
  | smoothCorner r border radius v => Paint.smoothCorner r border radius v
  | setPixel x y c => Paint.setPixel x y c
  | setPixelClamped x y c => Paint.setPixelClamped x y c
  | blit src r sx sy => Paint.blit (sources src) r sx sy
  | ditherBlit src r sx sy => Paint.ditherBlit (sources src) r sx sy
  | addBlit src r sx sy alpha => Paint.addBlit (sources src) r sx sy alpha
  | alphaBlit src r sx sy => Paint.alphaBlit (sources src) r sx sy
  | ditherAlphaBlit src r sx sy => Paint.ditherAlphaBlit (sources src) r sx sy
  | premultipliedBlit src r sx sy => Paint.premultipliedBlit (sources src) r sx sy
  | ditherPremultipliedBlit src r sx sy => Paint.ditherPremultipliedBlit (sources src) r sx sy
  | invertBlit src r sx sy => Paint.invertBlit (sources src) r sx sy
  | maskGray src r sx sy c => Paint.maskBlit (sources src) r sx sy c.toRgba
  | maskColor src r sx sy c => Paint.maskBlit (sources src) r sx sy c

theorem paint_same {l k : Layout} (h : l.Alike k) {sources sources' : σ → Surface}
    (hsources : ∀ i, (sources i).Agrees (sources' i)) (call : Call σ) :
    (call.paint sources).SameEffect (call.paint sources') l k := by
  cases call with
  | fill v => exact Paint.fill_same h v
  | fillRect r v => exact Paint.fillRect_same h r v
  | replaceRect r c => exact Paint.replaceRect_same h r c
  | blendGray r c => exact Paint.blendRect_same h r c.toRgba
  | blendColor r c => exact Paint.blendRect_same h r c
  | multiplyRect r c => exact Paint.multiplyRect_same h r c
  | multiplyBlendRect r c => exact Paint.multiplyBlendRect_same h r c
  | invertRect r => exact Paint.invertRect_same h r
  | hatchRect r stripe v alpha => exact Paint.hatchRect_same h r stripe v alpha
  | roundedCorner r border radius v => exact (Paint.roundedCorner_uniform r border radius v).same h
  | smoothCorner r border radius v => exact (Paint.smoothCorner_uniform r border radius v).same h
  | setPixel x y c => exact Paint.setPixel_same h x y c
  | setPixelClamped x y c => exact (Paint.setPixelClamped_uniform x y c).same h
  | blit src r sx sy => exact Paint.blit_same h (hsources src) r sx sy
  | ditherBlit src r sx sy => exact Paint.ditherBlit_same h (hsources src) r sx sy
  | addBlit src r sx sy alpha => exact Paint.addBlit_same h (hsources src) r sx sy alpha
  | alphaBlit src r sx sy =>
      exact Paint.compositeBlit_same h (hsources src) r sx sy _ _ _
  | ditherAlphaBlit src r sx sy =>
      exact Paint.compositeBlit_same h (hsources src) r sx sy _ _ _
  | premultipliedBlit src r sx sy =>
      exact Paint.compositeBlit_same h (hsources src) r sx sy _ _ _
  | ditherPremultipliedBlit src r sx sy =>
      exact Paint.compositeBlit_same h (hsources src) r sx sy _ _ _
  | invertBlit src r sx sy => exact Paint.invertBlit_same h (hsources src) r sx sy
  | maskGray src r sx sy c => exact Paint.maskBlit_same h (hsources src) r sx sy c.toRgba
  | maskColor src r sx sy c => exact Paint.maskBlit_same h (hsources src) r sx sy c

end Call

namespace Surface

variable {σ : Type}

/-- The outcome of every call of a run and the surface after it. A refusal leaves the run going
on, a fault ends it. -/
def trace (sources : σ → Surface) (s : Surface) :
    List (Call σ) → List (Except Failure Unit × Surface)
  | [] => []
  | call :: calls =>
    let after := s.paint (call.paint sources)
    after :: if after.1 = .error .fault then [] else trace sources after.2 calls

/-- Runs from `s` and `t` have got to the same point: the last call ended alike, the surfaces
agree again, and each has still the layout and the margin that it had at first. -/
structure InStep (s t : Surface) (a b : Except Failure Unit × Surface) : Prop where
  outcome_eq : b.1 = a.1
  agrees : a.2.Agrees b.2
  left : s.KeepsMargin a.2
  right : t.KeepsMargin b.2

variable {s t s' t' : Surface} {sources sources' : σ → Surface}

theorem Agrees.call (h : s'.Agrees t') (hs : s.KeepsMargin s') (ht : t.KeepsMargin t')
    (hsources : ∀ i, (sources i).Agrees (sources' i)) (call : Call σ) :
    s.InStep t (s'.paint (call.paint sources)) (t'.paint (call.paint sources')) := by
  obtain ⟨hout, hagrees, hkeeps, hkeeps'⟩ := h.paint (call.paint_same h.toAlike hsources)
  exact ⟨hout, hagrees, hs.trans hkeeps, ht.trans hkeeps'⟩

theorem Agrees.trace_of_keepsMargin (h : s'.Agrees t') (hs : s.KeepsMargin s')
    (ht : t.KeepsMargin t') (hsources : ∀ i, (sources i).Agrees (sources' i))
    (calls : List (Call σ)) :
    List.Forall₂ (s.InStep t) (s'.trace sources calls) (t'.trace sources' calls) := by
  induction calls generalizing s' t' with
  | nil => exact .nil
  | cons call calls ih =>
      have hstep := h.call hs ht hsources call
      apply List.Forall₂.cons hstep
      rw [hstep.outcome_eq]
      split
      · exact .nil
      · exact ih hstep.agrees hstep.left hstep.right

/-- Runs on surfaces that agree, from sources that agree, stay in step call by call. -/
theorem Agrees.trace_inStep (h : s.Agrees t) (hsources : ∀ i, (sources i).Agrees (sources' i))
    (calls : List (Call σ)) :
    List.Forall₂ (s.InStep t) (s.trace sources calls) (t.trace sources' calls) :=
  h.trace_of_keepsMargin (.refl s) (.refl t) hsources calls

/-- Two gray points with alpha, side by side. -/
def uprightPair : Surface where
  nativeWidth := 2
  nativeHeight := 1
  pixelStride := 2
  stride := 4
  format := .gray8a
  rotation := .upright
  data := #[10, 255, 20, 128]
  fits := ⟨by decide, by decide, by decide, by decide⟩

/-- The same two points stored one above the other, with a gap between and bytes behind them. -/
def turnedPair : Surface where
  nativeWidth := 1
  nativeHeight := 2
  pixelStride := 2
  stride := 5
  format := .gray8a
  rotation := .counterClockwise
  data := #[20, 128, 7, 7, 7, 10, 255, 9]
  fits := ⟨by decide, by decide, by decide, by decide⟩

theorem uprightPair_agrees : uprightPair.Agrees turnedPair :=
  agrees_of_points ⟨by constructor <;> decide, by constructor <;> decide, rfl, rfl, rfl⟩ (by decide)

theorem trace_inStep_pair :
    List.Forall₂ (uprightPair.InStep turnedPair)
      (uprightPair.trace (fun _ : Unit => uprightPair)
        [.blit () ⟨1, 0, 1, 1⟩ 0 0, .replaceRect ⟨0, 0, 1, 1⟩ .black, .fill 3, .setPixel 2 0 .black])
      (turnedPair.trace (fun _ : Unit => turnedPair)
        [.blit () ⟨1, 0, 1, 1⟩ 0 0, .replaceRect ⟨0, 0, 1, 1⟩ .black, .fill 3, .setPixel 2 0 .black]) :=
  Agrees.trace_inStep uprightPair_agrees (fun _ => uprightPair_agrees) _

end Surface

end Raster
