import Raster.Rect

/-!
# Quarter turns

A surface is seen through a rotation: its bytes stay, and a logical point is mapped to the
native column and row that it shows. An odd number of quarter turns swaps the sides.
-/

namespace Raster

inductive Rotation where
  | upright
  | clockwise
  | upsideDown
  | counterClockwise
  deriving DecidableEq, Repr, Inhabited

namespace Rotation

/-- The number of clockwise quarter turns. -/
def turns : Rotation → Nat
  | upright => 0
  | clockwise => 1
  | upsideDown => 2
  | counterClockwise => 3

/-- The rotation by `n` quarter turns; four of them are none. -/
def ofTurns (n : Nat) : Rotation :=
  match n % 4 with
  | 0 => upright
  | 1 => clockwise
  | 2 => upsideDown
  | _ => counterClockwise

def ofTurns? (n : Nat) : Option Rotation := if n ≤ 3 then some (ofTurns n) else none

/-- The name used when a surface is described. -/
def label : Rotation → String
  | upright => "Upright"
  | clockwise => "Clockwise"
  | upsideDown => "UpsideDown"
  | counterClockwise => "CounterClockwise"

def swapsAxes (r : Rotation) : Bool := r.turns % 2 == 1

def inverse (r : Rotation) : Rotation := ofTurns (4 - r.turns)

/-- Width and height of the view of a native `w × h` surface. -/
def logicalSize (r : Rotation) (w h : Nat) : Nat × Nat :=
  if r.swapsAxes then (h, w) else (w, h)

/-- The native column and row that the logical point `(x, y)` of a native `w × h` surface
shows; `none` beyond an edge that the rotation measures from. -/
def mapPoint? (r : Rotation) (x y w h : Nat) : Option (Nat × Nat) := do
  match r with
  | upright => return (x, y)
  | clockwise => return (← Word.sub (← Word.sub w y) 1, x)
  | upsideDown => return (← Word.sub (← Word.sub w x) 1, ← Word.sub (← Word.sub h y) 1)
  | counterClockwise => return (y, ← Word.sub (← Word.sub h x) 1)

/-- The native rectangle that a logical one shows. -/
def mapRect? (r : Rotation) (rect : Rect) (w h : Nat) : Option Rect := do
  match r with
  | upright => return rect
  | clockwise => return ⟨← Word.sub (← Word.sub w rect.y) rect.h, rect.x, rect.h, rect.w⟩
  | upsideDown =>
    return ⟨← Word.sub (← Word.sub w rect.x) rect.w, ← Word.sub (← Word.sub h rect.y) rect.h,
      rect.w, rect.h⟩
  | counterClockwise => return ⟨rect.y, ← Word.sub (← Word.sub h rect.x) rect.w, rect.h, rect.w⟩

theorem turns_lt (r : Rotation) : r.turns < 4 := by cases r <;> decide

@[simp]
theorem ofTurns_turns (r : Rotation) : ofTurns r.turns = r := by cases r <;> rfl

end Rotation

/-- Where the pixels of a surface lie: the byte offset of a logical point is affine in both
coordinates, with an origin and two steps that the rotation fixes. -/
structure Addressing where
  origin : Int
  stepX : Int
  stepY : Int
  deriving DecidableEq, Repr

namespace Addressing

/-- The addressing of a native `w × h` surface; `none` when the origin or a step does not fit
a signed word. -/
def of? (r : Rotation) (w h stride bytes : Nat) : Option Addressing := do
  let line := Word.signed stride
  let step := Word.signed bytes
  let lastColumn := max (← Offset.sub (Word.signed w) 1) 0
  let lastRow := max (← Offset.sub (Word.signed h) 1) 0
  match r with
  | .upright => return ⟨0, step, line⟩
  | .clockwise => return ⟨← Offset.mul lastColumn step, line, ← Offset.neg step⟩
  | .upsideDown =>
    let origin ← Offset.add (← Offset.mul lastRow line) (← Offset.mul lastColumn step)
    return ⟨origin, ← Offset.neg step, ← Offset.neg line⟩
  | .counterClockwise => return ⟨← Offset.mul lastRow line, ← Offset.neg line, step⟩

/-- The byte offset of `(x, y)`, read without a sign; `none` when a step of the sum does not
fit a signed word. -/
def offset? (a : Addressing) (x y : Nat) : Option Nat := do
  let across ← Offset.add a.origin (← Offset.mul (Word.signed x) a.stepX)
  return Offset.unsigned (← Offset.add across (← Offset.mul (Word.signed y) a.stepY))

end Addressing

end Raster
