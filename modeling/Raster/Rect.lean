import Raster.Word

/-!
# Rectangles

A rectangle covers the columns from `x` up to but not including `x + w`, and rows likewise. A
far edge that does not fit a word has no value: the questions that need it answer `none`, those
that are settled without it do not.
-/

namespace Raster

structure Rect where
  x : Nat
  y : Nat
  w : Nat
  h : Nat
  deriving DecidableEq, Repr, Inhabited

namespace Rect

/-- The empty rectangle at the origin. -/
def empty : Rect := ⟨0, 0, 0, 0⟩

/-- The rectangle of this size at the origin. -/
def sized (w h : Nat) : Rect := ⟨0, 0, w, h⟩

/-- The first column to the right of the rectangle. -/
def right? (r : Rect) : Option Nat := Word.add r.x r.w

/-- The first row below the rectangle. -/
def bottom? (r : Rect) : Option Nat := Word.add r.y r.h

/-- Both far edges fit a word. -/
def isAddressable (r : Rect) : Bool := r.right?.isSome && r.bottom?.isSome

def isEmpty (r : Rect) : Bool := r.w == 0 || r.h == 0

def contains? (r : Rect) (x y : Nat) : Option Bool := do
  if x < r.x then return false
  if (← r.right?) ≤ x then return false
  if y < r.y then return false
  return y < (← r.bottom?)

/-- Whether `inner` lies within `r`. -/
def containsRect? (r inner : Rect) : Option Bool := do
  if inner.x < r.x || inner.y < r.y then return false
  if (← r.right?) < (← inner.right?) then return false
  return (← inner.bottom?) ≤ (← r.bottom?)

/-- The part that both rectangles cover, `some none` if they share no point. -/
def intersect? (r s : Rect) : Option (Option Rect) := do
  let left := max r.x s.x
  let top := max r.y s.y
  let right := min (← r.right?) (← s.right?)
  let bottom := min (← r.bottom?) (← s.bottom?)
  if left < right ∧ top < bottom then
    return some ⟨left, top, right - left, bottom - top⟩
  else
    return none

/-- The text of a rectangle in messages. -/
def describe (r : Rect) : String :=
  s!"Rect \x7b x: {r.x}, y: {r.y}, w: {r.w}, h: {r.h} \x7d"

end Rect

end Raster
