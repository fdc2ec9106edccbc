import Raster.Surface.Paint

/-!
# Rounded corners

The four corners of a box are painted with the quarter ring between the radius `r` and the inner
radius `r - border`. An offset from the centre of a corner is reflected into all four corners;
points off the surface are skipped. The stepped ring traces both circles by the midpoint rule
over one octant; the smooth ring samples every pixel on a 4 × 4 grid.
-/

namespace Raster

/-- The border that is painted, at most the radius; `none` if there is nothing to paint or the
radius does not fit twice into both sides. -/
def Rect.cornerBorder? (rect : Rect) (border radius : Nat) : Option Nat :=
  if radius = 0 ∨ rect.w / 2 < radius ∨ rect.h / 2 < radius then none
  else if min border radius = 0 then none
  else some (min border radius)

theorem Rect.cornerBorder?_eq_none_iff {rect : Rect} {border radius : Nat} :
    rect.cornerBorder? border radius = none ↔
      radius = 0 ∨ border = 0 ∨ rect.w < 2 * radius ∨ rect.h < 2 * radius := by
  rw [cornerBorder?]
  split
  case isTrue => exact iff_of_true rfl (by omega)
  case isFalse =>
    split
    case isTrue => exact iff_of_true rfl (by omega)
    case isFalse => exact iff_of_false (Option.some_ne_none _) (by omega)

theorem Rect.cornerBorder?_eq_some_iff {rect : Rect} {border radius width : Nat} :
    rect.cornerBorder? border radius = some width ↔
      (0 < radius ∧ 2 * radius ≤ rect.w ∧ 2 * radius ≤ rect.h) ∧
        0 < border ∧ width = min border radius := by
  rw [cornerBorder?]
  split
  case isTrue => exact iff_of_false nofun (by omega)
  case isFalse =>
    split
    case isTrue => exact iff_of_false nofun (by omega)
    case isFalse =>
      rw [Option.some.injEq]
      omega

/-- The centres of the four corners of a box. -/
structure Corners where
  left : Int
  top : Int
  right : Int
  bottom : Int
  deriving DecidableEq, Repr

namespace Corners

/-- The corner centres of `rect` for this radius. -/
def of? (rect : Rect) (radius : Int) : Option Corners := do
  let left ← Offset.add (Word.signed rect.x) radius
  let top ← Offset.add (Word.signed rect.y) radius
  let right ← Offset.sub (← Offset.sub (Word.signed (← rect.right?)) radius) 1
  let bottom ← Offset.sub (← Offset.sub (Word.signed (← rect.bottom?)) radius) 1
  return ⟨left, top, right, bottom⟩

/-- The four points at the offset `(dx, dy)`, as far as each can be computed. -/
def points? (c : Corners) (dx dy : Int) : List (Option (Int × Int)) :=
  let left := Offset.sub c.left dx
  let right := Offset.add c.right dx
  let top := Offset.sub c.top dy
  let bottom := Offset.add c.bottom dy
  [do return (← left, ← top), do return (← right, ← top),
    do return (← left, ← bottom), do return (← right, ← bottom)]

end Corners

/-- A circle traced by the midpoint rule: the row of the current column, and the decision
variable that tells when to step to the next row. -/
structure Arc where
  y : Int
  d : Int
  deriving DecidableEq, Repr

namespace Arc

def ofRadius? (radius : Int) : Option Arc := do return ⟨radius, ← Offset.sub 1 radius⟩

/-- Moves on from column `x` to the next. -/
def advance? (a : Arc) (x : Int) : Option Arc := do
  if a.d < 0 then
    return ⟨a.y, ← Offset.add a.d (← Offset.add (← Offset.mul 2 x) 3)⟩
  else
    let step ← Offset.add (← Offset.mul 2 (← Offset.sub x a.y)) 5
    return ⟨← Offset.sub a.y 1, ← Offset.add a.d step⟩

end Arc

/-- The ring of radius `outer` around the disc of radius `inner`, sampled four times per axis. -/
structure Ring where
  outerLimit : Int
  /-- `none` when the ring is a full disc. -/
  innerLimit : Option Int
  deriving DecidableEq, Repr

namespace Ring

/-- The square of a radius and a half, in eighths of a pixel. -/
def limit? (radius : Int) : Option Int := do
  let side ← Offset.mul 4 (← Offset.add (← Offset.mul 2 radius) 1)
  Offset.mul side side

def of? (outer inner : Int) : Option Ring := do
  let innerLimit ← limit? inner
  return ⟨← limit? outer, if 0 < inner then some innerLimit else none⟩

/-- Whether the ring covers the sample `(i, j)` of the pixel at the offset `(dx, dy)`. -/
def covers? (ring : Ring) (dx dy : Int) (i j : Nat) : Option Bool := do
  let sx := (← Offset.mul 8 dx) + 2 * i - 3
  let sy := (← Offset.mul 8 dy) + 2 * j - 3
  let distance ← Offset.fit (sx * sx + sy * sy)
  return distance ≤ ring.outerLimit ∧ ∀ limit ∈ ring.innerLimit, limit < distance

/-- How many of the sixteen samples of a pixel the ring covers. -/
def coverage? (ring : Ring) (dx dy : Int) : Option Nat := do
  let samples ← (List.range 16).mapM fun n => ring.covers? dx dy (n % 4) (n / 4)
  return samples.count true

end Ring

namespace Paint

/-- Puts the pixel at the four reflections of an offset. -/
def putCorners (corners : Corners) (p : Pixel) (dx dy : Int) : Paint Unit :=
  (corners.points? dx dy).forM fun point => do
    let (x, y) ← ofOption point
    putClamped x y p

/-- Traces the columns from `x` on, at most `n` of them, until the arcs meet the diagonal. -/
def steppedColumns (corners : Corners) (p : Pixel) (outer : Arc) (inner : Option Arc)
    (x : Nat) : (n : Nat) → Paint Unit
  | 0 => pure ()
  | n + 1 => do
    if (x : Int) ≤ outer.y then
      let low := match inner with
        | some arc => if (x : Int) ≤ arc.y then (arc.y + 1).toNat else x
        | none => x
      forEach (fun t => do
          putCorners corners p x t
          putCorners corners p t x)
        low (outer.y + 1 - low).toNat
      let outer ← ofOption (outer.advance? x)
      let inner ← match inner with
        | some arc => some <$> ofOption (arc.advance? x)
        | none => pure none
      steppedColumns corners p outer inner (x + 1) n

/-- Paints the corners of `rect` with the gray `v`, every pixel fully or not at all. -/
def roundedCorner (rect : Rect) (border radius : Nat) (v : UInt8) : Paint Unit := do
  if let some width := rect.cornerBorder? border radius then
    let corners ← ofOption (Corners.of? rect radius)
    let outer ← ofOption (Arc.ofRadius? radius)
    let inner ← ofOption (Arc.ofRadius? (radius - width : Nat))
    let p := Pixel.ofGray (← get).format v
    steppedColumns corners p outer (if width < radius then some inner else none) 0 (radius + 1)

/-- Blends the colour into the four reflections of an offset by the covered samples. -/
def blendCorners (corners : Corners) (ring : Ring) (c : Rgba) (dx dy : Int) : Paint Unit := do
  let covered ← ofOption (ring.coverage? dx dy)
  unless covered == 0 do
    let points ← ofOption ((corners.points? dx dy).mapM id)
    points.forM fun (x, y) =>
      if covered = 16 then
        setPixelClamped x y c
      else
        clamped x y fun x y => do
          putPixel x y ((← pixel x y).blend c (.ofNat (covered * 255 / 16)))

/-- Paints the corners of `rect` with the gray `v`, the edge pixels by the part covered. -/
def smoothCorner (rect : Rect) (border radius : Nat) (v : UInt8) : Paint Unit := do
  if let some width := rect.cornerBorder? border radius then
    let corners ← ofOption (Corners.of? rect radius)
    let ring ← ofOption (Ring.of? radius (radius - width : Nat))
    forEach (fun dy => forEach (fun dx => blendCorners corners ring (.gray v) dx dy) 0 (radius + 1))
      0 (radius + 1)

end Paint

end Raster
