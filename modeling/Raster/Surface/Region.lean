import Raster.Surface.Paint

/-!
# Operators on a rectangle

Each operator changes every pixel of a logical rectangle by one transform. The rectangle has to
lie within the surface, unless the operator has nothing to do. Transforms that do not depend on
the position run along the scanlines of the native rectangle.
-/

namespace Raster

/-- Whether operators may touch all of `r`: it is empty or within the surface. -/
def Layout.admits (l : Layout) (r : Rect) : Bool :=
  r.isEmpty || l.bounds.containsRect? r == some true

namespace Paint

/-- A fault unless the surface admits `r`. -/
def requireInside (r : Rect) : Paint Unit := do require ((← get).admits r)

/-- Changes `n` pixels of a scanline, all of which must exist. -/
def mapLine (f : Pixel → Pixel) (start n : Nat) : Paint Unit := do
  let s ← get
  require (start + n * s.pixelBytes ≤ s.data.size)
  modify (·.mapPixels f start n)

/-- Changes every pixel of `r`, in storage order. -/
def mapRegion (r : Rect) (f : Pixel → Pixel) : Paint Unit := do
  let l := (← get).toLayout
  let native ← ofOption (l.nativeRect? r)
  let bottom ← ofOption native.bottom?
  forEach (fun row => do mapLine f (← ofOption (l.nativeOffset? native.x row)) native.w)
    native.y (bottom - native.y)

/-- Sets every byte of every pixel of `r`: at once if `r` spans whole scanlines without a gap,
else scanline by scanline. -/
def fillBytes (r : Rect) (byte : UInt8) : Paint Unit := do
  let l := (← get).toLayout
  let native ← ofOption (l.nativeRect? r)
  let lineBytes ← ofOption (Word.mul native.w l.pixelBytes)
  let bottom ← ofOption native.bottom?
  if native.x = 0 ∧ lineBytes = l.stride then
    let start ← ofOption (Word.mul native.y l.stride)
    let stop ← ofOption (Word.mul bottom l.stride)
    overwrite start (.replicate (stop - start) byte)
  else
    forEach (fun row => do
        let start ← ofOption (l.nativeOffset? native.x row)
        overwrite start (.replicate lineBytes byte))
      native.y (bottom - native.y)

/-! ### Filling -/

/-- Fills `r` with the gray `v`; stored alpha stays. -/
def fillRect (r : Rect) (v : UInt8) : Paint Unit := do
  unless r.isEmpty do
    requireInside r
    match (← get).format with
    | .gray8 | .rgb24 => fillBytes r v
    | _ => mapRegion r (·.recolor (.gray v))

/-- Fills the surface with the gray `v`; stored alpha stays. -/
def fill (v : UInt8) : Paint Unit := do fillRect (← get).bounds v

/-- Replaces every pixel of `r` by the colour, its alpha included. -/
def replaceRect (r : Rect) (c : Rgba) : Paint Unit := do
  let format := (← get).format
  if format.isGray then
    refuse (.unsupportedFormat "fill_rect_rgb32" format)
  else unless r.isEmpty do
    requireInside r
    mapRegion r fun _ => .ofRgba format c

/-! ### Blending, multiplying, inverting -/

/-- Blends the colour over `r` by its alpha; stored alpha stays. -/
def blendRect (r : Rect) (c : Rgba) : Paint Unit := do
  unless r.isEmpty || c.alpha == 0 do
    requireInside r
    if c.alpha = 255 then mapRegion r (·.recolor c) else mapRegion r (·.blend c c.alpha)

/-- Multiplies every channel in `r` by the colour's. -/
def multiplyRect (r : Rect) (c : Rgb) : Paint Unit := do
  unless r.isEmpty do
    requireInside r
    mapRegion r (·.multiply c.toRgba)

/-- Multiplies `r` by the colour and blends the product in by the colour's alpha. -/
def multiplyBlendRect (r : Rect) (c : Rgba) : Paint Unit := do
  unless r.isEmpty || c.alpha == 0 do
    requireInside r
    if c.alpha = 255 then mapRegion r (·.multiply c)
    else mapRegion r fun p => p.blend (p.multiply c).toRgba c.alpha

def invertRect (r : Rect) : Paint Unit := do
  unless r.isEmpty do
    requireInside r
    mapRegion r Pixel.inverted

/-! ### Hatching -/

/-- Paints diagonal stripes over `r`: the pixel at `(i, j)` from its corner is painted when
`i + j` modulo twice the stripe is less than the stripe. -/
def hatchRect (r : Rect) (stripe : Nat) (v alpha : UInt8) : Paint Unit := do
  unless r.isEmpty || stripe == 0 || alpha == 0 do
    requireInside r
    let period ← ofOption (Word.mul 2 stripe)
    forEach (fun j =>
        forEach (fun i => do
            let diagonal ← ofOption (Word.add i j)
            if diagonal % period < stripe then
              let x ← ofOption (Word.add r.x i)
              let y ← ofOption (Word.add r.y j)
              let p ← pixel x y
              putPixel x y (if alpha = 255 then p.recolor (.gray v) else p.blend (.gray v) alpha))
          0 r.w)
      0 r.h

end Paint

end Raster
