import Raster.Surface.Region

/-!
# Operators from one surface onto another

Each operator visits a rectangle of the painted surface together with the region of the same
size at `(sx, sy)` of a source surface. Copies between surfaces of one format and rotation move
whole scanlines; all else goes pixel by pixel.
-/

namespace Raster

/-- The formats that the alpha-aware operators support. -/
def PixelFormat.compositesFrom : (destination source : PixelFormat) → Bool
  | .gray8, _ => true
  | .gray8a, s => s != .gray8
  | .rgb565, s => s != .rgb24
  | .rgb24, s => s == .rgb24
  | .rgb32, s => s != .rgb565

/-- How a pixel with partial alpha is combined with what lies below. -/
inductive AlphaMode where
  | straight
  /-- The source colours already carry their alpha. -/
  | premultiplied
  deriving DecidableEq, Repr

namespace Paint

/-- Replaces every pixel of `r` for which `f`, given it, the source pixel and the source
position, has a value. -/
def combine (src : Surface) (r : Rect) (sx sy : Nat)
    (f : Pixel → Pixel → Nat → Nat → Option Pixel) : Paint Unit := do
  requireInside r
  require (src.admits ⟨sx, sy, r.w, r.h⟩)
  let target ← ofOption (← get).addressing?
  let origin ← ofOption src.addressing?
  forEach (fun j => do
      let y ← ofOption (Word.add r.y j)
      let v ← ofOption (Word.add sy j)
      forEach (fun i => do
          let u ← ofOption (Word.add sx i)
          let x ← ofOption (Word.add r.x i)
          let destination ← ofOption (target.offset? x y)
          let source ← ofOption (origin.offset? u v)
          let old ← pixelFrom destination
          let new ← ofOption (Pixel.read? src.format src.data source)
          if let some p := f old new u v then overwrite destination p.toBytes)
        0 r.w)
    0 r.h

/-- Copies between surfaces of one format and rotation: at once if both regions span whole
scanlines without a gap, else scanline by scanline. -/
def copyLines (src : Surface) (r : Rect) (sx sy : Nat) : Paint Unit := do
  let region : Rect := ⟨sx, sy, r.w, r.h⟩
  require (src.admits region)
  requireInside r
  let l := (← get).toLayout
  let source ← ofOption (src.nativeRect? region)
  let destination ← ofOption (l.nativeRect? r)
  let lineBytes ← ofOption (Word.mul source.w src.pixelBytes)
  if src.stride = l.stride ∧ lineBytes = src.stride ∧ source.x = 0 ∧ destination.x = 0 then
    let length ← ofOption (Word.mul source.h src.stride)
    let start ← ofOption (Word.mul source.y src.stride)
    let bytes ← ofOption (src.bytes? start length)
    overwrite (← ofOption (Word.mul destination.y l.stride)) bytes
  else
    forEach (fun row => do
        let start ← ofOption do src.nativeOffset? source.x (← Word.add source.y row)
        let bytes ← ofOption (src.bytes? start lineBytes)
        let offset ← ofOption do l.nativeOffset? destination.x (← Word.add destination.y row)
        overwrite offset bytes)
      0 source.h

/-! ### Copies -/

/-- Copies, converting where the formats differ. -/
def blit (src : Surface) (r : Rect) (sx sy : Nat) : Paint Unit := do
  unless r.isEmpty do
    let l := (← get).toLayout
    if src.format = l.format ∧ src.rotation = l.rotation then
      copyLines src r sx sy
    else
      combine src r sx sy fun _ p _ _ => some (p.convert l.format)

/-- Copies; a gray surface receives the source dithered at source positions. -/
def ditherBlit (src : Surface) (r : Rect) (sx sy : Nat) : Paint Unit := do
  let format := (← get).format
  if format.isGray then
    unless r.isEmpty do
      combine src r sx sy fun _ p u v => some ((p.convert format).dithered u v)
  else
    blit src r sx sy

/-- Blends by one alpha for all pixels; both surfaces must share a format. -/
def addBlit (src : Surface) (r : Rect) (sx sy : Nat) (alpha : UInt8) : Paint Unit := do
  let format := (← get).format
  if format ≠ src.format then
    refuse (.incompatibleFormats "add_blit_from" format src.format)
  else if alpha = 0 then
    pure ()
  else if alpha = 255 then
    blit src r sx sy
  else
    combine src r sx sy fun old p _ _ => some (old.blend p.toRgba alpha)

/-- Copies inverted; both surfaces must share a format. -/
def invertBlit (src : Surface) (r : Rect) (sx sy : Nat) : Paint Unit := do
  let format := (← get).format
  if format ≠ src.format then
    refuse (.incompatibleFormats "invert_blit_from" format src.format)
  else
    combine src r sx sy fun _ p _ _ => some p.inverted

/-! ### Compositing by the source's alpha -/

/-- What a source pixel leaves of the pixel below it. A transparent one leaves it alone, a solid
one replaces it. -/
def composite (mode : AlphaMode) (old new : Pixel) : Option Pixel :=
  if new.alpha = 0 then none
  else if new.alpha = 255 then some (new.convert old.format)
  else match mode with
    | .straight => some (old.blend new.toRgba new.alpha)
    | .premultiplied => some (old.blendPremultiplied new.toRgba new.alpha)

def compositeBlit (op : String) (mode : AlphaMode) (dither : Bool) (src : Surface)
    (r : Rect) (sx sy : Nat) : Paint Unit := do
  let format := (← get).format
  if format.compositesFrom src.format then
    unless r.isEmpty do
      combine src r sx sy fun old p u v =>
        (composite mode old p).map fun out => if dither then out.dithered u v else out
  else
    refuse (.incompatibleFormats op format src.format)

def alphaBlit : (src : Surface) → (r : Rect) → (sx sy : Nat) → Paint Unit :=
  compositeBlit "alpha_blit_from" .straight false

/-- Like `alphaBlit`; a gray surface is dithered at source positions. -/
def ditherAlphaBlit : (src : Surface) → (r : Rect) → (sx sy : Nat) → Paint Unit :=
  compositeBlit "dither_alpha_blit_from" .straight true

def premultipliedBlit : (src : Surface) → (r : Rect) → (sx sy : Nat) → Paint Unit :=
  compositeBlit "pmulalpha_blit_from" .premultiplied false

/-- Like `premultipliedBlit`; a gray surface is dithered at source positions. -/
def ditherPremultipliedBlit : (src : Surface) → (r : Rect) → (sx sy : Nat) → Paint Unit :=
  compositeBlit "dither_pmulalpha_blit_from" .premultiplied true

/-! ### Painting through a mask -/

/-- The pixel `old` with the colour painted by the fraction `alpha`. -/
def tint (old : Pixel) (c : Rgba) (alpha : UInt8) : Option Pixel :=
  if alpha = 0 then none
  else if alpha = 255 then some (old.recolor c)
  else some (old.blend c alpha)

/-- Paints the colour through the source, whose coverage is scaled by the colour's alpha. -/
def maskBlit (mask : Surface) (r : Rect) (sx sy : Nat) (c : Rgba) : Paint Unit := do
  unless r.isEmpty || c.alpha == 0 do
    combine mask r sx sy fun old p _ _ => tint old c (Channel.mul p.coverage c.alpha)

end Paint

end Raster
