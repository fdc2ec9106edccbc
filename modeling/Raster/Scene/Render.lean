import Raster.Scene.Basic
import Raster.Surface.Corner
import Raster.Surface.Transfer

/-!
# Rendering

An operation clips its rectangle to the canvas before it paints. A rectangle with a far edge
that does not fit a word is refused; a layer that misses the canvas is not even generated.
-/

namespace Raster

/-- A zeroed surface of this logical size. -/
def Surface.allocView (width height : Nat) (format : PixelFormat) (rotation : Rotation) :
    Except Failure Surface := do
  let (w, h) := rotation.logicalSize width height
  return (← alloc w h format).rotated rotation

/-- The surface after the computation, unless that fails. -/
def Surface.painted (s : Surface) (p : Paint Unit) : Except Failure Surface :=
  match s.paint p with
  | (.ok (), s') => return s'
  | (.error e, _) => throw e

namespace Pattern

/-- How far `position` lies along a ramp of `length` steps, in fractions of 255. -/
def weight? (position length : Nat) : Option Nat :=
  if 1 < length then do return (← Word.mul position 255) / (length - 1) % UInt32.size else some 0

/-- The colour at `(x, y)` of a `width × height` layer. -/
def color? (p : Pattern) (x y width height : Nat) : Option Rgba :=
  match p with
  | solid color => some color
  | gradient start stop vertical => do
    let t ← if vertical then weight? y height else weight? x width
    let rest ← Word.sub 255 t
    let ramp (a b : UInt8) : UInt8 := .ofNat (Channel.div255 (a.toNat * rest + b.toNat * t))
    return ⟨ramp start.r stop.r, ramp start.g stop.g, ramp start.b stop.b,
      ramp start.alpha stop.alpha⟩
  | checker size a b => do
    let squares ← Word.add (x / max size 1) (y / max size 1)
    return if squares % 2 = 0 then a else b

end Pattern

/-- Generates the pixels of a layer. -/
def Layer.render (l : Layer) : Except Failure Surface := do
  let blank ← Surface.allocView l.width l.height l.format l.rotation
  blank.painted <|
    Paint.forEach (fun y =>
        Paint.forEach (fun x => do
            Paint.setPixel x y (← Paint.ofOption (l.pattern.color? x y l.width l.height)))
          0 l.width)
      0 l.height

/-- The operator that a mode stands for. -/
def BlitMode.transfer (mode : BlitMode) (src : Surface) (r : Rect) (sx sy : Nat)
    (alpha : UInt8) (color : Rgba) : Paint Unit :=
  match mode with
  | copy => Paint.blit src r sx sy
  | dither => Paint.ditherBlit src r sx sy
  | add => Paint.addBlit src r sx sy alpha
  | .alpha => Paint.alphaBlit src r sx sy
  | ditherAlpha => Paint.ditherAlphaBlit src r sx sy
  | premultiplied => Paint.premultipliedBlit src r sx sy
  | ditherPremultiplied => Paint.ditherPremultipliedBlit src r sx sy
  | invert => Paint.invertBlit src r sx sy
  | gray => Paint.maskBlit src r sx sy (GrayAlpha.toRgba ⟨color.luminance, color.alpha⟩)
  | .color => Paint.maskBlit src r sx sy color

namespace Op

/-- Refuses a rectangle with a far edge that does not fit a word. -/
def requireAddressable (name : String) (r : Rect) : Paint Unit :=
  if r.isAddressable then pure () else Paint.refuse (.invalidRect name r)

/-- The part of `r` on the canvas; the empty rectangle if there is none. -/
def clip (name : String) (r : Rect) : Paint Rect := do
  requireAddressable name r
  let part ← Paint.ofOption (r.intersect? (← get).bounds)
  return part.getD .empty

/-- Puts a layer whose corner is at `(x, y)` onto its part of the canvas, if it has one. -/
def putLayer (layer : Layer) (x y : Nat) (mode : BlitMode) (alpha : UInt8) (color : Rgba) :
    Option Rect → Paint Unit
  | none => pure ()
  | some r => do mode.transfer (← ofExcept layer.render) r (r.x - x) (r.y - y) alpha color

/-- Paints the canvas. -/
def apply (op : Op) : Paint Unit :=
  match op with
  | fill value => Paint.fill value
  | fillRect rect value => do Paint.fillRect (← clip op.name rect) value
  | replaceRect rect color => do Paint.replaceRect (← clip op.name rect) color
  | blendGray rect color => do Paint.blendRect (← clip op.name rect) color.toRgba
  | blendColor rect color => do Paint.blendRect (← clip op.name rect) color
  | multiplyRect rect color => do Paint.multiplyBlendRect (← clip op.name rect) color
  | invertRect rect => do Paint.invertRect (← clip op.name rect)
  | hatchRect rect stripe value alpha => do
    Paint.hatchRect (← clip op.name rect) stripe value alpha
  | roundedCorner rect border radius value smooth => do
    requireAddressable op.name rect
    if smooth then Paint.smoothCorner rect border radius value
    else Paint.roundedCorner rect border radius value
  | blit layer x y mode alpha color => do
    let placed : Rect := ⟨x, y, layer.width, layer.height⟩
    requireAddressable op.name placed
    let part ← Paint.ofOption (placed.intersect? (← get).bounds)
    putLayer layer x y mode alpha color part

end Op

/-- Why a scene has no image. -/
inductive RenderFailure where
  | fault
  /-- The operation of this index was refused. -/
  | refused (index : Nat) (op : String) (cause : Refusal)
  deriving DecidableEq, Repr

def RenderFailure.message? : RenderFailure → Option String
  | fault => none
  | refused index op cause => some s!"scene op #{index} ({op}) failed: {cause.message}"

namespace Scene

/-- The canvas before the first operation. -/
def canvas (s : Scene) : Except Failure Surface := do
  let blank ← Surface.allocView s.width s.height s.format s.rotation
  blank.painted (Paint.mapRegion blank.bounds fun _ => .ofGray s.format s.background)

/-- Applies the operations in order, the first of them being number `index`. -/
def applyAll (index : Nat) (canvas : Surface) : List Op → Except RenderFailure Surface
  | [] => return canvas
  | op :: ops =>
    match canvas.paint op.apply with
    | (.ok (), canvas) => applyAll (index + 1) canvas ops
    | (.error .fault, _) => throw .fault
    | (.error (.refused cause), _) => throw (.refused index op.name cause)

/-- The image that a scene describes. -/
def render (s : Scene) : Except RenderFailure Surface :=
  match s.canvas with
  | .ok canvas => applyAll 0 canvas s.ops
  | .error _ => throw .fault

end Scene

end Raster
