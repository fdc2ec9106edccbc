import Raster.Color
import Raster.PixelFormat
import Raster.Rotation

/-!
# Scenes

A scene describes an image: a canvas, and the operations that paint it in order. Geometry is in
the canvas's logical coordinates and may reach beyond it.
-/

namespace Raster

/-- What a generated layer shows. -/
inductive Pattern where
  | solid (color : Rgba)
  /-- A linear ramp across the layer, or down it, alpha included. -/
  | gradient (start stop : Rgba) (vertical : Bool)
  /-- Squares of `size` pixels that alternate. -/
  | checker (size : Nat) (a b : Rgba)
  deriving DecidableEq, Repr

/-- A generated source surface. -/
structure Layer where
  width : Nat
  height : Nat
  format : PixelFormat
  rotation : Rotation
  pattern : Pattern
  deriving DecidableEq, Repr

/-- How a layer is put onto the canvas. -/
inductive BlitMode where
  | copy
  | dither
  | add
  | alpha
  | ditherAlpha
  | premultiplied
  | ditherPremultiplied
  | invert
  /-- The layer masks the luminance of a colour. -/
  | gray
  /-- The layer masks a colour. -/
  | color
  deriving DecidableEq, Repr, Inhabited

inductive Op where
  | fill (value : UInt8)
  | fillRect (rect : Rect) (value : UInt8)
  | replaceRect (rect : Rect) (color : Rgba)
  | blendGray (rect : Rect) (color : GrayAlpha)
  | blendColor (rect : Rect) (color : Rgba)
  | multiplyRect (rect : Rect) (color : Rgba)
  | invertRect (rect : Rect)
  | hatchRect (rect : Rect) (stripe : Nat) (value alpha : UInt8)
  | roundedCorner (rect : Rect) (border radius : Nat) (value : UInt8) (smooth : Bool)
  /-- The layer with its top left corner at `(x, y)`. `add` takes the alpha, the masking modes
  take the colour. -/
  | blit (layer : Layer) (x y : Nat) (mode : BlitMode) (alpha : UInt8) (color : Rgba)
  deriving DecidableEq, Repr

/-- The name of an operation in scene files and messages. -/
def Op.name : Op → String
  | fill .. => "fill"
  | fillRect .. => "fill_rect"
  | replaceRect .. => "fill_rect_rgb"
  | blendGray .. => "blend_rect"
  | blendColor .. => "blend_rect_rgb"
  | multiplyRect .. => "multiply_rect"
  | invertRect .. => "invert_rect"
  | hatchRect .. => "hatch_rect"
  | roundedCorner .. => "rounded_corner"
  | blit .. => "blit"

structure Scene where
  name : String
  width : Nat
  height : Nat
  format : PixelFormat
  rotation : Rotation
  /-- The gray that the canvas has before the first operation. -/
  background : UInt8
  ops : List Op
  deriving DecidableEq, Repr

/-- What a run changes of every scene. -/
structure Overrides where
  format : Option PixelFormat
  rotation : Option Rotation
  deriving DecidableEq, Repr

def Scene.override (s : Scene) (o : Overrides) : Scene :=
  { s with format := o.format.getD s.format, rotation := o.rotation.getD s.rotation }

end Raster
