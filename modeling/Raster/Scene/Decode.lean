import Raster.Datum
import Raster.Scene.Names

/-!
# Reading scenes

A record takes its known fields in any order, each at most once, and passes over the rest; a
missing field has its default or is an error. An operation and a pattern tell their kind by a
tag, and their other fields are read as plain data.
-/

namespace Raster

open Document

variable {δ : Type} [Document δ]

/-- A channel. -/
def decodeByte? (d : δ) : Option UInt8 := do
  let n ← nat? d
  if n < 256 then some (.ofNat n) else none

def PixelFormat.decode? (d : δ) : Option PixelFormat := do
  ofExactName? (← name? (all.map name) d)

def Rotation.decode? (d : δ) : Option Rotation := do ofTurns? (← nat? d)

def BlitMode.decode? (d : δ) : Option BlitMode := do ofName? (← name? (all.map name) d)

/-- A rectangle, as the list of its four numbers. -/
def Rect.decode? (d : δ) : Option Rect := do
  match ← items? d with
  | [x, y, w, h] => return ⟨← nat? x, ← nat? y, ← nat? w, ← nat? h⟩
  | _ => none

/-- A point, as the list of its two numbers. -/
def decodePoint? (d : δ) : Option (Nat × Nat) := do
  match ← items? d with
  | [x, y] => return (← nat? x, ← nat? y)
  | _ => none

def GrayAlpha.decode? (d : δ) : Option GrayAlpha := do
  let fields ← fields? fieldNames d
  return ⟨← required? fields "v" decodeByte?, ← optional? fields "alpha" decodeByte? 255⟩

def Rgba.decode? (d : δ) : Option Rgba := do
  let fields ← fields? fieldNames d
  return ⟨← required? fields "r" decodeByte?, ← required? fields "g" decodeByte?,
    ← required? fields "b" decodeByte?, ← optional? fields "alpha" decodeByte? 255⟩

/-- The kind of a tagged record, and its fields. -/
def decodeKind? (tag : String) (kinds : List (String × List String)) (d : δ) :
    Option (String × List (String × Datum)) := do
  let (kind, rest) ← tagged? tag (kinds.map (·.1)) d
  let names ← kinds.lookup kind
  return (kind, ← fields? names rest)

def Pattern.decode? (d : δ) : Option Pattern := do
  let (kind, fields) ← decodeKind? "kind" kinds d
  match kind with
  | "solid" => return solid (← required? fields "color" Rgba.decode?)
  | "gradient" =>
    return gradient (← required? fields "from" Rgba.decode?)
      (← required? fields "to" Rgba.decode?) (← optional? fields "vertical" bool? false)
  | "checker" =>
    return checker (← required? fields "size" nat?) (← required? fields "a" Rgba.decode?)
      (← required? fields "b" Rgba.decode?)
  | _ => none

def Layer.decode? (d : δ) : Option Layer := do
  let fields ← fields? fieldNames d
  return {
    width := ← required? fields "width" nat?
    height := ← required? fields "height" nat?
    format := ← optional? fields "format" PixelFormat.decode? .gray8
    rotation := ← optional? fields "rotation" Rotation.decode? .upright
    pattern := ← required? fields "pattern" Pattern.decode? }

/-- The operation of a kind with these fields. -/
def Op.ofFields? (kind : String) (fields : List (String × Datum)) : Option Op := do
  let rect := required? fields "rect" Rect.decode?
  let byte (name : String) : Option UInt8 := required? fields name decodeByte?
  let color := required? fields "color" Rgba.decode?
  match kind with
  | "fill" => return fill (← byte "value")
  | "fill_rect" => return fillRect (← rect) (← byte "value")
  | "fill_rect_rgb" => return replaceRect (← rect) (← color)
  | "blend_rect" => return blendGray (← rect) (← required? fields "color" GrayAlpha.decode?)
  | "blend_rect_rgb" => return blendColor (← rect) (← color)
  | "multiply_rect" => return multiplyRect (← rect) (← color)
  | "invert_rect" => return invertRect (← rect)
  | "hatch_rect" =>
    return hatchRect (← rect) (← required? fields "stripe" nat?) (← byte "value")
      (← optional? fields "alpha" decodeByte? 255)
  | "rounded_corner" =>
    return roundedCorner (← rect) (← required? fields "border" nat?)
      (← required? fields "radius" nat?) (← byte "value")
      (← optional? fields "anti_aliasing" bool? false)
  | "blit" =>
    let layer ← required? fields "layer" Layer.decode?
    let (x, y) ← optional? fields "at" decodePoint? (0, 0)
    return blit layer x y (← optional? fields "mode" BlitMode.decode? .copy)
      (← optional? fields "alpha" decodeByte? 255)
      (← optional? fields "color" Rgba.decode? .black)
  | _ => none

def Op.decode? (d : δ) : Option Op := do
  let (kind, fields) ← decodeKind? "op" kinds d
  ofFields? kind fields

def Scene.decode? (d : δ) : Option Scene := do
  let fields ← fields? fieldNames d
  let decodeOps (d : δ) : Option (List Op) := do (← items? d).mapM Op.decode?
  return {
    name := ← required? fields "name" text?
    width := ← optional? fields "width" nat? 600
    height := ← optional? fields "height" nat? 800
    format := ← optional? fields "format" PixelFormat.decode? .gray8
    rotation := ← optional? fields "rotation" Rotation.decode? .upright
    background := ← optional? fields "background" decodeByte? 255
    ops := ← optional? fields "ops" decodeOps [] }

end Raster
