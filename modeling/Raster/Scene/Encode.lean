import Raster.Json.Basic
import Raster.Scene.Names

/-! # Writing scenes: every field is given, tags first -/

namespace Raster

def byteToJson (b : UInt8) : Json := .nat b.toNat

def Rect.toJson (r : Rect) : Json := .list [.nat r.x, .nat r.y, .nat r.w, .nat r.h]

def GrayAlpha.toJson (c : GrayAlpha) : Json :=
  .record [("v", byteToJson c.v), ("alpha", byteToJson c.alpha)]

def Rgba.toJson (c : Rgba) : Json :=
  .record [("r", byteToJson c.r), ("g", byteToJson c.g), ("b", byteToJson c.b),
    ("alpha", byteToJson c.alpha)]

def Pattern.toJson : Pattern → Json
  | solid color => .record [("kind", .text "solid"), ("color", color.toJson)]
  | gradient start stop vertical =>
    .record [("kind", .text "gradient"), ("from", start.toJson), ("to", stop.toJson),
      ("vertical", .bool vertical)]
  | checker size a b =>
    .record [("kind", .text "checker"), ("size", .nat size), ("a", a.toJson), ("b", b.toJson)]

def Layer.toJson (l : Layer) : Json :=
  .record [("width", .nat l.width), ("height", .nat l.height), ("format", .text l.format.name),
    ("rotation", .nat l.rotation.turns), ("pattern", l.pattern.toJson)]

/-- The fields of an operation after its tag. -/
def Op.fields : Op → List (String × Json)
  | fill value => [("value", byteToJson value)]
  | fillRect rect value => [("rect", rect.toJson), ("value", byteToJson value)]
  | replaceRect rect color => [("rect", rect.toJson), ("color", color.toJson)]
  | blendGray rect color => [("rect", rect.toJson), ("color", color.toJson)]
  | blendColor rect color => [("rect", rect.toJson), ("color", color.toJson)]
  | multiplyRect rect color => [("rect", rect.toJson), ("color", color.toJson)]
  | invertRect rect => [("rect", rect.toJson)]
  | hatchRect rect stripe value alpha =>
    [("rect", rect.toJson), ("stripe", .nat stripe), ("value", byteToJson value),
      ("alpha", byteToJson alpha)]
  | roundedCorner rect border radius value smooth =>
    [("rect", rect.toJson), ("border", .nat border), ("radius", .nat radius),
      ("value", byteToJson value), ("anti_aliasing", .bool smooth)]
  | blit layer x y mode alpha color =>
    [("layer", layer.toJson), ("at", .list [.nat x, .nat y]), ("mode", .text mode.name),
      ("alpha", byteToJson alpha), ("color", color.toJson)]

def Op.toJson (op : Op) : Json := .record (("op", .text op.name) :: op.fields)

def Scene.toJson (s : Scene) : Json :=
  .record [("name", .text s.name), ("width", .nat s.width), ("height", .nat s.height),
    ("format", .text s.format.name), ("rotation", .nat s.rotation.turns),
    ("background", byteToJson s.background), ("ops", .list (s.ops.map Op.toJson))]

end Raster
