import Raster.Scene.Basic

/-! # The words of scene files -/

namespace Raster

namespace BlitMode

def all : List BlitMode :=
  [copy, dither, add, alpha, ditherAlpha, premultiplied, ditherPremultiplied, invert, gray, color]

def name : BlitMode → String
  | copy => "copy"
  | dither => "dither"
  | add => "add"
  | alpha => "alpha"
  | ditherAlpha => "dither_alpha"
  | premultiplied => "pmul"
  | ditherPremultiplied => "dither_pmul"
  | invert => "invert"
  | gray => "color"
  | color => "color_rgb"

def ofName? (s : String) : Option BlitMode := all.find? (·.name = s)

theorem ofName?_name (m : BlitMode) : ofName? m.name = some m := by cases m <;> decide

end BlitMode

/-! ### Fields, in the order in which a list gives them -/

def GrayAlpha.fieldNames : List String := ["v", "alpha"]

def Rgba.fieldNames : List String := ["r", "g", "b", "alpha"]

def Layer.fieldNames : List String := ["width", "height", "format", "rotation", "pattern"]

def Scene.fieldNames : List String :=
  ["name", "width", "height", "format", "rotation", "background", "ops"]

/-- The kinds of patterns and their fields. -/
def Pattern.kinds : List (String × List String) :=
  [("solid", ["color"]), ("gradient", ["from", "to", "vertical"]), ("checker", ["size", "a", "b"])]

/-- The operations and their fields. -/
def Op.kinds : List (String × List String) :=
  [("fill", ["value"]), ("fill_rect", ["rect", "value"]), ("fill_rect_rgb", ["rect", "color"]),
    ("blend_rect", ["rect", "color"]), ("blend_rect_rgb", ["rect", "color"]),
    ("multiply_rect", ["rect", "color"]), ("invert_rect", ["rect"]),
    ("hatch_rect", ["rect", "stripe", "value", "alpha"]),
    ("rounded_corner", ["rect", "border", "radius", "value", "anti_aliasing"]),
    ("blit", ["layer", "at", "mode", "alpha", "color"])]

end Raster
