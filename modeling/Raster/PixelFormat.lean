/-! # Pixel formats: the five ways a surface stores a pixel -/

namespace Raster

inductive PixelFormat where
  /-- One byte of luminance. -/
  | gray8
  /-- A byte of luminance, then a byte of alpha. -/
  | gray8a
  /-- Red, green and blue in 5, 6 and 5 bits of one word, its low byte first. -/
  | rgb565
  /-- A byte each of red, green and blue. -/
  | rgb24
  /-- A byte each of red, green, blue and alpha. -/
  | rgb32
  deriving DecidableEq, Repr, Inhabited

namespace PixelFormat

def all : List PixelFormat := [gray8, gray8a, rgb565, rgb24, rgb32]

/-- The bytes that one pixel takes. -/
def bytes : PixelFormat → Nat
  | gray8 => 1
  | gray8a | rgb565 => 2
  | rgb24 => 3
  | rgb32 => 4

def hasAlpha : PixelFormat → Bool
  | gray8a | rgb32 => true
  | _ => false

def isGray : PixelFormat → Bool
  | gray8 | gray8a => true
  | _ => false

/-- The name used in scene files and on the command line. -/
def name : PixelFormat → String
  | gray8 => "gray8"
  | gray8a => "gray8a"
  | rgb565 => "rgb565"
  | rgb24 => "rgb24"
  | rgb32 => "rgb32"

/-- The name used when a surface is described. -/
def label : PixelFormat → String
  | gray8 => "Gray8"
  | gray8a => "Gray8A"
  | rgb565 => "Rgb565"
  | rgb24 => "Rgb24"
  | rgb32 => "Rgb32"

/-- The format of exactly this name. -/
def ofExactName? (s : String) : Option PixelFormat := all.find? (·.name = s)

/-- The format of this name, whatever the case of its ASCII letters. -/
def ofName? (s : String) : Option PixelFormat := ofExactName? s.toLower

theorem bytes_pos (f : PixelFormat) : 0 < f.bytes := by cases f <;> decide

theorem ofExactName?_name (f : PixelFormat) : ofExactName? f.name = some f := by
  cases f <;> decide

end PixelFormat

end Raster
