import Raster.Channel

/-! # Colour arguments -/

namespace Raster

/-- A gray with alpha. -/
structure GrayAlpha where
  v : UInt8
  alpha : UInt8
  deriving DecidableEq, Repr, Inhabited

structure Rgb where
  r : UInt8
  g : UInt8
  b : UInt8
  deriving DecidableEq, Repr, Inhabited

structure Rgba where
  r : UInt8
  g : UInt8
  b : UInt8
  alpha : UInt8
  deriving DecidableEq, Repr, Inhabited

namespace Rgba

/-- A gray without transparency. -/
def gray (v : UInt8) : Rgba := ⟨v, v, v, 255⟩

def black : Rgba := gray 0

def luminance (c : Rgba) : UInt8 := Channel.luma c.r c.g c.b

private def hexDigit (n : Nat) : Char := if n < 10 then .ofNat (48 + n) else .ofNat (55 + n)

private def hexByte (b : UInt8) : String :=
  .ofList [hexDigit (b.toNat / 16), hexDigit (b.toNat % 16)]

/-- The colour as `#RRGGBBAA`. -/
def toHex (c : Rgba) : String :=
  "#" ++ hexByte c.r ++ hexByte c.g ++ hexByte c.b ++ hexByte c.alpha

end Rgba

def GrayAlpha.toRgba (c : GrayAlpha) : Rgba := ⟨c.v, c.v, c.v, c.alpha⟩

/-- The colour without transparency. -/
def Rgb.toRgba (c : Rgb) : Rgba := ⟨c.r, c.g, c.b, 255⟩

end Raster
