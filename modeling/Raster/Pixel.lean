import Raster.Color
import Raster.Dither
import Raster.PixelFormat

/-!
# Pixels

A pixel is a stored value of one format. Colours reach it as `Rgba`: a gray format takes the
luminance, RGB565 the top bits, and the stored alpha stays unless the pixel is replaced as a
whole.
-/

namespace Raster

inductive Pixel where
  | gray8 (v : UInt8)
  | gray8a (v alpha : UInt8)
  | rgb565 (word : UInt16)
  | rgb24 (r g b : UInt8)
  | rgb32 (r g b alpha : UInt8)
  deriving DecidableEq, Repr, Inhabited

namespace Pixel

def format : Pixel → PixelFormat
  | gray8 .. => .gray8
  | gray8a .. => .gray8a
  | rgb565 .. => .rgb565
  | rgb24 .. => .rgb24
  | rgb32 .. => .rgb32

/-! ### Storage -/

/-- The bytes of a pixel, in storage order. -/
def toBytes : Pixel → List UInt8
  | gray8 v => [v]
  | gray8a v alpha => [v, alpha]
  | rgb565 word => [.ofNat (word.toNat % 256), .ofNat (word.toNat / 256)]
  | rgb24 r g b => [r, g, b]
  | rgb32 r g b alpha => [r, g, b, alpha]

/-- The pixel whose bytes are `byte 0`, `byte 1` and so on. -/
def ofBytes (format : PixelFormat) (byte : Nat → UInt8) : Pixel :=
  match format with
  | .gray8 => gray8 (byte 0)
  | .gray8a => gray8a (byte 0) (byte 1)
  | .rgb565 => rgb565 (.ofNat ((byte 0).toNat + 256 * (byte 1).toNat))
  | .rgb24 => rgb24 (byte 0) (byte 1) (byte 2)
  | .rgb32 => rgb32 (byte 0) (byte 1) (byte 2) (byte 3)

/-- The pixel stored in `data` from byte `start` on, if all its bytes are there. -/
def read? (format : PixelFormat) (data : Array UInt8) (start : Nat) : Option Pixel :=
  if start + format.bytes ≤ data.size then
    some (ofBytes format fun i => data.getD (start + i) 0)
  else
    none

theorem length_toBytes (p : Pixel) : p.toBytes.length = p.format.bytes := by cases p <;> rfl

@[simp]
theorem format_ofBytes (f : PixelFormat) (byte : Nat → UInt8) : (ofBytes f byte).format = f := by
  cases f <;> rfl

/-! ### Conversion -/

def toRgba : Pixel → Rgba
  | gray8 v => .gray v
  | gray8a v alpha => ⟨v, v, v, alpha⟩
  | rgb565 word => ⟨Channel.red565 word, Channel.green565 word, Channel.blue565 word, 255⟩
  | rgb24 r g b => ⟨r, g, b, 255⟩
  | rgb32 r g b alpha => ⟨r, g, b, alpha⟩

def ofRgba (format : PixelFormat) (c : Rgba) : Pixel :=
  match format with
  | .gray8 => gray8 c.luminance
  | .gray8a => gray8a c.luminance c.alpha
  | .rgb565 => rgb565 (Channel.pack565 c.r c.g c.b)
  | .rgb24 => rgb24 c.r c.g c.b
  | .rgb32 => rgb32 c.r c.g c.b c.alpha

/-- The gray `v` without transparency. -/
def ofGray (format : PixelFormat) (v : UInt8) : Pixel := ofRgba format (.gray v)

def convert (p : Pixel) (format : PixelFormat) : Pixel := ofRgba format p.toRgba

def luminance (p : Pixel) : UInt8 := p.toRgba.luminance

/-- The stored alpha, 255 in a format that has none. -/
def alpha (p : Pixel) : UInt8 := p.toRgba.alpha

/-- How much the pixel covers as a mask: its alpha where the format has one, else its
luminance. -/
def coverage (p : Pixel) : UInt8 := if p.format.hasAlpha then p.alpha else p.luminance

@[simp]
theorem format_ofRgba (f : PixelFormat) (c : Rgba) : (ofRgba f c).format = f := by
  cases f <;> rfl

@[simp]
theorem format_convert (p : Pixel) (f : PixelFormat) : (p.convert f).format = f :=
  format_ofRgba f _

/-! ### Transforms -/

/-- Combines every colour channel with the colour's, keeping the stored alpha. -/
def channelwise (f : UInt8 → UInt8 → UInt8) (p : Pixel) (c : Rgba) : Pixel :=
  match p with
  | gray8 v => gray8 (f v c.luminance)
  | gray8a v alpha => gray8a (f v c.luminance) alpha
  | rgb565 word =>
    rgb565 (Channel.pack565 (f (Channel.red565 word) c.r) (f (Channel.green565 word) c.g)
      (f (Channel.blue565 word) c.b))
  | rgb24 r g b => rgb24 (f r c.r) (f g c.g) (f b c.b)
  | rgb32 r g b alpha => rgb32 (f r c.r) (f g c.g) (f b c.b) alpha

/-- Takes over the colour. -/
def recolor (p : Pixel) (c : Rgba) : Pixel := p.channelwise (fun _ new => new) c

/-- Moves toward the colour by the fraction `alpha`. -/
def blend (p : Pixel) (c : Rgba) (alpha : UInt8) : Pixel := p.channelwise (Channel.mix alpha) c

/-- Like `blend`, for a colour that already carries its alpha. -/
def blendPremultiplied (p : Pixel) (c : Rgba) (alpha : UInt8) : Pixel :=
  p.channelwise (Channel.mixPremultiplied alpha) c

def multiply (p : Pixel) (c : Rgba) : Pixel := p.channelwise Channel.mul c

/-- Complements the colour bits. -/
def inverted : Pixel → Pixel
  | gray8 v => gray8 (~~~v)
  | gray8a v alpha => gray8a (~~~v) alpha
  | rgb565 word => rgb565 (~~~word)
  | rgb24 r g b => rgb24 (~~~r) (~~~g) (~~~b)
  | rgb32 r g b alpha => rgb32 (~~~r) (~~~g) (~~~b) alpha

/-- Dithers the luminance at `(x, y)`; pixels with colour stay as they are. -/
def dithered (p : Pixel) (x y : Nat) : Pixel :=
  match p with
  | gray8 v => gray8 (Dither.quantize x y v)
  | gray8a v alpha => gray8a (Dither.quantize x y v) alpha
  | _ => p

@[simp]
theorem format_channelwise (f : UInt8 → UInt8 → UInt8) (p : Pixel) (c : Rgba) :
    (p.channelwise f c).format = p.format := by
  cases p <;> rfl

@[simp]
theorem format_inverted (p : Pixel) : p.inverted.format = p.format := by cases p <;> rfl

@[simp]
theorem format_dithered (p : Pixel) (x y : Nat) : (p.dithered x y).format = p.format := by
  cases p <;> rfl

@[simp]
theorem alpha_channelwise (f : UInt8 → UInt8 → UInt8) (p : Pixel) (c : Rgba) :
    (p.channelwise f c).alpha = p.alpha := by
  cases p <;> rfl

@[simp]
theorem luminance_gray8 (v : UInt8) : (gray8 v).luminance = v := Channel.luma_self v

@[simp]
theorem luminance_gray8a (v alpha : UInt8) : (gray8a v alpha).luminance = v :=
  Channel.luma_self v

end Pixel

end Raster
