import Raster.Channel

/-!
# Ordered dithering to sixteen grays

The palette is the multiples of 17. A luminance lies between two of them; an 8 × 8 matrix of
thresholds, repeated over the plane, decides which of the two a position shows.
-/

namespace Raster

namespace Dither

/-- The thresholds 1 to 64, row by row. -/
def matrix : Vector Nat 64 :=
  #v[1, 49, 13, 61, 4, 52, 16, 64,
     33, 17, 45, 29, 36, 20, 48, 32,
     9, 57, 5, 53, 12, 60, 8, 56,
     41, 25, 37, 21, 44, 28, 40, 24,
     3, 51, 15, 63, 2, 50, 14, 62,
     35, 19, 47, 31, 34, 18, 46, 30,
     11, 59, 7, 55, 10, 58, 6, 54,
     43, 27, 39, 23, 42, 26, 38, 22]

def threshold (x y : Nat) : Nat := matrix.get ⟨x % 8 + 8 * (y % 8), by omega⟩

/-- The palette gray that luminance `v` shows at `(x, y)`. The luminance is scaled to fifteen
steps of 64 parts, and the parts above a whole step are compared with the threshold. -/
def quantize (x y : Nat) (v : UInt8) : UInt8 :=
  let scaled := Channel.div255 (v.toNat * 961)
  let level := if scaled % 64 ≥ threshold x y then scaled / 64 + 1 else scaled / 64
  .ofNat (min 255 (level * 17))

end Dither

end Raster
