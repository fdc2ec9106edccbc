/-!
# Eight-bit channel arithmetic

Channels run from 0 to 255 and stand for the fractions of 255. Products are brought back to
eight bits by `div255`, which rounds to the nearest; no fraction is ever stored.
-/

namespace Raster

namespace Channel

/-- Division by 255, rounded to the nearest: exact for every product of two channels. -/
def div255 (n : Nat) : Nat := ((n + 128) / 256 + (n + 128)) / 256

/-- `div255` within 32 bits: `none` when one of its two sums needs more. -/
def div255? (n : Nat) : Option Nat :=
  if (n + 128) / 256 + (n + 128) < UInt32.size then some (div255 n) else none

/-- The luminance of a colour. The weights sum to 16385, so a gray keeps its value. -/
def luma (r g b : UInt8) : UInt8 :=
  .ofNat ((4898 * r.toNat + 9618 * g.toNat + 1869 * b.toNat) / 16384)

/-- Moves `old` toward `new` by the fraction `alpha`. -/
def mix (alpha old new : UInt8) : UInt8 :=
  .ofNat (div255 (old.toNat * (255 - alpha.toNat) + new.toNat * alpha.toNat))

/-- Adds `new`, which already carries its alpha, to what `alpha` leaves of `old`. -/
def mixPremultiplied (alpha old new : UInt8) : UInt8 :=
  .ofNat (min 255 (div255 (old.toNat * (255 - alpha.toNat) + new.toNat * 255)))

def mul (a b : UInt8) : UInt8 := .ofNat (div255 (a.toNat * b.toNat))

/-- Widens five bits to eight by repeating the top ones. -/
def widen5 (v : UInt8) : UInt8 := v <<< 3 ||| v >>> 2

/-- Widens six bits to eight by repeating the top ones. -/
def widen6 (v : UInt8) : UInt8 := v <<< 2 ||| v >>> 4

/-- Packs three channels into 5, 6 and 5 bits, dropping the low ones. -/
def pack565 (r g b : UInt8) : UInt16 :=
  .ofNat (r.toNat / 8 * 2048 + g.toNat / 4 * 32 + b.toNat / 8)

def red565 (word : UInt16) : UInt8 := widen5 (.ofNat (word.toNat / 2048))

def green565 (word : UInt16) : UInt8 := widen6 (.ofNat (word.toNat / 32 % 64))

def blue565 (word : UInt16) : UInt8 := widen5 (.ofNat (word.toNat % 32))

theorem luma_self (v : UInt8) : luma v v v = v := by
  have h := v.toNat_lt
  have weights : (4898 * v.toNat + 9618 * v.toNat + 1869 * v.toNat) / 16384 = v.toNat := by omega
  simp [luma, weights]

end Channel

end Raster
