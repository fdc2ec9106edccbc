/-!
# Decimal numbers

Only one thing is asked of a number with a fraction or an exponent: whether a double-precision
number can hold it.
-/

namespace Raster

/-- The significand times a power of ten. -/
structure Decimal where
  significand : Nat
  exponent : Int
  deriving DecidableEq, Repr

namespace Decimal

/-- From here on the nearest double-precision number is infinite. -/
def doubleLimit : Nat := 1 <<< 1024 - 1 <<< 970

/-- Whether the number lies beyond the range of double-precision numbers. The powers of ten are
compared first, so that a huge exponent costs nothing. -/
def isTooLarge (d : Decimal) : Bool :=
  let digits := (Nat.toDigits 10 d.significand).length
  if d.significand = 0 || d.exponent + digits ≤ 308 then false
  else if 310 < d.exponent + digits then true
  else if 0 ≤ d.exponent then doubleLimit ≤ d.significand * Nat.pow 10 d.exponent.toNat
  else doubleLimit * Nat.pow 10 d.exponent.natAbs ≤ d.significand

end Decimal

end Raster
