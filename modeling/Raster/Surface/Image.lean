import Raster.Surface.Basic

/-! # Images: surfaces read out as rows of RGBA bytes -/

namespace Raster

structure Image where
  width : Nat
  height : Nat
  /-- Four bytes a pixel, row by row. -/
  rgba : Array UInt8
  deriving DecidableEq, Repr

namespace Surface

def rgbaRow (s : Surface) (y x : Nat) (row : Array UInt8) : (n : Nat) → Option (Array UInt8)
  | 0 => some row
  | n + 1 =>
    match s.pixel? x y with
    | none => none
    | some p =>
      let c := p.toRgba
      rgbaRow s y (x + 1) ((((row.push c.r).push c.g).push c.b).push c.alpha) n

def rgbaRows (s : Surface) (y : Nat) (rows : Array UInt8) : (n : Nat) → Option (Array UInt8)
  | 0 => some rows
  | n + 1 =>
    match s.rgbaRow y 0 rows s.width with
    | none => none
    | some rows => rgbaRows s (y + 1) rows n

/-- The colours of the surface as seen, four bytes a pixel, row by row. -/
def toRgba8 (s : Surface) : Except Failure (Array UInt8) :=
  if s.width * s.height * 4 < Offset.bound then
    match s.rgbaRows 0 #[] s.height with
    | some bytes => return bytes
    | none => throw .fault
  else
    throw .fault

/-- The surface as an image; `none` if a side does not fit 32 bits. -/
def toImage? (s : Surface) : Except Failure (Option Image) :=
  if s.width < UInt32.size ∧ s.height < UInt32.size then do
    return some ⟨s.width, s.height, ← s.toRgba8⟩
  else
    return none

end Surface

end Raster
