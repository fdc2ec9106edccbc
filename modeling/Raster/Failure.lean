import Raster.PixelFormat
import Raster.Rect

/-! # What can go wrong on a surface -/

namespace Raster

/-- Why a surface, a rotation or an operator is refused. -/
inductive Refusal where
  /-- A two-surface operator does not support this pair of formats. -/
  | incompatibleFormats (op : String) (destination source : PixelFormat)
  /-- An operator does not support surfaces of this format. -/
  | unsupportedFormat (op : String) (format : PixelFormat)
  | bufferTooSmall (needed actual : Nat)
  | invalidStride (stride least : Nat)
  /-- A far edge of the rectangle does not fit a word. -/
  | invalidRect (op : String) (rect : Rect)
  | invalidRotation (turns : Nat)
  deriving DecidableEq, Repr

namespace Refusal

def message : Refusal → String
  | incompatibleFormats op destination source =>
    s!"incompatible formats in {op} (dst: {destination.name}, src: {source.name})"
  | unsupportedFormat op format => s!"{op} does not support {format.name} surfaces"
  | bufferTooSmall needed actual => s!"buffer too small: need {needed} bytes, got {actual}"
  | invalidStride stride least =>
    s!"invalid stride: {stride} is less than the minimum of {least}"
  | invalidRect op rect => s!"{op}: rectangle {rect.describe} overflows the coordinate space"
  | invalidRotation turns => s!"invalid rotation {turns} (expected 0..=3)"

end Refusal

/-- How a call on a surface ends when it does not succeed. -/
inductive Failure where
  /-- The call was not allowed to start: a coordinate or size outgrew its word, an access lay
  outside the surface, or more storage was asked for than can exist. -/
  | fault
  /-- The call was well formed but has no meaning for these surfaces. -/
  | refused (cause : Refusal)
  deriving DecidableEq, Repr

end Raster
