import Raster.Failure
import Raster.Pixel
import Raster.Rotation

/-!
# Surfaces

A surface is a layout over a block of bytes. The layout gives the native size, the distances
between scanlines, the pixel format and the rotation through which the surface is seen. A
surface exists only over storage that covers every pixel of its layout.
-/

namespace Raster

structure Layout where
  nativeWidth : Nat
  nativeHeight : Nat
  /-- Pixels from one scanline to the next. -/
  pixelStride : Nat
  /-- Bytes from one scanline to the next. -/
  stride : Nat
  format : PixelFormat
  rotation : Rotation
  deriving DecidableEq, Repr

namespace Layout

/-- The width as seen through the rotation. -/
def width (l : Layout) : Nat := (l.rotation.logicalSize l.nativeWidth l.nativeHeight).1

/-- The height as seen through the rotation. -/
def height (l : Layout) : Nat := (l.rotation.logicalSize l.nativeWidth l.nativeHeight).2

/-- The whole surface as a logical rectangle. -/
def bounds (l : Layout) : Rect := .sized l.width l.height

/-- The bytes of one pixel. -/
def pixelBytes (l : Layout) : Nat := l.format.bytes

/-- The bytes that the pixels span: the last scanline ends with its last pixel. -/
def neededBytes (l : Layout) : Nat :=
  if l.nativeWidth = 0 ∨ l.nativeHeight = 0 then 0
  else l.stride * (l.nativeHeight - 1) + l.nativeWidth * l.pixelBytes

/-- Scanlines do not overlap, and the storage covers every pixel. -/
structure Fits (l : Layout) (size : Nat) : Prop where
  width_le : l.nativeWidth ≤ l.pixelStride
  pixelStride_le : l.pixelStride * l.pixelBytes ≤ l.stride
  needed_le : l.neededBytes ≤ size
  size_lt : size < Offset.bound

def addressing? (l : Layout) : Option Addressing :=
  Addressing.of? l.rotation l.nativeWidth l.nativeHeight l.stride l.pixelBytes

/-- The byte offset of the logical point `(x, y)`. -/
def offset? (l : Layout) (x y : Nat) : Option Nat := do (← l.addressing?).offset? x y

/-- The native rectangle that a logical one shows. -/
def nativeRect? (l : Layout) (r : Rect) : Option Rect :=
  l.rotation.mapRect? r l.nativeWidth l.nativeHeight

/-- The byte offset of a native column and row. -/
def nativeOffset? (l : Layout) (column row : Nat) : Option Nat := do
  Word.add (← Word.mul row l.stride) (← Word.mul column l.pixelBytes)

/-- The description of a surface with this layout. -/
def describe (l : Layout) : String :=
  s!"BlitBuffer \x7b width: {l.nativeWidth}, height: {l.nativeHeight}, " ++
  s!"pixel_stride: {l.pixelStride}, stride: {l.stride}, format: {l.format.label}, " ++
  s!"rotation: {l.rotation.label}, .. \x7d"

end Layout

structure Surface extends Layout where
  data : Array UInt8
  fits : toLayout.Fits data.size

/-- The bytes of `data` with those from `start` on replaced by `bytes`, as far as there are
any. -/
def splice (data : Array UInt8) (start : Nat) : List UInt8 → Array UInt8
  | [] => data
  | b :: bytes => splice (data.setIfInBounds start b) (start + 1) bytes

@[simp]
theorem size_splice (data : Array UInt8) (start : Nat) (bytes : List UInt8) :
    (splice data start bytes).size = data.size := by
  induction bytes generalizing data start with
  | nil => rfl
  | cons b bytes ih => rw [splice, ih, Array.size_setIfInBounds]

namespace Surface

/-- A surface over given storage, upright. -/
def ofParts (data : Array UInt8) (width height pixelStride stride : Nat)
    (format : PixelFormat) : Except Failure Surface := do
  let layout : Layout := ⟨width, height, pixelStride, stride, format, .upright⟩
  if hw : pixelStride < width then
    let some given := Word.mul pixelStride format.bytes | throw .fault
    let some least := Word.mul width format.bytes | throw .fault
    throw (.refused (.invalidStride given least))
  else
    let some least := Word.mul pixelStride format.bytes | throw .fault
    if hs : stride < pixelStride * format.bytes then
      throw (.refused (.invalidStride stride least))
    else
      let some needed := Word.fit layout.neededBytes | throw .fault
      if hn : data.size < layout.neededBytes then
        throw (.refused (.bufferTooSmall needed data.size))
      else if hd : data.size < Offset.bound then
        return { layout with
          data
          fits := ⟨Nat.le_of_not_lt hw, Nat.le_of_not_lt hs, Nat.le_of_not_lt hn, hd⟩ }
      else
        throw .fault

/-- A surface whose scanlines are `pixelStride` pixels apart. -/
def withPixelStride (data : Array UInt8) (width height pixelStride : Nat)
    (format : PixelFormat) : Except Failure Surface :=
  match Word.mul pixelStride format.bytes with
  | none => throw .fault
  | some stride => ofParts data width height pixelStride stride format

/-- A surface whose scanlines follow each other without a gap. -/
def new (data : Array UInt8) (width height : Nat) (format : PixelFormat) :
    Except Failure Surface :=
  withPixelStride data width height width format

/-- The layout of a surface whose scanlines follow each other without a gap. -/
def packed (width height : Nat) (format : PixelFormat) : Layout :=
  ⟨width, height, width, width * format.bytes, format, .upright⟩

theorem packed_fits {width height : Nat} {format : PixelFormat}
    (h : width * format.bytes * height < Offset.bound) :
    (packed width height format).Fits (width * format.bytes * height) where
  width_le := Nat.le_refl _
  pixelStride_le := Nat.le_refl _
  needed_le := by
    by_cases hz : width = 0 ∨ height = 0
    · exact Nat.le_trans (Nat.le_of_eq (if_pos hz)) (Nat.zero_le _)
    · refine Nat.le_of_eq ((if_neg hz).trans ?_)
      show width * format.bytes * (height - 1) + width * format.bytes = _
      rw [← Nat.mul_succ, show (height - 1).succ = height by omega]
  size_lt := h

/-- A zeroed surface with storage of its own. -/
def alloc (width height : Nat) (format : PixelFormat) : Except Failure Surface :=
  if width * format.bytes < Word.bound then
    if h : width * format.bytes * height < Offset.bound then
      return {
        packed width height format with
        data := Array.replicate (width * format.bytes * height) 0
        fits := by rw [Array.size_replicate]; exact packed_fits h }
    else
      throw .fault
  else
    throw .fault

/-- The same storage seen through another rotation. -/
def rotated (s : Surface) (r : Rotation) : Surface :=
  { s with rotation := r, fits := ⟨s.fits.1, s.fits.2, s.fits.3, s.fits.4⟩ }

/-- The surface with the bytes from `start` on replaced. -/
def putBytes (s : Surface) (start : Nat) (bytes : List UInt8) : Surface :=
  { s with data := splice s.data start bytes, fits := by rw [size_splice]; exact s.fits }

/-- The `n` bytes from `start` on; `none` if they reach past the storage. -/
def bytes? (s : Surface) (start n : Nat) : Option (List UInt8) :=
  if start + n ≤ s.data.size then some (s.data.extract start (start + n)).toList else none

/-- The pixel at the logical point `(x, y)`; `none` outside the surface. -/
def pixel? (s : Surface) (x y : Nat) : Option Pixel :=
  if x < s.width ∧ y < s.height then do Pixel.read? s.format s.data (← s.offset? x y) else none

end Surface

end Raster
