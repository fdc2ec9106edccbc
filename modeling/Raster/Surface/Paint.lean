import Raster.Surface.Basic

/-!
# Painting

A `Paint` computation reads and changes one surface. When it fails, the surface stays as it was
at that moment, so that "a failure changes nothing" is a statement about a computation and not
a property of the model.
-/

namespace Raster

abbrev Paint := EStateM Failure Surface

/-- The outcome of a computation on the surface, and the surface afterwards. -/
def Surface.paint {α : Type} (s : Surface) (p : Paint α) : Except Failure α × Surface :=
  match p.run s with
  | .ok a s' => (.ok a, s')
  | .error e s' => (.error e, s')

namespace Surface

/-- Changes the `n` pixels stored one after the other in `data` from `start` on. -/
def mapStored (format : PixelFormat) (f : Pixel → Pixel) (data : Array UInt8) (start : Nat) :
    (n : Nat) → Array UInt8
  | 0 => data
  | n + 1 =>
    let p := Pixel.ofBytes format fun i => data.getD (start + i) 0
    mapStored format f (splice data start (f p).toBytes) (start + format.bytes) n

@[simp]
theorem size_mapStored (format : PixelFormat) (f : Pixel → Pixel) (data : Array UInt8)
    (start n : Nat) : (mapStored format f data start n).size = data.size := by
  induction n generalizing data start with
  | zero => rfl
  | succ n ih => rw [mapStored, ih, size_splice]

/-- The surface with `n` pixels, stored one after the other from `start` on, changed. -/
def mapPixels (s : Surface) (f : Pixel → Pixel) (start n : Nat) : Surface :=
  { s with
    data := mapStored s.format f s.data start n
    fits := by rw [size_mapStored]; exact s.fits }

end Surface

namespace Paint

/-- The value, or a fault if there is none. -/
def ofOption {α : Type} : Option α → Paint α
  | some a => pure a
  | none => throw .fault

/-- A fault unless `p` holds. -/
def require (p : Prop) [Decidable p] : Paint Unit := if p then pure () else throw .fault

def refuse (cause : Refusal) : Paint Unit := throw (.refused cause)

/-- Runs `step` on `count` numbers from `start` upward. -/
@[specialize]
def forEach (step : Nat → Paint Unit) (start : Nat) : (count : Nat) → Paint Unit
  | 0 => pure ()
  | count + 1 => do
    step start
    forEach step (start + 1) count

/-! ### Single pixels -/

/-- Replaces the bytes from `start` on, all of which must exist. -/
def overwrite (start : Nat) (bytes : List UInt8) : Paint Unit := do
  require (start + bytes.length ≤ (← get).data.size)
  modify (·.putBytes start bytes)

/-- The pixel stored from `start` on. -/
def pixelFrom (start : Nat) : Paint Pixel := do
  let s ← get
  ofOption (Pixel.read? s.format s.data start)

/-- The pixel at a point of the surface. -/
def pixel (x y : Nat) : Paint Pixel := do ofOption ((← get).pixel? x y)

/-- Replaces the pixel at a point of the surface. -/
def putPixel (x y : Nat) (p : Pixel) : Paint Unit := do
  let l := (← get).toLayout
  require (x < l.width ∧ y < l.height)
  overwrite (← ofOption (l.offset? x y)) p.toBytes

/-- Replaces the pixel at a point of the surface by the colour. -/
def setPixel (x y : Nat) (c : Rgba) : Paint Unit := do
  putPixel x y (.ofRgba (← get).format c)

/-- Runs `p` at a point of the surface and does nothing elsewhere. -/
def clamped (x y : Int) (p : Nat → Nat → Paint Unit) : Paint Unit := do
  let l := (← get).toLayout
  if 0 ≤ x ∧ 0 ≤ y ∧ x.toNat < l.width ∧ y.toNat < l.height then p x.toNat y.toNat

def putClamped (x y : Int) (p : Pixel) : Paint Unit := clamped x y fun x y => putPixel x y p

def setPixelClamped (x y : Int) (c : Rgba) : Paint Unit := do
  putClamped x y (.ofRgba (← get).format c)

/-- Replaces one byte of the storage. -/
def poke (index : Nat) (byte : UInt8) : Paint Unit := overwrite index [byte]

end Paint

end Raster
