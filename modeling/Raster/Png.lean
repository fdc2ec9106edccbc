import Raster.Surface.Image

/-!
# PNG files

An image becomes one data chunk of uncompressed blocks. Every line of pixels starts with a zero,
which says that the line is not filtered.
-/

namespace Raster.Png

/-- A number in four bytes, the highest first. -/
def word (n : UInt32) : ByteArray :=
  ⟨#[(n >>> 24).toUInt8, (n >>> 16).toUInt8, (n >>> 8).toUInt8, n.toUInt8]⟩

/-! ### Checksums -/

/-- One bit of the division behind the cyclic redundancy check. -/
def divideBit (c : UInt32) : UInt32 :=
  if c &&& 1 = 1 then (0xEDB88320 : UInt32) ^^^ (c >>> 1) else c >>> 1

/-- The remainders of all single bytes. -/
def remainders : Array UInt32 :=
  (Array.range 256).map fun i => (List.range 8).foldl (fun c _ => divideBit c) i.toUInt32

def divideByte (c : UInt32) (b : UInt8) : UInt32 :=
  remainders.getD ((c ^^^ b.toUInt32) &&& 0xFF).toNat 0 ^^^ (c >>> 8)

/-- The cyclic redundancy check of a chunk. -/
def redundancy (bytes : ByteArray) : UInt32 :=
  bytes.data.foldl divideByte 0xFFFFFFFF ^^^ 0xFFFFFFFF

/-- The checksum of uncompressed data: the sum of the bytes, and the sum of all such sums. -/
def sums (bytes : ByteArray) : UInt32 :=
  let (low, high) := bytes.data.foldl add (1, 0)
  (high <<< 16) ||| low
where
  add (s : UInt32 × UInt32) (b : UInt8) : UInt32 × UInt32 :=
    let low := (s.1 + b.toUInt32) % 65521
    (low, (s.2 + low) % 65521)

/-! ### Chunks -/

def chunk (kind : String) (data : ByteArray) : ByteArray :=
  let body := kind.toUTF8 ++ data
  word data.size.toUInt32 ++ body ++ word (redundancy body)

/-- The most bytes that a block holds. -/
def blockSize : Nat := 65535

/-- The data from `start` on, in `n` blocks after which there is one more. -/
def blocks (data : ByteArray) (start : Nat) : (n : Nat) → ByteArray
  | 0 => block 1 (data.extract start data.size)
  | n + 1 => block 0 (data.extract start (start + blockSize)) ++ blocks data (start + blockSize) n
where
  /-- A block with its size and the complement of that. -/
  block (last : UInt8) (bytes : ByteArray) : ByteArray :=
    let size := bytes.size.toUInt16
    let rest := size ^^^ 0xFFFF
    ⟨#[last, size.toUInt8, (size >>> 8).toUInt8, rest.toUInt8, (rest >>> 8).toUInt8]⟩ ++ bytes

def compressed (data : ByteArray) : ByteArray :=
  ⟨#[0x78, 0x01]⟩ ++ blocks data 0 ((data.size - 1) / blockSize) ++ word (sums data)

/-- The lines of an image. -/
def lines (i : Image) : ByteArray :=
  (List.range i.height).foldl
    (fun out y => (out.push 0) ++ ⟨i.rgba.extract (4 * i.width * y) (4 * i.width * (y + 1))⟩) .empty

def signature : ByteArray := ⟨#[137, 80, 78, 71, 13, 10, 26, 10]⟩

/-- The size of an image, and that it has four channels of eight bits. -/
def header (i : Image) : ByteArray :=
  word i.width.toUInt32 ++ word i.height.toUInt32 ++ ⟨#[8, 6, 0, 0, 0]⟩

def encode (i : Image) : ByteArray :=
  signature ++ chunk "IHDR" (header i) ++ chunk "IDAT" (compressed (lines i)) ++ chunk "IEND" .empty

end Raster.Png
