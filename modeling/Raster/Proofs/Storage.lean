import Raster.Surface.Paint

/-! # Bytes of the storage: writes, and the pixels read back from them -/

namespace Raster

/-! ## Splices -/

/-- A splice that lies within the storage replaces exactly its own bytes. -/
theorem getElem?_splice (data : Array UInt8) (start : Nat) (bytes : List UInt8) (i : Nat)
    (h : start + bytes.length ≤ data.size) :
    (splice data start bytes)[i]? =
      if start ≤ i ∧ i < start + bytes.length then bytes[i - start]? else data[i]? := by
  induction bytes generalizing data start with
  | nil => simp [splice, show ¬ (start ≤ i ∧ i < start) by omega]
  | cons b bytes ih =>
      simp only [List.length_cons] at h ⊢
      rw [splice, ih _ _ (by rw [Array.size_setIfInBounds]; omega), Array.getElem?_setIfInBounds]
      rcases Nat.lt_trichotomy i start with hi | rfl | hi
      · simp [show ¬ start + 1 ≤ i by omega, show ¬ start ≤ i by omega, show start ≠ i by omega]
      · simp [show ¬ i + 1 ≤ i by omega, show i < data.size by omega]
      · have hsub : i - start = (i - (start + 1)) + 1 := by omega
        by_cases hlt : i < start + 1 + bytes.length
        · simp [show start + 1 ≤ i by omega, show start ≤ i by omega, hlt,
            show i < start + (bytes.length + 1) by omega, hsub]
        · simp [hlt, show ¬ i < start + (bytes.length + 1) by omega, show start ≠ i by omega]

/-! ## Pixels and their bytes -/

namespace Pixel

theorem ofBytes_congr {f : PixelFormat} {a b : Nat → UInt8} (h : ∀ k < f.bytes, a k = b k) :
    ofBytes f a = ofBytes f b := by
  cases f <;> simp only [ofBytes] <;> simp only [PixelFormat.bytes] at h
  all_goals simp [h]

theorem ofBytes_toBytes (p : Pixel) : ofBytes p.format (fun k => p.toBytes.getD k 0) = p := by
  cases p with
  | rgb565 word =>
      have hlt := word.toNat_lt
      have hword : word.toNat % 256 + 256 * (word.toNat / 256) = word.toNat := Nat.mod_add_div _ _
      simp [format, ofBytes, toBytes, hword, show word.toNat / 256 < 256 by omega,
        Nat.mod_eq_of_lt]
  | _ => rfl

theorem toBytes_ofBytes (f : PixelFormat) (byte : Nat → UInt8) :
    (ofBytes f byte).toBytes = (List.range f.bytes).map byte := by
  cases f with
  | rgb565 =>
      have hlow := (byte 0).toNat_lt
      have hhigh := (byte 1).toNat_lt
      have hword : ((byte 0).toNat + 256 * (byte 1).toNat) % 65536 =
          (byte 0).toNat + 256 * (byte 1).toNat := by omega
      have hsecond : ((byte 0).toNat + 256 * (byte 1).toNat) / 256 = (byte 1).toNat := by omega
      simp [ofBytes, toBytes, PixelFormat.bytes, List.range_succ, hword, hsecond]
  | _ => rfl

/-- The pixel whose bytes start at `start`; bytes past the end count as zero. -/
def stored (f : PixelFormat) (data : Array UInt8) (start : Nat) : Pixel :=
  ofBytes f fun k => data.getD (start + k) 0

@[simp] theorem format_stored (f : PixelFormat) (data : Array UInt8) (start : Nat) :
    (stored f data start).format = f :=
  format_ofBytes f _

theorem read?_eq_stored {f : PixelFormat} {data : Array UInt8} {start : Nat}
    (h : start + f.bytes ≤ data.size) : read? f data start = some (stored f data start) :=
  if_pos h

theorem format_of_read? {f : PixelFormat} {data : Array UInt8} {start : Nat} {p : Pixel}
    (h : read? f data start = some p) : p.format = f := by
  rw [read?] at h
  split at h
  · rw [← Option.some.inj h, format_ofBytes]
  · simp at h

theorem stored_congr {f : PixelFormat} {a b : Array UInt8} {i j : Nat}
    (h : ∀ k < f.bytes, a[i + k]? = b[j + k]?) : stored f a i = stored f b j := by
  apply ofBytes_congr
  intro k hk
  simp [Array.getD_eq_getD_getElem?, h k hk]

theorem getElem?_toBytes_stored {f : PixelFormat} {data : Array UInt8} {start k : Nat}
    (h : start + f.bytes ≤ data.size) (hk : k < f.bytes) :
    (stored f data start).toBytes[k]? = data[start + k]? := by
  have hlt : start + k < data.size := by omega
  simp [stored, toBytes_ofBytes, hk, Array.getD, hlt]

/-! ### Reading back after a splice -/

variable {f : PixelFormat} {data : Array UInt8} {start i : Nat} {bytes : List UInt8}
  (hfit : start + bytes.length ≤ data.size)

include hfit

theorem stored_splice_of_apart (h : i + f.bytes ≤ start ∨ start + bytes.length ≤ i) :
    stored f (splice data start bytes) i = stored f data i := by
  apply stored_congr
  intro k hk
  rw [getElem?_splice _ _ _ _ hfit, if_neg (by omega)]

theorem stored_splice_of_within (hlow : start ≤ i) (hhigh : i + f.bytes ≤ start + bytes.length) :
    stored f (splice data start bytes) i = ofBytes f fun k => bytes.getD (i - start + k) 0 := by
  apply ofBytes_congr
  intro k hk
  rw [Array.getD_eq_getD_getElem?, getElem?_splice _ _ _ _ hfit, if_pos (by omega),
    List.getD_eq_getElem?_getD, Nat.sub_add_comm hlow]

end Pixel

end Raster
