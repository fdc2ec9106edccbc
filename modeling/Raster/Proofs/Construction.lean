import Mathlib.Tactic.Set
import Raster.Proofs.TightAddressing

/-!
# Which descriptors are accepted

The constructors of a surface compare sizes that are worked out in words. In exact arithmetic, a
descriptor is accepted exactly when its scanlines lie apart and the storage reaches its last
pixel, and a refusal names the first comparison that fails. An attempt faults exactly when a
number that it needs, be it only for the text of a refusal, does not fit a word.
-/

namespace Raster

theorem Word.fit_of_ge {n : Nat} (h : bound ≤ n) : fit n = none :=
  if_neg (Nat.not_lt_of_le h)

namespace Layout

/-- Scanlines do not overlap, and the storage reaches the last pixel, counted in bytes. -/
def Sound (l : Layout) (size : Nat) : Prop :=
  l.nativeWidth * l.pixelBytes ≤ l.pixelStride * l.pixelBytes ∧
  l.pixelStride * l.pixelBytes ≤ l.stride ∧
  (l.nativeWidth = 0 ∨ l.nativeHeight = 0 ∨
    l.stride * (l.nativeHeight - 1) + l.nativeWidth * l.pixelBytes ≤ size)

/-- Why storage of this size is refused: the first comparison that fails, with both its sides. -/
def refusal? (l : Layout) (size : Nat) : Option Refusal :=
  if l.pixelStride < l.nativeWidth then
    some (.invalidStride (l.pixelStride * l.pixelBytes) (l.nativeWidth * l.pixelBytes))
  else if l.stride < l.pixelStride * l.pixelBytes then
    some (.invalidStride l.stride (l.pixelStride * l.pixelBytes))
  else if size < l.neededBytes then
    some (.bufferTooSmall l.neededBytes size)
  else
    none

/-- The greatest of the numbers that are worked out on the way to the first failing comparison. -/
def reach (l : Layout) : Nat :=
  if l.pixelStride < l.nativeWidth then
    l.nativeWidth * l.pixelBytes
  else if l.stride < l.pixelStride * l.pixelBytes then
    l.pixelStride * l.pixelBytes
  else
    max (l.pixelStride * l.pixelBytes) l.neededBytes

variable {l : Layout} {size : Nat}

theorem needed_le_iff : l.neededBytes ≤ size ↔ l.nativeWidth = 0 ∨ l.nativeHeight = 0 ∨
    l.stride * (l.nativeHeight - 1) + l.nativeWidth * l.pixelBytes ≤ size := by
  rw [neededBytes]
  split <;> grind

theorem refusal?_eq_none_iff : l.refusal? size = none ↔ l.Sound size := by
  rw [Sound, Nat.mul_le_mul_right_iff l.pixelBytes_pos, ← needed_le_iff, refusal?]
  split
  case isTrue h => exact iff_of_false nofun fun hs => by omega
  case isFalse =>
    split
    case isTrue h => exact iff_of_false nofun fun hs => by omega
    case isFalse =>
      split
      case isTrue h => exact iff_of_false nofun fun hs => by omega
      case isFalse => exact iff_of_true rfl (by omega)

theorem pixelStride_le_reach : l.pixelStride * l.pixelBytes ≤ l.reach := by
  rw [reach]
  split
  case isTrue h => exact Nat.mul_le_mul_right _ (Nat.le_of_lt h)
  case isFalse =>
    split
    case isTrue => exact Nat.le_refl _
    case isFalse => exact Nat.le_max_left ..

theorem Fits.sound (h : l.Fits size) : l.Sound size :=
  ⟨Nat.mul_le_mul_right _ h.width_le, h.pixelStride_le, needed_le_iff.mp h.needed_le⟩

theorem Sound.reach_lt (h : l.Sound size) (hstride : l.stride < Word.bound)
    (hsize : size < Offset.bound) : l.reach < Word.bound := by
  obtain ⟨hwidth, hpixelStride, hneeded⟩ := h
  rw [← needed_le_iff] at hneeded
  have hword := Offset.bound_lt_word
  rw [reach]
  split
  case isTrue => omega
  case isFalse =>
    rw [if_neg (Nat.not_lt_of_le hpixelStride)]
    exact Nat.max_lt.mpr ⟨by omega, by omega⟩

/-- How an attempt to lay out some storage ends. -/
structure Builds (l : Layout) (data : Array UInt8) (result : Except Failure Surface) : Prop where
  accepted : (∃ s, result = .ok s) ↔ l.stride < Word.bound ∧ l.Sound data.size
  refused : ∀ cause, result = .error (.refused cause) ↔
    l.reach < Word.bound ∧ l.refusal? data.size = some cause
  fault : result = .error .fault ↔ Word.bound ≤ l.reach
  surface : ∀ s, result = .ok s → s.toLayout = l ∧ s.data = data

namespace Builds

variable {data : Array UInt8}

theorem of_reach (h : Word.bound ≤ l.reach) (hsize : data.size < Offset.bound) :
    l.Builds data (.error .fault) where
  accepted := iff_of_false nofun fun ⟨hstride, hs⟩ =>
    Nat.not_lt_of_le h (hs.reach_lt hstride hsize)
  refused _ := iff_of_false nofun fun hr => Nat.not_lt_of_le h hr.1
  fault := iff_of_true rfl h
  surface _ := nofun

theorem of_refusal {cause : Refusal} (h : l.reach < Word.bound)
    (hr : l.refusal? data.size = some cause) : l.Builds data (.error (.refused cause)) where
  accepted := iff_of_false nofun fun ⟨_, hs⟩ => by
    rw [refusal?_eq_none_iff.mpr hs] at hr
    cases hr
  refused cause' := by
    rw [hr]
    exact ⟨fun e => by cases e; exact ⟨h, rfl⟩, fun ⟨_, e⟩ => by cases e; rfl⟩
  fault := iff_of_false nofun (Nat.not_le_of_lt h)
  surface _ := nofun

theorem of_fits (fits : l.Fits data.size) (hstride : l.stride < Word.bound) :
    l.Builds data (.ok ⟨l, data, fits⟩) where
  accepted := iff_of_true ⟨_, rfl⟩ ⟨hstride, fits.sound⟩
  refused _ := iff_of_false nofun fun hr => by
    rw [refusal?_eq_none_iff.mpr fits.sound] at hr
    cases hr.2
  fault := iff_of_false nofun (Nat.not_le_of_lt (fits.sound.reach_lt hstride fits.size_lt))
  surface _ e := by cases e; exact ⟨rfl, rfl⟩

end Builds

end Layout

namespace Surface

open Layout

variable {data : Array UInt8} {width height pixelStride stride : Nat} {format : PixelFormat}

theorem ofParts_builds_narrow (hsize : data.size < Offset.bound) (h : pixelStride < width) :
    Builds ⟨width, height, pixelStride, stride, format, .upright⟩ data
      (ofParts data width height pixelStride stride format) := by
  have hless : pixelStride * format.bytes ≤ width * format.bytes :=
    Nat.mul_le_mul_right _ (Nat.le_of_lt h)
  have hreach : reach ⟨width, height, pixelStride, stride, format, .upright⟩ =
      width * format.bytes := if_pos h
  rw [ofParts, dif_pos h]
  rcases Nat.lt_or_ge (width * format.bytes) Word.bound with hfit | hout
  · rw [Word.mul_of_lt hfit, Word.mul_of_lt (Nat.lt_of_le_of_lt hless hfit)]
    exact .of_refusal (hreach ▸ hfit) (if_pos h)
  · rw [show Word.mul width format.bytes = none from Word.fit_of_ge hout]
    cases Word.mul pixelStride format.bytes <;> exact .of_reach (hreach ▸ hout) hsize

theorem ofParts_builds_dense (hsize : data.size < Offset.bound) (hwidth : width ≤ pixelStride)
    (h : stride < pixelStride * format.bytes) :
    Builds ⟨width, height, pixelStride, stride, format, .upright⟩ data
      (ofParts data width height pixelStride stride format) := by
  have hwide := Nat.not_lt_of_le hwidth
  have hreach : reach ⟨width, height, pixelStride, stride, format, .upright⟩ =
      pixelStride * format.bytes := (if_neg hwide).trans (if_pos h)
  rw [ofParts, dif_neg hwide]
  rcases Nat.lt_or_ge (pixelStride * format.bytes) Word.bound with hfit | hout
  · rw [Word.mul_of_lt hfit]
    dsimp only
    rw [dif_pos h]
    exact .of_refusal (hreach ▸ hfit) ((if_neg hwide).trans (if_pos h))
  · rw [show Word.mul pixelStride format.bytes = none from Word.fit_of_ge hout]
    exact .of_reach (hreach ▸ hout) hsize

theorem ofParts_builds_spaced (hstride : stride < Word.bound) (hsize : data.size < Offset.bound)
    (hwidth : width ≤ pixelStride) (h : pixelStride * format.bytes ≤ stride) :
    Builds ⟨width, height, pixelStride, stride, format, .upright⟩ data
      (ofParts data width height pixelStride stride format) := by
  have hwide := Nat.not_lt_of_le hwidth
  have hfar := Nat.not_lt_of_le h
  have hline : pixelStride * format.bytes < Word.bound := Nat.lt_of_le_of_lt h hstride
  rw [ofParts, dif_neg hwide, Word.mul_of_lt hline]
  dsimp only
  rw [dif_neg hfar]
  set l : Layout := ⟨width, height, pixelStride, stride, format, .upright⟩
  have hreach : l.reach = max (pixelStride * format.bytes) l.neededBytes :=
    (if_neg hwide).trans (if_neg hfar)
  have hrefusal : l.refusal? data.size =
      if data.size < l.neededBytes then some (.bufferTooSmall l.neededBytes data.size)
      else none :=
    (if_neg hwide).trans (if_neg hfar)
  rcases Nat.lt_or_ge l.neededBytes Word.bound with hfit | hout
  · have hlt : l.reach < Word.bound := hreach ▸ Nat.max_lt.mpr ⟨hline, hfit⟩
    rw [Word.fit_eq_some_iff.mpr ⟨hfit, rfl⟩]
    dsimp only
    by_cases hn : data.size < l.neededBytes
    · rw [dif_pos hn]
      exact .of_refusal hlt (hrefusal.trans (if_pos hn))
    · rw [dif_neg hn, dif_pos hsize]
      exact .of_fits _ hstride
  · rw [Word.fit_of_ge hout]
    exact .of_reach (hreach ▸ Nat.le_trans hout (Nat.le_max_right ..)) hsize

theorem ofParts_builds (hstride : stride < Word.bound) (hsize : data.size < Offset.bound) :
    Builds ⟨width, height, pixelStride, stride, format, .upright⟩ data
      (ofParts data width height pixelStride stride format) := by
  rcases Nat.lt_or_ge pixelStride width with hnarrow | hwidth
  · exact ofParts_builds_narrow hsize hnarrow
  rcases Nat.lt_or_ge stride (pixelStride * format.bytes) with hdense | hspaced
  · exact ofParts_builds_dense hsize hwidth hdense
  · exact ofParts_builds_spaced hstride hsize hwidth hspaced

theorem withPixelStride_builds (hsize : data.size < Offset.bound) :
    Builds ⟨width, height, pixelStride, pixelStride * format.bytes, format, .upright⟩ data
      (withPixelStride data width height pixelStride format) := by
  rw [withPixelStride]
  rcases Nat.lt_or_ge (pixelStride * format.bytes) Word.bound with hfit | hout
  · rw [Word.mul_of_lt hfit]
    exact ofParts_builds hfit hsize
  · rw [show Word.mul pixelStride format.bytes = none from Word.fit_of_ge hout]
    exact .of_reach (Nat.le_trans hout (pixelStride_le_reach (l := ⟨width, height, pixelStride,
      pixelStride * format.bytes, format, .upright⟩))) hsize

/-- Each constructor accepts the sound descriptors and refuses the others by the first comparison
that fails, as far as the numbers for it fit a word; where one does not, the attempt faults. -/
theorem constructors_build (data : Array UInt8) (width height pixelStride stride : Nat)
    (format : PixelFormat) (hstride : stride < Word.bound) (hsize : data.size < Offset.bound) :
    Builds ⟨width, height, pixelStride, stride, format, .upright⟩ data
      (ofParts data width height pixelStride stride format) ∧
    Builds ⟨width, height, pixelStride, pixelStride * format.bytes, format, .upright⟩ data
      (withPixelStride data width height pixelStride format) ∧
    Builds (packed width height format) data (new data width height format) :=
  ⟨ofParts_builds hstride hsize, withPixelStride_builds hsize, withPixelStride_builds hsize⟩

/-- The last of three scanlines may be cut off behind its last pixel. -/
theorem constructors_build_cut :
    Builds ⟨5, 3, 8, 9, .gray8, .upright⟩ (.replicate 23 0)
      (ofParts (.replicate 23 0) 5 3 8 9 .gray8) ∧
    Builds ⟨5, 3, 8, 8, .gray8, .upright⟩ (.replicate 23 0)
      (withPixelStride (.replicate 23 0) 5 3 8 .gray8) ∧
    Builds (packed 5 3 .gray8) (.replicate 23 0) (new (.replicate 23 0) 5 3 .gray8) :=
  constructors_build (.replicate 23 0) 5 3 8 9 .gray8 (by decide) (by decide)

/-- Not every descriptor gets an answer: the last scanline of this one would start where no word
reaches. -/
theorem not_all_answered :
    ¬ ∀ (data : Array UInt8) (width height pixelStride stride : Nat) (format : PixelFormat),
      width < Word.bound → height < Word.bound → pixelStride < Word.bound →
      stride < Word.bound → data.size < Offset.bound →
      (∃ s, ofParts data width height pixelStride stride format = .ok s) ∨
        ∃ cause, ofParts data width height pixelStride stride format =
          .error (.refused cause) := by
  intro h
  have hfault : ofParts #[0] 1 0x8000_0000_0000_0001 1 2 .gray8a = .error .fault := rfl
  rcases h #[0] 1 0x8000_0000_0000_0001 1 2 .gray8a (by decide) (by decide) (by decide)
    (by decide) (by decide) with ⟨s, hs⟩ | ⟨cause, hc⟩
  · cases hfault.symm.trans hs
  · cases hfault.symm.trans hc

end Surface

end Raster
