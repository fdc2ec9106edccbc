import Raster.Proofs.PixelAccess
import Raster.Proofs.SingleLine
import Raster.Proofs.TightAddressing

/-!
# Accepted surfaces

The checks of a constructor bound everything but the distance between scanlines of a surface that
has only one. Addresses that run backwards over the scanlines need the negative of that distance,
and there is one word whose negative is no offset. All other accepted surfaces can be read and
written at each of their points.
-/

namespace Raster

theorem Offset.isSome_neg_signed {n : Nat} (hn : n < Word.bound) :
    (neg (Word.signed n)).isSome = true ↔ n ≠ bound := by
  have hhalf : Word.bound / 2 = bound := by decide
  have hdouble := add_bound
  rw [neg, fit, Word.signed, hhalf]
  by_cases hlow : n < bound
  · rw [if_pos hlow, if_pos (by omega), Option.isSome_some]
    exact iff_of_true rfl (by omega)
  · rw [if_neg hlow]
    by_cases hmin : n = bound
    · rw [if_neg (by omega), Option.isSome_none]
      exact iff_of_false Bool.false_ne_true (not_not_intro hmin)
    · rw [if_pos (by omega), Option.isSome_some]
      exact iff_of_true rfl hmin

/-- Whether addresses run backwards over the scanlines, by the negative of their distance. -/
def Rotation.runsBackwards : Rotation → Bool
  | upsideDown | counterClockwise => true
  | upright | clockwise => false

theorem Addressing.isSome_of?_line {r : Rotation} {w stride bytes : Nat} (hw : 0 < w)
    (hbytes : 0 < bytes) (hline : w * bytes < Offset.bound) (hstride : stride < Word.bound) :
    (of? r w 1 stride bytes).isSome = true ↔
      ¬ (stride = Offset.bound ∧ r.runsBackwards = true) := by
  have hwidth : w < Offset.bound :=
    Nat.lt_of_le_of_lt (Nat.le_mul_of_pos_right w hbytes) hline
  have hpixel : bytes < Offset.bound :=
    Nat.lt_of_le_of_lt (Nat.le_mul_of_pos_left bytes hw) hline
  have hlast : (w - 1) * bytes < Offset.bound :=
    Nat.lt_of_le_of_lt (Nat.mul_le_mul_right bytes (Nat.sub_le w 1)) hline
  have hcolumn : Offset.sub (w : Int) 1 = some ((w - 1 : Nat) : Int) := by
    rw [Offset.sub, Offset.fit_eq (by omega) (by omega)]
    exact congrArg some (by omega)
  have hrow : Offset.sub (Word.signed 1) 1 = some 0 := by decide
  have hmax : max ((w - 1 : Nat) : Int) 0 = ((w - 1 : Nat) : Int) :=
    Int.max_eq_left (Int.natCast_nonneg _)
  have hstill (step : Int) : Offset.mul 0 step = some 0 := by
    rw [Offset.mul, Int.zero_mul]
    rfl
  have hsum : Offset.add 0 (((w - 1) * bytes : Nat) : Int) =
      some (((w - 1) * bytes : Nat) : Int) := by
    rw [Offset.add, Int.zero_add, Offset.fit_eq (by omega) (by omega)]
  have hback := Offset.isSome_neg_signed hstride
  unfold of?
  simp only [Word.signed_of_lt hwidth, Word.signed_of_lt hpixel, hcolumn, hrow, hmax,
    Int.max_self, Option.bind_eq_bind, Option.bind_some]
  cases r with
  | upright => simp [Rotation.runsBackwards]
  | clockwise =>
      dsimp only
      rw [Offset.mul_natCast hlast, Offset.neg_natCast hpixel]
      simp [Rotation.runsBackwards]
  | upsideDown =>
      dsimp only
      rw [hstill, Offset.mul_natCast hlast, Option.bind_some, Option.bind_some, hsum,
        Offset.neg_natCast hpixel]
      simpa [Rotation.runsBackwards, Option.isSome_bind] using hback
  | counterClockwise =>
      dsimp only
      rw [hstill]
      simpa [Rotation.runsBackwards, Option.isSome_bind] using hback

namespace Surface

/-- The point can be read, and written with any colour. -/
def IsServed (s : Surface) (x y : Nat) : Prop :=
  (∃ c, s.color? x y = some c) ∧ ∀ c, ∃ t, s.paint (Paint.setPixel x y c) = (.ok (), t)

variable {s : Surface} {x y : Nat}

theorem isSome_addressing? (hw : 0 < s.nativeWidth) (hh : 0 < s.nativeHeight)
    (hstride : s.stride < Word.bound) :
    s.addressing?.isSome = true ↔
      ¬ (s.stride = Offset.bound ∧ s.rotation.runsBackwards = true) := by
  by_cases hline : s.nativeHeight = 1
  · have hsize := singleLine_le_size hline
    rw [Layout.addressing?, hline]
    exact Addressing.isSome_of?_line hw s.pixelBytes_pos
      (Nat.lt_of_le_of_lt hsize s.fits.size_lt) hstride
  · have hshort : s.stride < Offset.bound := by
      by_contra hlong
      exact hline (nativeHeight_eq_one hw hh hlong)
    rw [addressing?_eq ⟨hw, hh, hshort⟩, Option.isSome_some]
    exact iff_of_true rfl fun h => Nat.ne_of_lt hshort h.1

theorem isServed_of_addressed (hs : s.Addressed) (hx : x < s.width) (hy : y < s.height) :
    s.IsServed x y := by
  refine ⟨⟨_, congrArg (Option.map Pixel.toRgba) (pixel?_of_addressed hs hx hy)⟩, fun c => ?_⟩
  obtain ⟨hout, -⟩ := Paint.putPixel_hasEffect hs hx hy (p := .ofRgba s.format c)
    (Pixel.format_ofRgba ..) s rfl
  refine ⟨(s.paint (Paint.setPixel x y c)).2, Prod.ext ?_ rfl⟩
  rw [Paint.setPixel, paint_get_bind]
  exact hout

theorem color?_eq_none (h : s.addressing? = none) (x y : Nat) : s.color? x y = none := by
  rw [color?, pixel?, Layout.offset?, h]
  split <;> rfl

/-- A point of a surface is read and written without a fault unless the distance of its scanlines
has no negative and the rotation needs one. -/
theorem isServed_iff (hstride : s.stride < Word.bound) (hx : x < s.width) (hy : y < s.height) :
    s.IsServed x y ↔ ¬ (s.stride = Offset.bound ∧ s.rotation.runsBackwards = true) := by
  have hnative := Layout.native_lt hx hy
  have hw : 0 < s.nativeWidth := by omega
  have hh : 0 < s.nativeHeight := by omega
  rw [← isSome_addressing? hw hh hstride]
  constructor
  · rintro ⟨⟨c, hc⟩, -⟩
    cases haddressing : s.addressing? with
    | none => rw [color?_eq_none haddressing] at hc; cases hc
    | some a => rfl
  · intro h
    obtain ⟨a, ha⟩ := Option.isSome_iff_exists.mp h
    exact isServed_of_addressed (addressed_of_addressing? hw hh ha) hx hy

/-- Through every rotation, the points of an accepted surface are served, unless there is only
one scanline, the next one would be `2 ^ 63` bytes away, and the rotation runs backwards. -/
theorem ofParts_isServed {data : Array UInt8} {width height pixelStride stride : Nat}
    {format : PixelFormat} (hstride : stride < Word.bound)
    (h : ofParts data width height pixelStride stride format = .ok s) (q : Rotation)
    (hx : x < (s.rotated q).width) (hy : y < (s.rotated q).height) :
    (s.rotated q).IsServed x y ↔ ¬ (stride = Offset.bound ∧ q.runsBackwards = true) := by
  have hline : (s.rotated q).stride = stride := by
    show s.stride = stride
    rw [layout_of_ofParts h]
  rw [isServed_iff (hline ▸ hstride) hx hy, hline]
  rfl

/-- One scanline of two points, the next one as far away as a word can tell. -/
def farthest : Except Failure Surface :=
  ofParts #[1, 2, 3, 4, 5, 6, 7] 2 1 2 0xffff_ffff_ffff_ffff .rgb24

theorem ofParts_isServed_farthest : ∃ s, farthest = .ok s ∧
    ((s.rotated .upsideDown).IsServed 1 0 ↔
      ¬ (0xffff_ffff_ffff_ffff = Offset.bound ∧ Rotation.upsideDown.runsBackwards = true)) := by
  obtain ⟨s, hs, hx, hy⟩ : ∃ s, farthest = .ok s ∧ 1 < (s.rotated .upsideDown).width ∧
      0 < (s.rotated .upsideDown).height := ⟨_, rfl, by decide, by decide⟩
  exact ⟨s, hs, ofParts_isServed (by decide) hs .upsideDown hx hy⟩

theorem not_all_isServed :
    ¬ ∀ (data : Array UInt8) (width height pixelStride stride : Nat) (format : PixelFormat) s,
      stride < Word.bound → ofParts data width height pixelStride stride format = .ok s →
      ∀ (q : Rotation) (x y : Nat), x < (s.rotated q).width → y < (s.rotated q).height →
        (s.rotated q).IsServed x y := by
  intro h
  have hserved := h #[7] 1 1 1 0x8000_0000_0000_0000 .gray8 _ (by decide) rfl .upsideDown 0 0
    (by decide) (by decide)
  obtain ⟨⟨c, hc⟩, -⟩ := hserved
  rw [color?_eq_none (by decide)] at hc
  cases hc

end Surface

end Raster
