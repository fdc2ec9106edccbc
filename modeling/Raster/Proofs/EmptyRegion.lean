import Raster.Proofs.LayoutIndependence
import Raster.Proofs.Refusal

/-!
# Empty rectangles

Most operators return at once from an empty rectangle. Blending at one alpha for all pixels and
copying inverted go through its rows like through those of any other: there is no pixel in them,
but where they are is worked out first. So these two fault where a row has no number, on rectangles
that all the others pass over, and change nothing even then.
-/

namespace Raster

/-- A row of the rectangle, or of a source region that begins in the row `sy`, lies behind the last
word. -/
def Rect.Overshoots (r : Rect) (sy : Nat) : Prop :=
  0 < r.h ∧ (Word.bound < r.y + r.h ∨ Word.bound < sy + r.h)

instance (r : Rect) (sy : Nat) : Decidable (r.Overshoots sy) :=
  inferInstanceAs (Decidable (_ ∧ _))

theorem Rect.cornerBorder?_of_isEmpty {r : Rect} (hempty : r.isEmpty = true) (border radius : Nat) :
    r.cornerBorder? border radius = none := by
  have hsides := Rect.isEmpty_iff.mp hempty
  exact cornerBorder?_eq_none_iff.mpr (by omega)

namespace Effect

variable {r : Rect} {sy : Nat}

theorem forEach_fail {e : Nat → Effect} {cause : Failure} {start count : Nat}
    (h : ∀ i, e i = skip ∨ e i = fail cause)
    (hfail : ∃ i, start ≤ i ∧ i < start + count ∧ e i = fail cause) :
    forEach e start count = fail cause := by
  induction count generalizing start with
  | zero =>
      obtain ⟨i, hlow, hhigh, -⟩ := hfail
      omega
  | succ count ih =>
      rw [forEach]
      rcases h start with hskip | hfirst
      · obtain ⟨i, hlow, hhigh, hi⟩ := hfail
        have hlater : start ≠ i := by
          rintro rfl
          cases hskip.symm.trans hi
        rw [hskip, ih ⟨i, by omega, by omega, hi⟩]
        rfl
      · rw [hfirst]
        rfl

theorem emptyRows_eq : emptyRows r sy =
    ⟨if r.Overshoots sy then .error .fault else .ok (), fun _ _ p => p⟩ := by
  by_cases h : r.Overshoots sy
  · rw [if_pos h]
    refine forEach_fail (fun j => ?_) ⟨r.h - 1, Nat.zero_le _, ?_, if_neg ?_⟩
    · split
      · exact .inl rfl
      · exact .inr rfl
    · have := h.1
      omega
    · obtain ⟨hpos, hout⟩ := h
      omega
  · rw [if_neg h]
    refine forEach_skip fun j _ hj => if_pos ?_
    rw [Rect.Overshoots] at h
    omega

end Effect

namespace Paint

variable {s src : Surface} {r : Rect} {sx sy : Nat} {p : Paint Unit}

theorem HasEffect.paint_eq_self (hs : s.Usable) {out : Except Failure Unit}
    (hp : p.HasEffect s.toLayout ⟨out, fun _ _ q => q⟩) : s.paint p = (out, s) := by
  obtain ⟨hout, hrw⟩ := hp s rfl
  exact Prod.ext hout (hrw.unique (Surface.addressed hs) (.refl s))

theorem paint_combine_of_isEmpty (hs : s.Usable) (hsrc : src.Usable) (hempty : r.isEmpty = true)
    (f : Pixel → Pixel → Nat → Nat → Option Pixel) :
    s.paint (combine src r sx sy f) =
      (if r.Overshoots sy then .error .fault else .ok (), s) := by
  have heffect : (combine src r sx sy f).HasEffect s.toLayout (.emptyRows r sy) :=
    combine_hasEffect_of_empty hs hsrc hempty
  rw [Effect.emptyRows_eq] at heffect
  exact heffect.paint_eq_self hs

/-! ## Operators that return at once -/

theorem paint_unless_isEmpty (hempty : r.isEmpty = true) :
    s.paint (unless r.isEmpty do p) = (.ok (), s) := by
  rw [hempty]
  rfl

theorem paint_unless_isEmpty_or (hempty : r.isEmpty = true) (b : Bool) :
    s.paint (unless r.isEmpty || b do p) = (.ok (), s) := by
  rw [hempty]
  rfl

theorem paint_replaceRect_of_isEmpty (hempty : r.isEmpty = true) (c : Rgba) :
    s.paint (replaceRect r c) = (Refusal.verdict (if s.format.isGray then
      some (.unsupportedFormat "fill_rect_rgb32" s.format) else none), s) := by
  rw [replaceRect, Surface.paint_get_bind, hempty]
  dsimp only
  split <;> rfl

theorem paint_hatchRect_of_isEmpty (hempty : r.isEmpty = true) (stripe : Nat) (v alpha : UInt8) :
    s.paint (hatchRect r stripe v alpha) = (.ok (), s) := by
  rw [hatchRect, hempty]
  rfl

theorem paint_roundedCorner_of_isEmpty (hempty : r.isEmpty = true) (border radius : Nat)
    (v : UInt8) : s.paint (roundedCorner r border radius v) = (.ok (), s) := by
  rw [roundedCorner, Rect.cornerBorder?_of_isEmpty hempty]
  rfl

theorem paint_smoothCorner_of_isEmpty (hempty : r.isEmpty = true) (border radius : Nat)
    (v : UInt8) : s.paint (smoothCorner r border radius v) = (.ok (), s) := by
  rw [smoothCorner, Rect.cornerBorder?_of_isEmpty hempty]
  rfl

theorem paint_blit_of_isEmpty (hempty : r.isEmpty = true) :
    s.paint (blit src r sx sy) = (.ok (), s) :=
  paint_unless_isEmpty hempty

theorem paint_ditherBlit_of_isEmpty (hempty : r.isEmpty = true) :
    s.paint (ditherBlit src r sx sy) = (.ok (), s) := by
  rw [ditherBlit, Surface.paint_get_bind]
  dsimp only
  rw [hempty]
  split
  · rfl
  · exact paint_blit_of_isEmpty hempty

theorem paint_compositeBlit_of_isEmpty (hempty : r.isEmpty = true) (op : String) (mode : AlphaMode)
    (dither : Bool) :
    s.paint (compositeBlit op mode dither src r sx sy) =
      (Refusal.verdict (BlitMode.refusal?.uncomposable s.format src.format op), s) := by
  rw [compositeBlit, Surface.paint_get_bind, BlitMode.refusal?.uncomposable, hempty]
  dsimp only
  split <;> rfl

/-! ## Operators that go through the rows -/

theorem paint_addBlit_of_isEmpty (hs : s.Usable) (hsrc : src.Usable) (hempty : r.isEmpty = true)
    (alpha : UInt8) :
    s.paint (addBlit src r sx sy alpha) =
      (if s.format ≠ src.format then
        .error (.refused (.incompatibleFormats "add_blit_from" s.format src.format))
      else if alpha ≠ 0 ∧ alpha ≠ 255 ∧ r.Overshoots sy then .error .fault else .ok (), s) := by
  rw [addBlit, Surface.paint_get_bind]
  dsimp only
  split
  case isTrue => rfl
  by_cases hzero : alpha = 0
  · rw [if_pos hzero, if_neg fun h => h.1 hzero]
    rfl
  by_cases hfull : alpha = 255
  · rw [if_neg hzero, if_pos hfull, if_neg fun h => h.2.1 hfull]
    exact paint_blit_of_isEmpty hempty
  · rw [if_neg hzero, if_neg hfull, paint_combine_of_isEmpty hs hsrc hempty]
    simp only [hzero, hfull, ne_eq, not_false_eq_true, true_and]

theorem paint_invertBlit_of_isEmpty (hs : s.Usable) (hsrc : src.Usable)
    (hempty : r.isEmpty = true) :
    s.paint (invertBlit src r sx sy) =
      (if s.format ≠ src.format then
        .error (.refused (.incompatibleFormats "invert_blit_from" s.format src.format))
      else if r.Overshoots sy then .error .fault else .ok (), s) := by
  rw [invertBlit, Surface.paint_get_bind]
  dsimp only
  split
  case isTrue => rfl
  case isFalse => exact paint_combine_of_isEmpty hs hsrc hempty _

end Paint

namespace Call

variable {σ : Type}

/-- The rectangle that is to be painted, for the operators that take one. -/
def rect? : Call σ → Option Rect
  | fill _ | setPixel .. | setPixelClamped .. => none
  | fillRect r _ | replaceRect r _ | blendGray r _ | blendColor r _ | multiplyRect r _
  | multiplyBlendRect r _ | invertRect r | hatchRect r _ _ _ | roundedCorner r _ _ _
  | smoothCorner r _ _ _ => some r
  | blit _ r _ _ | ditherBlit _ r _ _ | addBlit _ r _ _ _ | alphaBlit _ r _ _
  | ditherAlphaBlit _ r _ _ | premultipliedBlit _ r _ _ | ditherPremultipliedBlit _ r _ _
  | invertBlit _ r _ _ | maskGray _ r _ _ _ | maskColor _ r _ _ _ => some r

/-- Why the call is refused on a surface of this format, if it is. -/
def refusal? (sources : σ → Surface) (format : PixelFormat) : Call σ → Option Refusal
  | replaceRect _ _ =>
    if format.isGray then some (.unsupportedFormat "fill_rect_rgb32" format) else none
  | addBlit src _ _ _ _ => BlitMode.add.refusal? format (sources src).format
  | invertBlit src _ _ _ => BlitMode.invert.refusal? format (sources src).format
  | alphaBlit src _ _ _ => BlitMode.alpha.refusal? format (sources src).format
  | ditherAlphaBlit src _ _ _ => BlitMode.ditherAlpha.refusal? format (sources src).format
  | premultipliedBlit src _ _ _ => BlitMode.premultiplied.refusal? format (sources src).format
  | ditherPremultipliedBlit src _ _ _ =>
    BlitMode.ditherPremultiplied.refusal? format (sources src).format
  | _ => none

/-- The call goes through the rows of an empty rectangle, and one of them has no number. -/
def overshoots : Call σ → Bool
  | addBlit _ r _ sy alpha => alpha ≠ 0 ∧ alpha ≠ 255 ∧ r.Overshoots sy
  | invertBlit _ r _ sy => r.Overshoots sy
  | _ => false

/-- A call with an empty rectangle changes nothing. It is refused for the formats as ever, and
faults only where it goes through rows without a number. -/
theorem paint_of_isEmpty {s : Surface} {sources : σ → Surface} {r : Rect} (call : Call σ)
    (hs : s.Usable) (hsources : ∀ i, (sources i).Usable) (hr : call.rect? = some r)
    (hempty : r.isEmpty = true) :
    s.paint (call.paint sources) =
      (if call.overshoots = true ∧ call.refusal? sources s.format = none then .error .fault
      else Refusal.verdict (call.refusal? sources s.format), s) := by
  cases call <;> cases hr
  case fillRect => exact Paint.paint_unless_isEmpty hempty
  case replaceRect c => exact Paint.paint_replaceRect_of_isEmpty hempty c
  case blendGray => exact Paint.paint_unless_isEmpty_or hempty _
  case blendColor => exact Paint.paint_unless_isEmpty_or hempty _
  case multiplyRect => exact Paint.paint_unless_isEmpty hempty
  case multiplyBlendRect => exact Paint.paint_unless_isEmpty_or hempty _
  case invertRect => exact Paint.paint_unless_isEmpty hempty
  case hatchRect stripe v alpha => exact Paint.paint_hatchRect_of_isEmpty hempty stripe v alpha
  case roundedCorner border radius v =>
    exact Paint.paint_roundedCorner_of_isEmpty hempty border radius v
  case smoothCorner border radius v =>
    exact Paint.paint_smoothCorner_of_isEmpty hempty border radius v
  case blit => exact Paint.paint_blit_of_isEmpty hempty
  case ditherBlit => exact Paint.paint_ditherBlit_of_isEmpty hempty
  case addBlit src sx sy alpha =>
    rw [paint, Paint.paint_addBlit_of_isEmpty hs (hsources src) hempty]
    simp only [overshoots, refusal?, BlitMode.refusal?]
    split <;> simp [Refusal.verdict]
  case alphaBlit => exact Paint.paint_compositeBlit_of_isEmpty hempty _ _ _
  case ditherAlphaBlit => exact Paint.paint_compositeBlit_of_isEmpty hempty _ _ _
  case premultipliedBlit => exact Paint.paint_compositeBlit_of_isEmpty hempty _ _ _
  case ditherPremultipliedBlit => exact Paint.paint_compositeBlit_of_isEmpty hempty _ _ _
  case invertBlit src sx sy =>
    rw [paint, Paint.paint_invertBlit_of_isEmpty hs (hsources src) hempty]
    simp only [overshoots, refusal?, BlitMode.refusal?]
    split <;> simp [Refusal.verdict]
  case maskGray => exact Paint.paint_unless_isEmpty_or hempty _
  case maskColor => exact Paint.paint_unless_isEmpty_or hempty _

/-- Of two rows without pixels, the first has the last number that there is. -/
def lastRows : Rect := ⟨0, 0xffff_ffff_ffff_ffff, 0, 2⟩

theorem paint_of_isEmpty_lastRows :
    Surface.uprightPair.paint
        ((Call.alphaBlit () lastRows 5 0).paint fun _ => Surface.turnedPair) =
      (.ok (), Surface.uprightPair) ∧
    Surface.uprightPair.paint
        ((Call.addBlit () lastRows 5 0 128).paint fun _ => Surface.turnedPair) =
      (.error .fault, Surface.uprightPair) :=
  have hs : Surface.uprightPair.Usable := by constructor <;> decide
  have ht (_ : Unit) : Surface.turnedPair.Usable := by constructor <;> decide
  ⟨paint_of_isEmpty (.alphaBlit () lastRows 5 0) hs ht rfl rfl,
    paint_of_isEmpty (.addBlit () lastRows 5 0 128) hs ht rfl rfl⟩

/-- Not every call passes over an empty rectangle. -/
theorem not_all_pass_over :
    ¬ ∀ (sources : Unit → Surface) (s : Surface) (call : Call Unit) (r : Rect), s.Usable →
      (∀ i, (sources i).Usable) → call.rect? = some r → r.isEmpty = true →
      s.paint (call.paint sources) = (Refusal.verdict (call.refusal? sources s.format), s) := by
  intro h
  have hs : Surface.uprightPair.Usable := by constructor <;> decide
  have hpass := h (fun _ => .uprightPair) .uprightPair (.invertBlit () lastRows 0 0) lastRows hs
    (fun _ => hs) rfl rfl
  have hfault : (Surface.uprightPair.paint
      ((Call.invertBlit () lastRows 0 0).paint fun _ => Surface.uprightPair)).1 =
        .error .fault := rfl
  rw [hpass] at hfault
  cases hfault

end Call

end Raster
