import Raster.Proofs.Mixing
import Raster.Proofs.Shortcuts
import Raster.Proofs.SolidSource

/-!
# Straight and premultiplied compositing

A source whose channels carry their alpha already is rounded once when they are multiplied and once
more when they are added to what is below, a straight source only once. The two results are a level
apart at most, and the sum of the second never goes beyond the greatest level.
-/

namespace Raster

namespace Channel

/-- The channels are a level apart at most. -/
def Near (a b : UInt8) : Prop := a.toNat ≤ b.toNat + 1 ∧ b.toNat ≤ a.toNat + 1

theorem Near.refl (a : UInt8) : Near a a := ⟨Nat.le_succ _, Nat.le_succ _⟩

theorem toNat_mul_le (v alpha : UInt8) : (mul v alpha).toNat ≤ alpha.toNat := by
  have hv := v.toNat_lt
  have halpha := alpha.toNat_lt
  have hproduct := Nat.mul_le_mul_right alpha.toNat (show v.toNat ≤ 255 by omega)
  have hnear := div255_near (Nat.le_trans hproduct (Nat.mul_le_mul_left 255 (by omega)))
  rw [toNat_mul]
  omega

/-- The sum is at most a whole: what is added is within the proportion that was taken away. -/
theorem premultiplied_sum_le (alpha old new : UInt8) :
    old.toNat * (255 - alpha.toNat) + (mul new alpha).toNat * 255 ≤ 255 * 255 := by
  have hold := old.toNat_lt
  have halpha := alpha.toNat_lt
  have hkept := Nat.mul_le_mul_right (255 - alpha.toNat) (show old.toNat ≤ 255 by omega)
  have hadded := toNat_mul_le new alpha
  omega

theorem toNat_mixPremultiplied (alpha old new : UInt8) :
    (mixPremultiplied alpha old (mul new alpha)).toNat =
      div255 (old.toNat * (255 - alpha.toNat) + (mul new alpha).toNat * 255) := by
  have hle := div255_le (premultiplied_sum_le alpha old new)
  rw [mixPremultiplied, Nat.min_eq_right hle, UInt8.toNat_ofNat', Nat.mod_eq_of_lt (by omega)]

/-- Rounding twice is a level off rounding once, at most. -/
theorem mix_near_mixPremultiplied (alpha old new : UInt8) :
    Near (mix alpha old new) (mixPremultiplied alpha old (mul new alpha)) := by
  have hproduct := toNat_mul new alpha
  have hstraight := mixture_le alpha (Nat.le_of_lt_succ old.toNat_lt)
    (Nat.le_of_lt_succ new.toNat_lt)
  have honce := div255_near hstraight
  have hcarried := div255_near (Nat.le_trans (Nat.le_add_left _ _) hstraight)
  have htwice := div255_near (premultiplied_sum_le alpha old new)
  rw [Near, toNat_mix, toNat_mixPremultiplied]
  rw [hproduct] at htwice ⊢
  omega

end Channel

/-! ## Pixels -/

/-- The formats, painted one first, between which a source with alpha is composited one channel
with one channel. -/
def PixelFormat.alphaPairs : List (PixelFormat × PixelFormat) :=
  [(.gray8, .gray8a), (.gray8a, .gray8a), (.rgb32, .gray8a), (.rgb32, .rgb32)]

namespace Pixel

/-- The pixel with its channels multiplied by its alpha. -/
def premultiplied : Pixel → Pixel
  | gray8a v alpha => gray8a (Channel.mul v alpha) alpha
  | rgb32 r g b alpha =>
      rgb32 (Channel.mul r alpha) (Channel.mul g alpha) (Channel.mul b alpha) alpha
  | p => p

@[simp] theorem format_premultiplied (p : Pixel) : p.premultiplied.format = p.format := by
  cases p <;> rfl

@[simp] theorem alpha_premultiplied (p : Pixel) : p.premultiplied.alpha = p.alpha := by
  cases p <;> rfl

theorem premultiplied_of_solid {p : Pixel} (h : p.alpha = 255) : p.premultiplied = p := by
  cases p with
  | gray8a v alpha =>
      have halpha : alpha = 255 := h
      simp [premultiplied, halpha, Channel.mul_full]
  | rgb32 r g b alpha =>
      have halpha : alpha = 255 := h
      simp [premultiplied, halpha, Channel.mul_full]
  | _ => rfl

/-- The colour channels, without the alpha. -/
def channels : Pixel → List UInt8
  | gray8 v => [v]
  | gray8a v _ => [v]
  | rgb565 word => [Channel.red565 word, Channel.green565 word, Channel.blue565 word]
  | rgb24 r g b => [r, g, b]
  | rgb32 r g b _ => [r, g, b]

theorem channels_channelwise {p : Pixel} (hp : p.format ≠ .rgb565) (f : UInt8 → UInt8 → UInt8)
    (c : Rgba) :
    (p.channelwise f c).channels = List.zipWith f p.channels (ofRgba p.format c).channels := by
  cases p with
  | rgb565 word => exact absurd rfl hp
  | _ => rfl

/-- Between these formats it does not matter whether a pixel is multiplied by its alpha before it
is converted or afterwards. -/
theorem channels_convert_premultiplied {p : Pixel} {f : PixelFormat}
    (h : (f, p.format) ∈ PixelFormat.alphaPairs) :
    (p.premultiplied.convert f).channels =
      (p.convert f).channels.map (Channel.mul · p.alpha) := by
  cases p <;> cases f <;> simp [PixelFormat.alphaPairs, format] at h
  all_goals
    simp [premultiplied, convert, ofRgba, toRgba, channels, alpha, Rgba.luminance,
      Channel.luma_self]

/-- The pixels have the same stored alpha, and their channels are a level apart at most. -/
structure Near (p q : Pixel) : Prop where
  format_eq : q.format = p.format
  alpha_eq : q.alpha = p.alpha
  channels : List.Forall₂ Channel.Near p.channels q.channels

theorem Near.refl (p : Pixel) : p.Near p :=
  ⟨rfl, rfl, List.forall₂_same.mpr fun a _ => .refl a⟩

/-- No sum that the premultiplied formula forms, of a pixel and one laid over it, is too great for
a channel. -/
def Unsaturated (old new : Pixel) : Prop :=
  ∀ d s, (d, s) ∈ old.channels.zip (new.convert old.format).channels →
    Channel.div255 (d.toNat * (255 - new.alpha.toNat) + s.toNat * 255) ≤ 255

end Pixel

namespace SourceBlend

theorem forall₂_zipWith_map {R : UInt8 → UInt8 → Prop} {f g : UInt8 → UInt8 → UInt8}
    {k : UInt8 → UInt8} (h : ∀ d s, R (f d s) (g d (k s))) (ds ss : List UInt8) :
    List.Forall₂ R (List.zipWith f ds ss) (List.zipWith g ds (ss.map k)) := by
  rw [List.zipWith_map_right, ← List.map_uncurry_zip_eq_zipWith,
    ← List.map_uncurry_zip_eq_zipWith, List.forall₂_map_left_iff, List.forall₂_map_right_iff,
    List.forall₂_same]
  intro pair _
  exact h pair.1 pair.2

variable {old new : Pixel} (h : (old.format, new.format) ∈ PixelFormat.alphaPairs)

include h

theorem format_ne_rgb565 : old.format ≠ .rgb565 := by
  intro hpacked
  rw [hpacked] at h
  simp [PixelFormat.alphaPairs] at h

theorem blended_near : ((byPixel .straight).blended old new).Near
    ((byPixel .premultiplied).blended old new.premultiplied) where
  format_eq := by rw [format_blended, format_blended]
  alpha_eq := (Pixel.alpha_channelwise ..).trans (Pixel.alpha_channelwise ..).symm
  channels := by
    have hplain := format_ne_rgb565 h
    have hsource : (Pixel.ofRgba old.format new.premultiplied.toRgba).channels =
        (Pixel.ofRgba old.format new.toRgba).channels.map (Channel.mul · new.alpha) :=
      Pixel.channels_convert_premultiplied h
    simp only [blended, Pixel.blend, Pixel.blendPremultiplied, Pixel.alpha_premultiplied,
      Pixel.channels_channelwise hplain, hsource]
    exact forall₂_zipWith_map (Channel.mix_near_mixPremultiplied new.alpha) _ _

theorem value_near : ((byPixel .straight).value old new).Near
    ((byPixel .premultiplied).value old new.premultiplied) := by
  by_cases hclear : new.alpha = 0
  · simpa [value, weight, hclear] using Pixel.Near.refl old
  by_cases hsolid : new.alpha = 255
  · simpa [value, weight, hsolid, Pixel.premultiplied_of_solid hsolid] using Pixel.Near.refl _
  · simpa [value, weight, hclear, hsolid] using blended_near h

theorem unsaturated_premultiplied : old.Unsaturated new.premultiplied := by
  intro d s hpair
  rw [Pixel.channels_convert_premultiplied h, List.zip_map_right, List.mem_map] at hpair
  obtain ⟨⟨d, c⟩, -, hpair⟩ := hpair
  cases hpair
  rw [Pixel.alpha_premultiplied]
  exact Channel.div255_le (Channel.premultiplied_sum_le new.alpha d c)

end SourceBlend

/-! ## Surfaces -/

namespace Surface

/-- The pixel in the cell that a point shows, whether or not the point has an address. -/
def stored? (s : Surface) (x y : Nat) : Option Pixel := do
  Pixel.read? s.format s.data (← s.cell? x y)

/-- In the cells of `r` the surfaces store pixels near each other, and elsewhere the same bytes. -/
structure NearOn (s t : Surface) (r : Rect) : Prop where
  layout_eq : t.toLayout = s.toLayout
  size_eq : t.data.size = s.data.size
  near : ∀ x y, r.Covers x y →
    ∃ p q, s.stored? x y = some p ∧ t.stored? x y = some q ∧ p.Near q
  untouched : ∀ n, (∀ x y i, r.Covers x y → s.cell? x y = some i →
    ¬ (i ≤ n ∧ n < i + s.pixelBytes)) → t.data[n]? = s.data[n]?

variable {s t src src' dst : Surface} {r : Rect} {sx sy x y : Nat} {f : Pixel → Pixel}

theorem stored?_eq (hx : x < s.width) (hy : y < s.height) :
    s.stored? x y = some (.stored s.format s.data (s.place x y)) := by
  rw [stored?, Layout.cell?_eq hx hy]
  exact Pixel.read?_eq_stored (place_add_le_size hx hy)

theorem stored?_of_pixel? (hs : s.Addressed) {p : Pixel} (hp : s.pixel? x y = some p) :
    s.stored? x y = some p := by
  obtain ⟨hx, hy⟩ := lt_of_pixel? hp
  rw [stored?_eq hx hy, ← pixel?_of_addressed hs hx hy, hp]

theorem Changes.stored?_eq (h : s.Changes t r f) (hc : r.Covers x y) :
    t.stored? x y = (s.stored? x y).map f := by
  obtain ⟨i, p, hi, hp, ht⟩ := h.changed x y hc
  simp only [stored?, h.layout_eq, hi, Option.bind_eq_bind, Option.bind_some, hp, ht,
    Option.map_some]

theorem NearOn.refl (hr : s.Holds r) : s.NearOn s r where
  layout_eq := rfl
  size_eq := rfl
  near x y hc := by
    obtain ⟨hx, hy⟩ := lt_of_covers hr hc
    exact ⟨_, _, Surface.stored?_eq hx hy, Surface.stored?_eq hx hy, .refl _⟩
  untouched _ _ := rfl

theorem Combines.nearOn {step step' : Pixel → Pixel → Nat → Nat → Pixel} (hdst : dst.Addressed)
    (hs : dst.Combines s src r sx sy step) (ht : dst.Combines t src' r sx sy step')
    (hstep : ∀ i j old new new', i < r.w → j < r.h → old.format = dst.format →
      src.pixel? (sx + i) (sy + j) = some new → src'.pixel? (sx + i) (sy + j) = some new' →
      (step old new (sx + i) (sy + j)).Near (step' old new' (sx + i) (sy + j))) :
    s.NearOn t r where
  layout_eq := ht.layout_eq.trans hs.layout_eq.symm
  size_eq := ht.size_eq.trans hs.size_eq.symm
  near x y hc := by
    obtain ⟨⟨hleft, hright⟩, htop, hbottom⟩ := hc
    have hi : x - r.x < r.w := by omega
    have hj : y - r.y < r.h := by omega
    obtain ⟨old, new, hold, hnew, hp⟩ := hs.stepped _ _ hi hj
    obtain ⟨old', new', hold', hnew', hq⟩ := ht.stepped _ _ hi hj
    cases hold.symm.trans hold'
    have hnear := hstep _ _ old new new' hi hj (format_of_pixel? hold) hnew hnew'
    rw [Nat.add_sub_cancel' hleft, Nat.add_sub_cancel' htop] at hp hq
    exact ⟨_, _, stored?_of_pixel? (hs.layout_eq ▸ hdst) hp,
      stored?_of_pixel? (ht.layout_eq ▸ hdst) hq, hnear⟩
  untouched n hn := by
    have hout (x y : Nat) (hc : r.Covers x y) : ¬ dst.ByteOf x y n := by
      intro hbyte
      obtain ⟨hx, hy, hin⟩ := (byteOf_iff hdst).mp hbyte
      refine hn x y (dst.place x y) hc ?_ (hs.layout_eq ▸ hin)
      rw [hs.layout_eq]
      exact Layout.cell?_eq hx hy
    rw [ht.untouched n hout, hs.untouched n hout]

theorem exists_premultiplied (hne : s.bounds.isEmpty = false) :
    ∃ t, s.Changes t s.bounds Pixel.premultiplied := by
  obtain ⟨t, -, ht⟩ := Paint.mapRegion_changes (f := Pixel.premultiplied) hne
    (Layout.holds_bounds s.toLayout) fun p hp => (Pixel.format_premultiplied p).trans hp
  exact ⟨t, ht⟩

end Surface

namespace Paint

variable {s src : Surface} {r : Rect} {sx sy : Nat}

theorem paint_combine_of_no_addressing {f : Pixel → Pixel → Nat → Nat → Option Pixel}
    (hne : r.isEmpty = false) (hr : s.Holds r) (hregion : src.Holds ⟨sx, sy, r.w, r.h⟩)
    (h : ¬ (s.addressing?.isSome = true ∧ src.addressing?.isSome = true)) :
    s.paint (combine src r sx sy f) = (.error .fault, s) := by
  rw [combine, requireInside, bind_assoc, Surface.paint_get_bind,
    s.paint_require_bind (admits_of_holds hne hr),
    s.paint_require_bind (admits_of_holds (r := ⟨sx, sy, r.w, r.h⟩) hne hregion),
    Surface.paint_get_bind]
  cases ha : s.addressing? with
  | none => rfl
  | some a =>
      rw [s.paint_ofOption_bind rfl]
      cases ha' : src.addressing? with
      | none => rfl
      | some a' => exact absurd ⟨by rw [ha]; rfl, by rw [ha']; rfl⟩ h

end Paint

namespace SourceBlend

variable {dst src src' : Surface} {r : Rect} {sx sy : Nat}

theorem paint_values (src : Surface) {a a' : Addressing} (ha : dst.addressing? = some a)
    (ha' : src.addressing? = some a') (hne : r.isEmpty = false) (hr : dst.Holds r)
    (hregion : src.Holds ⟨sx, sy, r.w, r.h⟩) (op : SourceBlend)
    (hformats : op.Supports dst.format src.format) :
    ∃ out, dst.paint (op.paint src r sx sy) = (.ok (), out) ∧
      dst.Combines out src r sx sy fun old new _ _ => op.value old new := by
  obtain ⟨hw, hh⟩ := Paint.nativeSides_pos hne hr
  obtain ⟨hw', hh'⟩ := Paint.nativeSides_pos (r := ⟨sx, sy, r.w, r.h⟩) hne hregion
  have hdst := Surface.addressed_of_addressing? hw hh ha
  have hsrc := Surface.addressed_of_addressing? hw' hh' ha'
  obtain ⟨hok, hrw⟩ := paint_hasEffect ha ha' hne hr hregion op hformats dst rfl
  refine ⟨_, Prod.ext hok rfl, hrw.layout_eq, hrw.size_eq, fun i j hi hj => ?_,
    fun n hn => hrw.transfer_untouched hdst hn⟩
  obtain ⟨old, new, -, hold, hnew, hp⟩ := hrw.transfer_point hsrc hdst hr hregion hi hj
  exact ⟨old, new, hold, hnew, hp⟩

theorem supports_of_alphaPairs (h : (dst.format, src.format) ∈ PixelFormat.alphaPairs)
    (mode : AlphaMode) : (byPixel mode).Supports dst.format src.format := by
  simp only [PixelFormat.alphaPairs, List.mem_cons, Prod.mk.injEq, List.not_mem_nil,
    or_false] at h
  rcases h with ⟨hd, hs⟩ | ⟨hd, hs⟩ | ⟨hd, hs⟩ | ⟨hd, hs⟩ <;> simp [Supports, hd, hs] <;> rfl

theorem paint_byPixel_of_no_addressing (src : Surface) (hne : r.isEmpty = false)
    (hr : dst.Holds r) (hregion : src.Holds ⟨sx, sy, r.w, r.h⟩) (mode : AlphaMode)
    (hformats : (byPixel mode).Supports dst.format src.format)
    (h : ¬ (dst.addressing?.isSome = true ∧ src.addressing?.isSome = true)) :
    dst.paint ((byPixel mode).paint src r sx sy) = (.error .fault, dst) := by
  have hformats : dst.format.compositesFrom src.format = true := hformats
  have hcombine (name : String) :
      dst.paint (Paint.compositeBlit name mode false src r sx sy) = (.error .fault, dst) := by
    rw [Paint.compositeBlit, Surface.paint_get_bind]
    simp only [hformats, hne]
    exact Paint.paint_combine_of_no_addressing hne hr hregion h
  cases mode <;> exact hcombine _

section Source

variable (hformats : (dst.format, src.format) ∈ PixelFormat.alphaPairs) (hr : dst.Holds r)
  (hregion : src.Holds ⟨sx, sy, r.w, r.h⟩) (hsrc' : src.Changes src' src.bounds Pixel.premultiplied)

include hformats hr hregion hsrc'

/-- With addresses, compositing a straight source and the same source multiplied by its alpha
leaves surfaces near each other. -/
theorem paint_byPixel_near {a a' : Addressing} (ha : dst.addressing? = some a)
    (ha' : src.addressing? = some a') (hne : r.isEmpty = false) :
    ∃ straight carried, dst.paint (Paint.alphaBlit src r sx sy) = (.ok (), straight) ∧
      dst.paint (Paint.premultipliedBlit src' r sx sy) = (.ok (), carried) ∧
      straight.NearOn carried r := by
  have hlayout := hsrc'.layout_eq
  obtain ⟨hw, hh⟩ := Paint.nativeSides_pos hne hr
  obtain ⟨hw', hh'⟩ := Paint.nativeSides_pos (r := ⟨sx, sy, r.w, r.h⟩) hne hregion
  have hdst := Surface.addressed_of_addressing? hw hh ha
  have hsrc := Surface.addressed_of_addressing? hw' hh' ha'
  obtain ⟨straight, hstraight, hs⟩ := paint_values src ha ha' hne hr hregion (byPixel .straight)
    (supports_of_alphaPairs hformats .straight)
  obtain ⟨carried, hcarried, ht⟩ := paint_values src' ha (hlayout ▸ ha') hne hr
    (hlayout ▸ hregion) (byPixel .premultiplied)
    (hlayout ▸ supports_of_alphaPairs hformats .premultiplied)
  refine ⟨straight, carried, hstraight, hcarried, hs.nearOn hdst ht ?_⟩
  intro i j old new new' hi hj hold hnew hnew'
  have hsame := hsrc'.stored?_eq (Layout.covers_bounds_iff.mpr (Surface.lt_of_pixel? hnew))
  rw [Surface.stored?_of_pixel? hsrc hnew, Surface.stored?_of_pixel? (hlayout ▸ hsrc) hnew',
    Option.map_some, Option.some.injEq] at hsame
  rw [hsame]
  exact value_near (by rwa [hold, Surface.format_of_pixel? hnew])

theorem exists_paint_byPixel (hne : r.isEmpty = false) :
    ∃ outcome straight carried,
      dst.paint (Paint.alphaBlit src r sx sy) = (outcome, straight) ∧
      dst.paint (Paint.premultipliedBlit src' r sx sy) = (outcome, carried) ∧
      straight.NearOn carried r ∧
      (dst.addressing?.isSome = true → src.addressing?.isSome = true → outcome = .ok ()) := by
  by_cases haddressing : dst.addressing?.isSome = true ∧ src.addressing?.isSome = true
  · obtain ⟨a, ha⟩ := Option.isSome_iff_exists.mp haddressing.1
    obtain ⟨a', ha'⟩ := Option.isSome_iff_exists.mp haddressing.2
    obtain ⟨straight, carried, hstraight, hcarried, hnear⟩ :=
      paint_byPixel_near hformats hr hregion hsrc' ha ha' hne
    exact ⟨_, straight, carried, hstraight, hcarried, hnear, fun _ _ => rfl⟩
  · have hlayout := hsrc'.layout_eq
    have hstraight := paint_byPixel_of_no_addressing src hne hr hregion .straight
      (supports_of_alphaPairs hformats .straight) haddressing
    have hcarried := paint_byPixel_of_no_addressing src' hne hr (hlayout ▸ hregion)
      .premultiplied (hlayout ▸ supports_of_alphaPairs hformats .premultiplied)
      (hlayout ▸ haddressing)
    exact ⟨_, dst, dst, hstraight, hcarried, .refl hr, fun h h' => absurd ⟨h, h'⟩ haddressing⟩

theorem exists_unsaturated {i j : Nat} (hi : i < r.w) (hj : j < r.h) :
    ∃ old new, dst.stored? (r.x + i) (r.y + j) = some old ∧
      src'.stored? (sx + i) (sy + j) = some new ∧ old.Unsaturated new := by
  obtain ⟨hx, hy⟩ := Surface.lt_of_covers hr (x := r.x + i) (y := r.y + j)
    ⟨by omega, by omega⟩
  obtain ⟨hu, hv⟩ := Surface.lt_of_covers hregion (x := sx + i) (y := sy + j)
    ⟨by dsimp only; omega, by dsimp only; omega⟩
  have hnew : src'.stored? (sx + i) (sy + j) = some
      (Pixel.stored src.format src.data (src.place (sx + i) (sy + j))).premultiplied := by
    rw [hsrc'.stored?_eq (Layout.covers_bounds_iff.mpr ⟨hu, hv⟩), Surface.stored?_eq hu hv,
      Option.map_some]
  refine ⟨_, _, Surface.stored?_eq hx hy, hnew, unsaturated_premultiplied ?_⟩
  rwa [Pixel.format_stored, Pixel.format_stored]

end Source

end SourceBlend

namespace Surface

/-- Between formats that are composited channel by channel, from a straight source and from the
one source that stores its pixels multiplied by their alpha: in the rectangle the two results have
the same alpha and channels a level apart at most, elsewhere the same bytes, and no sum of the
premultiplied formula is cut off. The two calls end alike, and they succeed where both surfaces
have addresses at all. -/
theorem premultiplied_near_straight (src dst : Surface) (r : Rect) (sx sy : Nat)
    (hformats : (dst.format, src.format) ∈ PixelFormat.alphaPairs) (hne : r.isEmpty = false)
    (hr : dst.Holds r) (hregion : src.Holds ⟨sx, sy, r.w, r.h⟩) :
    (∃ src', src.Changes src' src.bounds Pixel.premultiplied) ∧
    ∀ src', src.Changes src' src.bounds Pixel.premultiplied →
      (∃ outcome straight carried,
        dst.paint (Paint.alphaBlit src r sx sy) = (outcome, straight) ∧
        dst.paint (Paint.premultipliedBlit src' r sx sy) = (outcome, carried) ∧
        straight.NearOn carried r ∧
        (dst.addressing?.isSome = true → src.addressing?.isSome = true → outcome = .ok ())) ∧
      ∀ i j, i < r.w → j < r.h → ∃ old new, dst.stored? (r.x + i) (r.y + j) = some old ∧
        src'.stored? (sx + i) (sy + j) = some new ∧ old.Unsaturated new := by
  refine ⟨exists_premultiplied ?_, fun src' hsrc' => ⟨?near, ?unsaturated⟩⟩
  · cases hempty : src.bounds.isEmpty with
    | true =>
        have hsides := Rect.sides_pos hne
        have hnone := Rect.not_covers_of_isEmpty hempty sx sy
        obtain ⟨hright, hbottom⟩ := hregion
        rw [Layout.covers_bounds_iff] at hnone
        dsimp only at hright hbottom
        omega
    | false => rfl
  case near => exact SourceBlend.exists_paint_byPixel hformats hr hregion hsrc' hne
  case unsaturated =>
    intro i j hi hj
    exact SourceBlend.exists_unsaturated hformats hr hregion hsrc' hi hj

/-- A gray with alpha over colour that is turned, and what the channels come to. -/
theorem premultiplied_near_straight_frosted :
    ∃ src' straight carried,
      Combination.frosted.Changes src' Combination.frosted.bounds Pixel.premultiplied ∧
      Combination.glass.paint (Paint.alphaBlit Combination.frosted ⟨0, 0, 2, 1⟩ 0 0) =
        (.ok (), straight) ∧
      Combination.glass.paint (Paint.premultipliedBlit src' ⟨0, 0, 2, 1⟩ 0 0) =
        (.ok (), carried) ∧
      straight.NearOn carried ⟨0, 0, 2, 1⟩ := by
  obtain ⟨⟨src', hsrc'⟩, hall⟩ := premultiplied_near_straight Combination.frosted
    Combination.glass ⟨0, 0, 2, 1⟩ 0 0 (by decide) (by decide) (by decide) (by decide)
  obtain ⟨⟨outcome, straight, carried, hstraight, hcarried, hnear, hok⟩, -⟩ := hall src' hsrc'
  cases hok (by decide) (by decide)
  exact ⟨src', straight, carried, hsrc', hstraight, hcarried, hnear⟩

end Surface

end Raster
