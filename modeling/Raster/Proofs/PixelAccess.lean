import Raster.Proofs.Copying
import Raster.Proofs.WholeCopy

/-!
# Reading and writing single pixels

The points of a surface are a store of colours: a point shows what was put there last, as far as
the format can say it, and nothing else changes. Putting back what a point shows changes nothing.
-/

namespace Raster

namespace Surface

/-- The colour that a point shows; `none` outside the surface. -/
def color? (s : Surface) (x y : Nat) : Option Rgba := (s.pixel? x y).map Pixel.toRgba

/-- The laws of a store for the points of a surface. Off the surface, a clamped write does
nothing. -/
structure LawfulStore (s : Surface) : Prop where
  get : ∀ x y, x < s.width → y < s.height → ∃ c, s.color? x y = some c
  get_set : ∀ x y c, x < s.width → y < s.height →
    ∃ t, s.paint (Paint.setPixel x y c) = (.ok (), t) ∧
      t.color? x y = some (Pixel.ofRgba s.format c).toRgba ∧
      ∀ x' y', ¬ (x' = x ∧ y' = y) → t.color? x' y' = s.color? x' y'
  set_get : ∀ x y c, s.color? x y = some c → s.paint (Paint.setPixel x y c) = (.ok (), s)
  set_set : ∀ x y c c', x < s.width → y < s.height →
    s.paint (do Paint.setPixel x y c; Paint.setPixel x y c') = s.paint (Paint.setPixel x y c')
  clamped_inside : ∀ (u v : Int) c, 0 ≤ u → u < s.width → 0 ≤ v → v < s.height →
    s.paint (Paint.setPixelClamped u v c) = s.paint (Paint.setPixel u.toNat v.toNat c)
  clamped_outside : ∀ (u v : Int) c, ¬ (0 ≤ u ∧ u < s.width ∧ 0 ≤ v ∧ v < s.height) →
    s.paint (Paint.setPixelClamped u v c) = (.ok (), s)

variable {s : Surface} {x y : Nat}

theorem paint_setPixel (hs : s.Usable) (hx : x < s.width) (hy : y < s.height) (c : Rgba) :
    ∃ t, s.paint (Paint.setPixel x y c) = (.ok (), t) ∧
      s.Rewrites t fun x' y' p => if x' = x ∧ y' = y then .ofRgba s.format c else p := by
  obtain ⟨hout, hrw⟩ := Paint.setPixel_hasEffect hs x y c s rfl
  rw [if_pos ⟨hx, hy⟩] at hout hrw
  exact ⟨_, Prod.ext hout rfl, hrw⟩

theorem paint_setPixel_toRgba (hs : s.Usable) {p : Pixel} (hp : s.pixel? x y = some p) :
    s.paint (Paint.setPixel x y p.toRgba) = (.ok (), s) := by
  obtain ⟨hx, hy⟩ := lt_of_pixel? hp
  obtain ⟨t, hpaint, hrw⟩ := paint_setPixel hs hx hy p.toRgba
  have hsame : s.Rewrites t fun _ _ q => q := by
    apply hrw.congr
    intro x' y' q hq
    by_cases h : x' = x ∧ y' = y
    · obtain ⟨rfl, rfl⟩ := h
      cases hp.symm.trans hq
      rw [if_pos ⟨rfl, rfl⟩]
      exact (Pixel.convert_eq_self (format_of_pixel? hp)).symm
    · rw [if_neg h]
  rw [hpaint, hsame.unique (addressed hs) (.refl s)]

theorem paint_setPixel_setPixel (hs : s.Usable) (hx : x < s.width) (hy : y < s.height)
    (c c' : Rgba) :
    s.paint (do Paint.setPixel x y c; Paint.setPixel x y c') = s.paint (Paint.setPixel x y c') := by
  have hput (c : Rgba) := Paint.setPixel_hasEffect hs x y c
  simp only [if_pos (show x < s.width ∧ y < s.height from ⟨hx, hy⟩)] at hput
  refine Paint.HasEffect.paint_eq hs ((hput c).seq (hput c')) ((hput c').congr rfl ?_)
  intro x' y' q _ _ _
  by_cases h : x' = x ∧ y' = y <;> simp [h]

theorem paint_setPixelClamped (s : Surface) (u v : Int) (c : Rgba) :
    s.paint (Paint.setPixelClamped u v c) =
      if 0 ≤ u ∧ 0 ≤ v ∧ u.toNat < s.width ∧ v.toNat < s.height then
        s.paint (Paint.setPixel u.toNat v.toNat c)
      else (.ok (), s) := by
  rw [Paint.setPixelClamped, paint_get_bind, Paint.putClamped, Paint.clamped, paint_get_bind]
  dsimp only
  split <;> rfl

/-- Single pixels of a surface are read and written as those of a store, whatever its rotation,
format and stride. -/
theorem lawfulStore (s : Surface) (hstride : s.stride < Offset.bound) : s.LawfulStore := by
  have husable {x y : Nat} (hx : x < s.width) (hy : y < s.height) : s.Usable :=
    Layout.usable_iff.mpr ⟨⟨by omega, by omega⟩, hstride⟩
  refine ⟨?get, ?get_set, ?set_get, ?set_set, ?clamped_inside, ?clamped_outside⟩
  case get =>
    intro x y hx hy
    exact ⟨_, congrArg (Option.map Pixel.toRgba) (pixel?_eq_some (husable hx hy) hx hy)⟩
  case get_set =>
    intro x y c hx hy
    obtain ⟨t, hpaint, hrw⟩ := paint_setPixel (husable hx hy) hx hy c
    refine ⟨t, hpaint, ?_, ?_⟩
    · rw [color?, hrw.pixel?_eq, pixel?_eq_some (husable hx hy) hx hy]
      simp
    · intro x' y' hne
      rw [color?, hrw.pixel?_eq]
      simp [hne, color?]
  case set_get =>
    intro x y c hc
    obtain ⟨p, hp, rfl⟩ := Option.map_eq_some_iff.mp hc
    obtain ⟨hx, hy⟩ := lt_of_pixel? hp
    exact paint_setPixel_toRgba (husable hx hy) hp
  case set_set =>
    intro x y c c' hx hy
    exact paint_setPixel_setPixel (husable hx hy) hx hy c c'
  case clamped_inside =>
    intro u v c hu hwidth hv hheight
    rw [paint_setPixelClamped, if_pos (by omega)]
  case clamped_outside =>
    intro u v c hout
    rw [paint_setPixelClamped, if_neg (by omega)]

theorem lawfulStore_words : turnedWords.LawfulStore :=
  lawfulStore turnedWords (by decide)

end Surface

end Raster
