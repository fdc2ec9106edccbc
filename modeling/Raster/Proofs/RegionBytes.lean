import Raster.Proofs.SingleLine

/-!
# Operators on a rectangle, byte by byte

An operator on a rectangle within the surface changes every pixel of it by one transform, where
the pixel is stored, and no other byte. This holds for every surface: no address is worked out
with a sign, so that not even the distance of the scanlines has to fit one.
-/

namespace Raster

namespace Layout

/-- The first byte of the cell that a logical point shows. -/
def cell? (l : Layout) (x y : Nat) : Option Nat := do
  let (column, row) ← l.rotation.mapPoint? x y l.nativeWidth l.nativeHeight
  return row * l.stride + column * l.pixelBytes

theorem cell?_eq {l : Layout} {x y : Nat} (hx : x < l.width) (hy : y < l.height) :
    l.cell? x y = some (l.place x y) := by
  rw [cell?, mapPoint?_eq hx hy]
  rfl

end Layout

namespace Pixel

variable {format : PixelFormat} {a b : Array UInt8} {i n : Nat} {p : Pixel}

theorem read?_eq_some_iff :
    read? format a i = some p ↔ i + format.bytes ≤ a.size ∧ stored format a i = p := by
  rw [read?]
  split
  case isTrue h => exact ⟨fun e => ⟨h, Option.some.inj e⟩, fun e => congrArg some e.2⟩
  case isFalse h =>
    exact ⟨fun e => absurd e.symm (Option.some_ne_none p), fun e => absurd e.1 h⟩

theorem getElem?_eq_of_read? (ha : read? format a i = some p) (hb : read? format b i = some p)
    (hlow : i ≤ n) (hhigh : n < i + format.bytes) : a[n]? = b[n]? := by
  obtain ⟨hfit, rfl⟩ := read?_eq_some_iff.mp ha
  obtain ⟨hfit', hp⟩ := read?_eq_some_iff.mp hb
  have hk : n - i < format.bytes := by omega
  have hbytes := congrArg (fun q => q.toBytes[n - i]?) hp
  simpa only [getElem?_toBytes_stored hfit hk, getElem?_toBytes_stored hfit' hk,
    Nat.add_sub_cancel' hlow] using hbytes.symm

end Pixel

namespace Surface

/-- `out` is `s` with every pixel of `r` changed by `f` in its cell, and no other byte changed. -/
structure Changes (s out : Surface) (r : Rect) (f : Pixel → Pixel) : Prop where
  layout_eq : out.toLayout = s.toLayout
  size_eq : out.data.size = s.data.size
  changed : ∀ x y, r.Covers x y → ∃ i p, s.cell? x y = some i ∧
    Pixel.read? s.format s.data i = some p ∧ Pixel.read? s.format out.data i = some (f p)
  untouched : ∀ n, (∀ x y i, r.Covers x y → s.cell? x y = some i →
    ¬ (i ≤ n ∧ n < i + s.pixelBytes)) → out.data[n]? = s.data[n]?

variable {s t u out : Surface} {r : Rect} {f g : Pixel → Pixel}

/-- The points of a rectangle within the surface are points of the surface. -/
theorem lt_of_covers (hr : s.Holds r) {x y : Nat} (hc : r.Covers x y) :
    x < s.width ∧ y < s.height := by
  obtain ⟨hright, hbottom⟩ := hr
  rw [Rect.Covers] at hc
  omega

theorem Rewrites.changes (hs : s.Usable) (hr : s.Holds r)
    (hrw : s.Rewrites out (Effect.region r fun _ _ => f).change) : s.Changes out r f where
  layout_eq := hrw.layout_eq
  size_eq := hrw.size_eq
  changed x y hc := by
    obtain ⟨hx, hy⟩ := lt_of_covers hr hc
    have hcell := place_add_le_size hx hy
    have hpixel := hrw.pixel?_eq x y
    have hout := pixel?_eq_some (s := out) (hrw.usable hs) (x := x) (y := y)
      (by rw [hrw.layout_eq]; exact hx) (by rw [hrw.layout_eq]; exact hy)
    rw [hrw.layout_eq] at hout
    rw [hout, pixel?_eq_some hs hx hy, Option.map_some, Effect.region, Effect.of_change,
      if_pos hc] at hpixel
    refine ⟨_, _, Layout.cell?_eq hx hy, Pixel.read?_eq_stored hcell, ?_⟩
    rw [Pixel.read?_eq_stored (hrw.size_eq ▸ hcell)]
    exact hpixel
  untouched n hn := by
    refine hrw.getElem?_eq (addressed hs) fun x y p hbyte _ => if_neg fun hc => ?_
    obtain ⟨hx, hy, hin⟩ := (byteOf_iff (addressed hs)).mp hbyte
    exact hn x y _ hc (Layout.cell?_eq hx hy) hin

namespace Changes

theorem congr (h : s.Changes out r f) (hfg : ∀ p, p.format = s.format → g p = f p) :
    s.Changes out r g where
  layout_eq := h.layout_eq
  size_eq := h.size_eq
  changed x y hc := by
    obtain ⟨i, p, hi, hp, hout⟩ := h.changed x y hc
    have hformat := Pixel.format_of_read? hp
    exact ⟨i, p, hi, hp, by rw [hfg p hformat, hout]⟩
  untouched := h.untouched

/-- The transform decides what becomes of the surface. -/
theorem unique (ht : s.Changes t r f) (hu : s.Changes u r f) : t = u := by
  have hlayout : t.toLayout = u.toLayout := ht.layout_eq.trans hu.layout_eq.symm
  have hdata : t.data = u.data := by
    apply Array.ext_getElem?
    intro n
    by_cases h : ∃ x y i, r.Covers x y ∧ s.cell? x y = some i ∧ i ≤ n ∧ n < i + s.pixelBytes
    · obtain ⟨x, y, i, hc, hi, hlow, hhigh⟩ := h
      obtain ⟨j, p, hj, hp, hpt⟩ := ht.changed x y hc
      obtain ⟨k, q, hk, hq, hqu⟩ := hu.changed x y hc
      cases hi.symm.trans hj
      cases hi.symm.trans hk
      cases hp.symm.trans hq
      exact Pixel.getElem?_eq_of_read? hpt hqu hlow hhigh
    · have hkeep : ∀ x y i, r.Covers x y → s.cell? x y = some i →
          ¬ (i ≤ n ∧ n < i + s.pixelBytes) :=
        fun x y i hc hi hin => h ⟨x, y, i, hc, hi, hin⟩
      rw [ht.untouched n hkeep, hu.untouched n hkeep]
  cases t
  cases u
  cases hlayout
  cases hdata
  rfl

theorem unpack {hline : s.nativeHeight = 1} (h : (s.packLine hline).Changes t r f)
    (hr : s.Holds r) (hlayout : out.toLayout = s.toLayout) (hdata : out.data = t.data) :
    s.Changes out r f := by
  have hcell {x y : Nat} (hc : r.Covers x y) : (s.packLine hline).cell? x y = s.cell? x y := by
    obtain ⟨hx, hy⟩ := lt_of_covers hr hc
    rw [Layout.cell?_eq hx hy, ← place_packLine hline hx hy]
    exact Layout.cell?_eq hx hy
  refine ⟨hlayout, hdata ▸ h.size_eq, ?_, ?_⟩
  · intro x y hc
    obtain ⟨i, p, hi, hp, hout⟩ := h.changed x y hc
    exact ⟨i, p, hcell hc ▸ hi, hp, hdata ▸ hout⟩
  · intro n hn
    rw [hdata]
    exact h.untouched n fun x y i hc hi => hn x y i hc (hcell hc ▸ hi)

end Changes

end Surface

namespace Paint

variable {s : Surface} {r : Rect} {f : Pixel → Pixel}

/-! ## One scanline -/

theorem nativeRect_of_line (hline : s.nativeHeight = 1) (hne : r.isEmpty = false)
    (hr : s.Holds r) : (s.nativeRect r).y = 0 ∧ (s.nativeRect r).h = 1 := by
  have hwithin := (Layout.nativeRect_within hr).2
  have hpos : 0 < (s.nativeRect r).h := by
    have hsides := Rect.sides_pos hne
    unfold Layout.nativeRect
    cases s.rotation <;> simp [hsides]
  omega

theorem run_le_size (hline : s.nativeHeight = 1) (hr : s.Holds r) :
    (s.nativeRect r).x * s.pixelBytes + (s.nativeRect r).w * s.pixelBytes ≤ s.data.size := by
  have hpixels := Surface.singleLine_le_size hline
  have hrun := Nat.mul_le_mul_right s.pixelBytes (Layout.nativeRect_within hr).1
  rw [Nat.add_mul] at hrun
  omega

theorem nativeOffset?_of_line (hline : s.nativeHeight = 1) (hr : s.Holds r) :
    s.nativeOffset? (s.nativeRect r).x 0 = some ((s.nativeRect r).x * s.pixelBytes) := by
  have hrun := run_le_size hline hr
  have hsize := s.fits.size_lt
  have hword := Offset.bound_lt_word
  rw [Layout.nativeOffset?, Word.mul_of_lt (by omega), Word.mul_of_lt (by omega)]
  simp only [Option.bind_eq_bind, Option.bind_some, Nat.zero_mul]
  rw [Word.add_of_lt (by omega), Nat.zero_add]

theorem paint_forEach_one {t : Surface} {step : Nat → Paint Unit} {n : Nat}
    (h : s.paint (step n) = (.ok (), t)) : s.paint (forEach step n 1) = (.ok (), t) := by
  rw [forEach, Surface.paint_bind, h]
  rfl

theorem paint_mapRegion_of_line (hline : s.nativeHeight = 1) (hne : r.isEmpty = false)
    (hr : s.Holds r) :
    s.paint (mapRegion r f) =
      (.ok (), s.mapPixels f ((s.nativeRect r).x * s.pixelBytes) (s.nativeRect r).w) := by
  obtain ⟨hy, hh⟩ := nativeRect_of_line hline hne hr
  have hbottom : (s.nativeRect r).bottom? = some 1 := by
    rw [Rect.bottom?, hy, hh]
    rfl
  rw [mapRegion, Surface.paint_get_bind, s.paint_ofOption_bind (Layout.nativeRect?_eq hr),
    s.paint_ofOption_bind hbottom, hy]
  apply paint_forEach_one
  rw [s.paint_ofOption_bind (nativeOffset?_of_line hline hr), mapLine, Surface.paint_get_bind,
    s.paint_require_bind (run_le_size hline hr)]
  rfl

theorem paint_fillBytes_of_line (hline : s.nativeHeight = 1) (hne : r.isEmpty = false)
    (hr : s.Holds r) (byte : UInt8) :
    s.paint (fillBytes r byte) =
      (.ok (), s.putBytes ((s.nativeRect r).x * s.pixelBytes)
        (.replicate ((s.nativeRect r).w * s.pixelBytes) byte)) := by
  obtain ⟨hy, hh⟩ := nativeRect_of_line hline hne hr
  have hrun := run_le_size hline hr
  have hsize := s.fits.size_lt
  have hword := Offset.bound_lt_word
  have hbottom : (s.nativeRect r).bottom? = some 1 := by
    rw [Rect.bottom?, hy, hh]
    rfl
  rw [fillBytes, Surface.paint_get_bind, s.paint_ofOption_bind (Layout.nativeRect?_eq hr),
    s.paint_ofOption_bind (Word.mul_of_lt (show _ * s.pixelBytes < _ by omega)),
    s.paint_ofOption_bind hbottom, hy]
  split
  case isTrue hwhole =>
    obtain ⟨hx, hspan⟩ := hwhole
    rw [s.paint_ofOption_bind (Word.mul_of_lt (show 0 * s.stride < _ by omega)),
      s.paint_ofOption_bind (Word.mul_of_lt (show 1 * s.stride < _ by omega)), hx, hspan]
    simp only [Nat.zero_mul, Nat.one_mul, Nat.sub_zero]
    rw [hx, hspan, Nat.zero_mul, Nat.zero_add] at hrun
    exact Surface.paint_overwrite (by rwa [List.length_replicate, Nat.zero_add])
  case isFalse =>
    apply paint_forEach_one
    rw [s.paint_ofOption_bind (nativeOffset?_of_line hline hr)]
    exact Surface.paint_overwrite (by rwa [List.length_replicate])

/-! ## Any surface -/

theorem nativeSides_pos (hne : r.isEmpty = false) (hr : s.Holds r) :
    0 < s.nativeWidth ∧ 0 < s.nativeHeight := by
  obtain ⟨hright, hbottom⟩ := hr
  obtain ⟨hw, hh⟩ := Rect.sides_pos hne
  have hn := Layout.native_lt (l := s.toLayout) (x := r.x) (y := r.y) (by omega) (by omega)
  omega

/-- What a computation does to a rectangle of a usable surface it does to any surface, if on a
single scanline it does not look at the strides. -/
theorem changes_of_usable {p : Paint Unit} {write : Surface → Surface} (hne : r.isEmpty = false)
    (hr : s.Holds r) (husable : ∀ t : Surface, t.format = s.format → t.Usable → t.Holds r →
      p.HasEffect t.toLayout (Effect.region r fun _ _ => f))
    (hline : ∀ t : Surface, t.nativeHeight = 1 → t.Holds r → t.paint p = (.ok (), write t))
    (hwrite : ∀ h : s.nativeHeight = 1, (write s).toLayout = s.toLayout ∧
      (write s).data = (write (s.packLine h)).data) :
    ∃ out, s.paint p = (.ok (), out) ∧ s.Changes out r f := by
  obtain ⟨hw, hh⟩ := nativeSides_pos hne hr
  by_cases hstride : s.stride < Offset.bound
  · obtain ⟨hout, hrw⟩ := husable s rfl ⟨hw, hh, hstride⟩ hr s rfl
    exact ⟨_, Prod.ext hout rfl, hrw.changes ⟨hw, hh, hstride⟩ hr⟩
  · have hone := Surface.nativeHeight_eq_one hw hh hstride
    have hpacked := Surface.packLine_usable hw hone
    obtain ⟨-, hrw⟩ := husable (s.packLine hone) rfl hpacked hr _ rfl
    rw [hline (s.packLine hone) hone hr] at hrw
    obtain ⟨hlayout, hdata⟩ := hwrite hone
    exact ⟨_, hline s hone hr, (hrw.changes hpacked hr).unpack hr hlayout hdata⟩

theorem mapRegion_changes (hne : r.isEmpty = false) (hr : s.Holds r)
    (hf : ∀ p, p.format = s.format → (f p).format = s.format) :
    ∃ out, s.paint (mapRegion r f) = (.ok (), out) ∧ s.Changes out r f :=
  changes_of_usable hne hr
    (fun _ hformat ht hrt => mapRegion_hasEffect ht hrt (by rw [hformat]; exact hf))
    (fun _ hline hrt => paint_mapRegion_of_line hline hne hrt)
    fun _ => ⟨rfl, rfl⟩

theorem fillBytes_changes (hne : r.isEmpty = false) (hr : s.Holds r) (byte : UInt8) :
    ∃ out, s.paint (fillBytes r byte) = (.ok (), out) ∧
      s.Changes out r fun _ => .ofBytes s.format fun _ => byte :=
  changes_of_usable hne hr
    (fun _ hformat ht hrt => hformat ▸ fillBytes_hasEffect ht hrt byte)
    (fun _ hline hrt => paint_fillBytes_of_line hline hne hrt byte)
    fun _ => ⟨rfl, rfl⟩

/-- Filling bytes is recolouring pixel by pixel where every byte of a pixel is the gray. -/
theorem paint_fillBytes_eq (hne : r.isEmpty = false) (hr : s.Holds r)
    (hs : s.format = .gray8 ∨ s.format = .rgb24) (v : UInt8) :
    s.paint (fillBytes r v) = s.paint (mapRegion r (·.recolor (.gray v))) := by
  obtain ⟨t, hfill, ht⟩ := fillBytes_changes hne hr v
  obtain ⟨u, hmap, hu⟩ := mapRegion_changes (f := (·.recolor (.gray v))) hne hr fun p hp => by
    rw [Pixel.recolor, Pixel.format_channelwise, hp]
  have ht' := ht.congr (g := (·.recolor (.gray v))) fun p hp => by
    rw [← hp, Pixel.recolor_gray_of_solid (hp.symm ▸ hs)]
  rw [hfill, hmap, ht'.unique hu]

theorem admits_of_holds (hne : r.isEmpty = false) (hr : s.Holds r) : s.admits r = true := by
  obtain ⟨hw, hh⟩ := nativeSides_pos hne hr
  by_cases hstride : s.stride < Offset.bound
  · exact (Surface.admits_iff_holds ⟨hw, hh, hstride⟩ hne).mpr hr
  · have hone := Surface.nativeHeight_eq_one hw hh hstride
    exact (Surface.admits_iff_holds (Surface.packLine_usable hw hone) hne).mpr hr

theorem paint_inside (hne : r.isEmpty = false) (hr : s.Holds r) (q : Paint Unit) :
    s.paint (unless r.isEmpty do requireInside r; q) = s.paint q := by
  have hunless : (unless r.isEmpty do requireInside r; q) = (do requireInside r; q) := by
    rw [hne]
    rfl
  rw [hunless, requireInside, bind_assoc, Surface.paint_get_bind,
    s.paint_require_bind (admits_of_holds hne hr)]

theorem skip_changes (hne : r.isEmpty = false) (hr : s.Holds r) : s.Changes s r fun p => p := by
  obtain ⟨_, -, h⟩ := mapRegion_changes (f := fun p => p) hne hr fun _ hp => hp
  refine ⟨rfl, rfl, fun x y hc => ?_, fun _ _ => rfl⟩
  obtain ⟨i, p, hi, hp, -⟩ := h.changed x y hc
  exact ⟨i, p, hi, hp, hp⟩

theorem mapInside_changes (hne : r.isEmpty = false) (hr : s.Holds r)
    (hf : ∀ p, p.format = s.format → (f p).format = s.format) :
    ∃ out, s.paint (unless r.isEmpty do requireInside r; mapRegion r f) = (.ok (), out) ∧
      s.Changes out r f := by
  rw [paint_inside hne hr]
  exact mapRegion_changes hne hr hf

end Paint

/-! ## The operators -/

/-- The operators that change every pixel of a rectangle by one transform, with their
arguments. -/
inductive RegionOperator where
  | fill (v : UInt8)
  | replace (c : Rgba)
  | blend (c : Rgba)
  | multiply (c : Rgb)
  | multiplyBlend (c : Rgba)
  | invert

namespace RegionOperator

def paint (r : Rect) : RegionOperator → Paint Unit
  | fill v => Paint.fillRect r v
  | replace c => Paint.replaceRect r c
  | blend c => Paint.blendRect r c
  | multiply c => Paint.multiplyRect r c
  | multiplyBlend c => Paint.multiplyBlendRect r c
  | invert => Paint.invertRect r

/-- The formats that the operator has a meaning for. -/
def Applies (format : PixelFormat) : RegionOperator → Prop
  | replace _ => format.isGray = false
  | _ => True

/-- A transform by alpha: none without any, and one of its own for full alpha. -/
def byAlpha (alpha : UInt8) (full part : Pixel → Pixel) (p : Pixel) : Pixel :=
  if alpha = 0 then p else if alpha = 255 then full p else part p

def transform : RegionOperator → Pixel → Pixel
  | fill v => (·.recolor (.gray v))
  | replace c => fun p => .ofRgba p.format c
  | blend c => byAlpha c.alpha (·.recolor c) (·.blend c c.alpha)
  | multiply c => (·.multiply c.toRgba)
  | multiplyBlend c =>
    byAlpha c.alpha (·.multiply c) fun p => p.blend (p.multiply c).toRgba c.alpha
  | invert => Pixel.inverted

variable {s : Surface} {r : Rect} {f g : Pixel → Pixel}

theorem mapByAlpha_changes (hne : r.isEmpty = false) (hr : s.Holds r) (alpha : UInt8)
    (hf : ∀ p, p.format = s.format → (f p).format = s.format)
    (hg : ∀ p, p.format = s.format → (g p).format = s.format) :
    ∃ out, s.paint (unless r.isEmpty || alpha == 0 do
        Paint.requireInside r
        if alpha = 255 then Paint.mapRegion r f else Paint.mapRegion r g) = (.ok (), out) ∧
      s.Changes out r (byAlpha alpha f g) := by
  by_cases hclear : alpha = 0
  · subst hclear
    simp only [beq_self_eq_true, Bool.or_true]
    exact ⟨s, rfl, Paint.skip_changes hne hr⟩
  · rw [beq_eq_false_iff_ne.mpr hclear, Bool.or_false]
    by_cases hfull : alpha = 255
    · have htransform : byAlpha alpha f g = f := funext fun p => by
        rw [byAlpha, if_neg hclear, if_pos hfull]
      rw [htransform]
      simp only [if_pos hfull]
      exact Paint.mapInside_changes hne hr hf
    · have htransform : byAlpha alpha f g = g := funext fun p => by
        rw [byAlpha, if_neg hclear, if_neg hfull]
      rw [htransform]
      simp only [if_neg hfull]
      exact Paint.mapInside_changes hne hr hg

theorem fillRect_changes (hne : r.isEmpty = false) (hr : s.Holds r) (v : UInt8) :
    ∃ out, s.paint (Paint.fillRect r v) = (.ok (), out) ∧
      s.Changes out r (·.recolor (.gray v)) := by
  have hmap := Paint.mapRegion_changes (f := (·.recolor (.gray v))) hne hr fun p hp => by
    rw [Pixel.recolor, Pixel.format_channelwise, hp]
  rw [Paint.fillRect, Paint.paint_inside hne hr, Surface.paint_get_bind]
  cases hformat : s.format with
  | gray8 => exact Paint.paint_fillBytes_eq hne hr (.inl hformat) v ▸ hmap
  | rgb24 => exact Paint.paint_fillBytes_eq hne hr (.inr hformat) v ▸ hmap
  | _ => exact hmap

theorem replaceRect_changes (hne : r.isEmpty = false) (hr : s.Holds r)
    (hgray : s.format.isGray = false) (c : Rgba) :
    ∃ out, s.paint (Paint.replaceRect r c) = (.ok (), out) ∧
      s.Changes out r fun p => .ofRgba p.format c := by
  obtain ⟨out, hout, hchanges⟩ :=
    Paint.mapInside_changes (f := fun _ => .ofRgba s.format c) hne hr fun _ _ =>
      Pixel.format_ofRgba ..
  refine ⟨out, ?_, hchanges.congr fun p hp => by rw [hp]⟩
  rw [Paint.replaceRect, Surface.paint_get_bind]
  simp only [hgray]
  exact hout

theorem paint_changes (hne : r.isEmpty = false) (hr : s.Holds r) (op : RegionOperator)
    (hop : op.Applies s.format) :
    ∃ out, s.paint (op.paint r) = (.ok (), out) ∧ s.Changes out r op.transform := by
  cases op with
  | fill v => exact fillRect_changes hne hr v
  | replace c => exact replaceRect_changes hne hr hop c
  | blend c =>
      exact mapByAlpha_changes hne hr c.alpha
        (fun p hp => (Pixel.format_channelwise ..).trans hp)
        fun p hp => (Pixel.format_channelwise ..).trans hp
  | multiply c =>
      exact Paint.mapInside_changes hne hr fun p hp => (Pixel.format_channelwise ..).trans hp
  | multiplyBlend c =>
      exact mapByAlpha_changes hne hr c.alpha
        (fun p hp => (Pixel.format_channelwise ..).trans hp)
        fun p hp => (Pixel.format_channelwise ..).trans hp
  | invert => exact Paint.mapInside_changes hne hr fun p hp => (Pixel.format_inverted p).trans hp

/-- On a rectangle within any surface every operator succeeds, changes each pixel once by its
transform and leaves every other byte alone; filling bytes, at once or scanline by scanline, is
recolouring pixel by pixel. -/
theorem changes_exactly (s : Surface) (r : Rect) (hne : r.isEmpty = false) (hr : s.Holds r) :
    (∀ op : RegionOperator, op.Applies s.format →
      ∃ out, s.paint (op.paint r) = (.ok (), out) ∧ s.Changes out r op.transform) ∧
    (s.format = .gray8 ∨ s.format = .rgb24 → ∀ v,
      s.paint (Paint.fillBytes r v) = s.paint (Paint.mapRegion r (·.recolor (.gray v)))) :=
  ⟨paint_changes hne hr, Paint.paint_fillBytes_eq hne hr⟩

/-- One scanline of three points, seen from the side, whose distance to the next is greater than
any offset. -/
def lonelyLine : Surface where
  nativeWidth := 3
  nativeHeight := 1
  pixelStride := 5
  stride := 0x8000_0000_0000_0000
  format := .rgb24
  rotation := .counterClockwise
  data := #[1, 2, 3, 4, 5, 6, 7, 8, 9, 10, 11]
  fits := ⟨by decide, by decide, by decide, by decide⟩

theorem changes_exactly_lonelyLine :
    (∃ out, lonelyLine.paint ((multiplyBlend ⟨200, 100, 50, 128⟩).paint ⟨0, 1, 1, 2⟩) =
        (.ok (), out) ∧
      lonelyLine.Changes out ⟨0, 1, 1, 2⟩ (multiplyBlend ⟨200, 100, 50, 128⟩).transform) ∧
    lonelyLine.paint (Paint.fillBytes ⟨0, 1, 1, 2⟩ 7) =
      lonelyLine.paint (Paint.mapRegion ⟨0, 1, 1, 2⟩ (·.recolor (.gray 7))) :=
  ⟨(changes_exactly lonelyLine ⟨0, 1, 1, 2⟩ (by decide) (by decide)).1 _ trivial,
    (changes_exactly lonelyLine ⟨0, 1, 1, 2⟩ (by decide) (by decide)).2 (.inr rfl) 7⟩

end RegionOperator

end Raster
