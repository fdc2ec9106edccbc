import Raster.Proofs.Conversion
import Raster.Proofs.Effect

/-! # Effects of the operators on one surface -/

namespace Raster

namespace Effect

/-- Changes the pixels of a rectangle. -/
def region (r : Rect) (g : Nat → Nat → Pixel → Pixel) : Effect :=
  of fun x y p => if r.Covers x y then g x y p else p

/-- Changes the pixels of a run of `n` cells of a scanline. -/
def run (l : Layout) (c n row : Nat) (g : Nat → Nat → Pixel → Pixel) : Effect :=
  of fun x y p =>
    if (l.native x y).2 = row then
      if c ≤ (l.native x y).1 ∧ (l.native x y).1 < c + n then g x y p else p
    else p

/-- The effect of a transform on a rectangle that has to lie within the surface. -/
def onRegion (l : Layout) (r : Rect) (f : Pixel → Pixel) : Effect :=
  if r.isEmpty then skip else if l.Holds r then region r fun _ _ => f else fail .fault

theorem region_of_isEmpty {r : Rect} (h : r.isEmpty = true) (g : Nat → Nat → Pixel → Pixel) :
    region r g = skip := by
  rw [region, skip]
  congr
  funext x y p
  exact if_neg (Rect.not_covers_of_isEmpty h x y)

/-- On a rectangle within the surface nothing keeps a transform from happening. -/
theorem onRegion_eq_region {l : Layout} {r : Rect} (hr : l.Holds r) (f : Pixel → Pixel) :
    onRegion l r f = region r fun _ _ => f := by
  rw [onRegion, if_pos hr]
  split
  case isTrue hempty => exact (region_of_isEmpty hempty _).symm
  case isFalse => rfl

end Effect

namespace Surface

variable {s : Surface}

theorem nativeOffset?_eq (hw : 0 < s.nativeWidth) {c r : Nat} (hc : c ≤ s.nativeWidth)
    (hr : r < s.nativeHeight) : s.nativeOffset? c r = some (s.cell c r) := by
  have hcell : s.cell c r + 0 * s.pixelBytes ≤ s.data.size := line_add_le_size hw hc hr
  rw [Layout.cell] at hcell
  have hsize := s.fits.size_lt
  have hword := Offset.bound_lt_word
  have hmul : Word.mul r s.stride = some (r * s.stride) :=
    Word.mul_of_lt (by omega)
  have hmul' : Word.mul c s.pixelBytes = some (c * s.pixelBytes) :=
    Word.mul_of_lt (by omega)
  have hadd : Word.add (r * s.stride) (c * s.pixelBytes) = some (s.cell c r) :=
    Word.add_of_lt (by omega)
  simp only [Layout.nativeOffset?, hmul, hmul', Option.bind_eq_bind, Option.bind_some, hadd]

theorem nativeOffset?_add (hw : 0 < s.nativeWidth) {c top row : Nat} (hc : c ≤ s.nativeWidth)
    (hrow : top + row < s.nativeHeight) :
    (do
      let line ← Word.add top row
      s.nativeOffset? c line) = some (s.cell c (top + row)) := by
  have hsides := sides_lt hw (show 0 < s.nativeHeight by omega)
  have hword := Offset.bound_lt_word
  rw [Word.add_of_lt (by omega)]
  exact nativeOffset?_eq hw hc hrow

theorem native_bottom?_eq (hs : s.Usable) {r : Rect} (hr : s.Holds r) :
    (s.nativeRect r).bottom? = some ((s.nativeRect r).y + (s.nativeRect r).h) := by
  have hwithin := Layout.nativeRect_within hr
  have hsides := sides_lt hs.width_pos hs.height_pos
  have hword := Offset.bound_lt_word
  exact Word.add_of_lt (by omega)

theorem paint_overwrite {start : Nat} {bytes : List UInt8}
    (h : start + bytes.length ≤ s.data.size) :
    s.paint (Paint.overwrite start bytes) = (.ok (), s.putBytes start bytes) := by
  rw [Paint.overwrite, paint_get_bind, paint_require_bind s h]
  rfl

end Surface

namespace Paint

open Effect

variable {l : Layout} {r : Rect} {f : Pixel → Pixel} {x y : Nat} {p : Pixel}

theorem HasEffect.region_congr {q : Paint Unit} {g g' : Nat → Nat → Pixel → Pixel}
    (hq : q.HasEffect l (region r g))
    (hg : ∀ x y p, x < l.width → y < l.height → p.format = l.format → r.Covers x y →
      g' x y p = g x y p) : q.HasEffect l (region r g') := by
  refine hq.congr rfl ?_
  intro x y p hx hy hp
  simp only [region, of_change]
  by_cases hc : r.Covers x y
  · rw [if_pos hc, if_pos hc, hg x y p hx hy hp hc]
  · rw [if_neg hc, if_neg hc]

theorem HasEffect.run_congr {q : Paint Unit} {c n row : Nat} {g g' : Nat → Nat → Pixel → Pixel}
    (hq : q.HasEffect l (run l c n row g))
    (hg : ∀ x y p, x < l.width → y < l.height → (l.native x y).2 = row →
      c ≤ (l.native x y).1 → (l.native x y).1 < c + n → g' x y p = g x y p) :
    q.HasEffect l (run l c n row g') := by
  refine hq.congr rfl ?_
  intro x y p hx hy _
  simp only [run, of_change]
  split
  case isFalse => rfl
  case isTrue hrow =>
    split
    case isFalse => rfl
    case isTrue hcolumn => exact hg x y p hx hy hrow hcolumn.1 hcolumn.2

/-! ## Single pixels -/

theorem overwritePixel_hasEffect (hl : l.Addressed) (hx : x < l.width) (hy : y < l.height)
    (hp : p.format = l.format) :
    (overwrite (l.place x y) p.toBytes).HasEffect l
      (.of fun x' y' q => if x' = x ∧ y' = y then p else q) := by
  intro s hs
  subst hs
  have hfit : s.place x y + p.toBytes.length ≤ s.data.size := by
    rw [Pixel.length_toBytes, hp]
    exact Surface.place_add_le_size hx hy
  rw [Surface.paint_overwrite hfit]
  exact ⟨rfl, Surface.rewrites_putPixel hl hx hy hp⟩

theorem putPixel_hasEffect (hl : l.Addressed) (hx : x < l.width) (hy : y < l.height)
    (hp : p.format = l.format) :
    (putPixel x y p).HasEffect l (.of fun x' y' q => if x' = x ∧ y' = y then p else q) := by
  apply HasEffect.get_bind
  intro s hs
  subst hs
  apply HasEffect.require_pos ⟨hx, hy⟩
  exact .ofOption_some (hl x y hx hy) (overwritePixel_hasEffect hl hx hy hp)

theorem HasEffect.of_read (hl : l.Addressed) (hx : x < l.width) (hy : y < l.height) {q : Paint Unit}
    (k : Pixel → Paint Unit) (g : Pixel → Pixel → Pixel)
    (hq : ∀ s : Surface, s.toLayout = l →
      s.paint q = s.paint (k (.stored s.format s.data (s.place x y))))
    (hk : ∀ p, p.format = l.format →
      (k p).HasEffect l (.of fun x' y' q => if x' = x ∧ y' = y then g p q else q)) :
    q.HasEffect l (.of fun x' y' p => if x' = x ∧ y' = y then g p p else p) := by
  intro s hs
  subst hs
  obtain ⟨hout, hrw⟩ := hk _ (Pixel.format_stored s.format s.data (s.place x y)) s rfl
  rw [hq s rfl]
  refine ⟨hout, hrw.congr ?_⟩
  intro x' y' p hp
  by_cases h : x' = x ∧ y' = y
  · obtain ⟨rfl, rfl⟩ := h
    rw [Surface.pixel?_of_addressed hl hx hy] at hp
    cases hp
    simp
  · simp [h]

theorem update_hasEffect (hl : l.Addressed) (hx : x < l.width) (hy : y < l.height)
    (hf : ∀ p, p.format = l.format → (f p).format = l.format) :
    HasEffect (do putPixel x y (f (← pixel x y))) l
      (.of fun x' y' p => if x' = x ∧ y' = y then f p else p) := by
  refine .of_read hl hx hy (fun p => putPixel x y (f p)) (fun p _ => f p) ?_ fun p hp => ?_
  · rintro s rfl
    rw [Surface.paint_bind, pixel, Surface.paint_get_bind, Surface.pixel?_of_addressed hl hx hy]
    rfl
  · exact putPixel_hasEffect hl hx hy (hf p hp)

theorem setPixel_hasEffect (hl : l.Usable) (x y : Nat) (c : Rgba) :
    (setPixel x y c).HasEffect l (if x < l.width ∧ y < l.height then
      .of fun x' y' p => if x' = x ∧ y' = y then .ofRgba l.format c else p
    else .fail .fault) := by
  apply HasEffect.get_bind
  intro s hs
  subst hs
  by_cases h : x < s.width ∧ y < s.height
  · rw [if_pos h]
    exact putPixel_hasEffect (Surface.addressed hl) h.1 h.2 (Pixel.format_ofRgba ..)
  · rw [if_neg h]
    apply HasEffect.get_bind
    intro t ht
    exact .require_neg (ht ▸ h)

theorem row_hasEffect (r : Rect) (j : Nat) (g : Nat → Nat → Pixel → Pixel)
    {step : Nat → Paint Unit}
    (h : ∀ i < r.w, (step i).HasEffect l (.of fun x y p =>
      if x = r.x + i ∧ y = r.y + j then g x y p else p)) :
    (Paint.forEach step 0 r.w).HasEffect l (.of fun x y p =>
      if y = r.y + j then if r.x ≤ x ∧ x < r.x + r.w then g x y p else p else p) := by
  refine (HasEffect.forEach_of_key (fun x _ => x)
    (fun x y p => if y = r.y + j then g x y p else p) r.x ?_).congr rfl ?_
  · intro i _ hi
    refine (h i (by omega)).congr rfl ?_
    intro x y p _ _ _
    by_cases hx : x = r.x + i <;> simp [hx]
  · intro x y p _ _ _
    by_cases hy : y = r.y + j <;> simp [hy]

theorem rows_hasEffect (r : Rect) (g : Nat → Nat → Pixel → Pixel) {step : Nat → Paint Unit}
    (h : ∀ j < r.h, (step j).HasEffect l (.of fun x y p =>
      if y = r.y + j then if r.x ≤ x ∧ x < r.x + r.w then g x y p else p else p)) :
    (Paint.forEach step 0 r.h).HasEffect l (region r g) := by
  refine (HasEffect.forEach_of_key (fun _ y => y)
    (fun x y p => if r.x ≤ x ∧ x < r.x + r.w then g x y p else p) r.y ?_).congr rfl ?_
  · intro j _ hj
    exact h j (by omega)
  · intro x y p _ _ _
    simp only [region, of_change, Rect.Covers]
    by_cases hx : r.x ≤ x ∧ x < r.x + r.w <;> simp [hx]

/-! ## Transforms of a rectangle -/

theorem mapLine_hasEffect (hl : l.Usable) {c n row : Nat}
    (hf : ∀ p, p.format = l.format → (f p).format = l.format) (hc : c + n ≤ l.nativeWidth)
    (hr : row < l.nativeHeight) :
    (mapLine f (l.cell c row) n).HasEffect l (run l c n row fun _ _ => f) := by
  intro s hs
  subst hs
  rw [mapLine, Surface.paint_get_bind,
    Surface.paint_require_bind s (Surface.line_add_le_size hl.width_pos hc hr)]
  refine ⟨rfl, (Surface.rewrites_mapPixels hl hf hc hr).congr ?_⟩
  intro x y p _
  by_cases h : (s.native x y).2 = row <;> simp [run, h]

/-- A loop over the scanlines of the native rectangle covers the rectangle. -/
theorem scanlines_hasEffect (hr : l.Holds r) (base : Nat) (g : Nat → Nat → Pixel → Pixel)
    {step : Nat → Paint Unit} {start count : Nat} (hstart : base + start = (l.nativeRect r).y)
    (hcount : count = (l.nativeRect r).h)
    (h : ∀ i, start ≤ i → i < start + count → (step i).HasEffect l
      (run l (l.nativeRect r).x (l.nativeRect r).w (base + i) g)) :
    (Paint.forEach step start count).HasEffect l (region r g) := by
  refine (HasEffect.forEach_of_key _ _ base h).congr rfl ?_
  intro x y p hx hy _
  have hcovers := Layout.covers_nativeRect_iff hr hx hy
  unfold Rect.Covers at hcovers
  simp only [region, of_change, Rect.Covers, ← hcovers, hstart, hcount]
  grind

theorem mapRegion_hasEffect (hl : l.Usable) (hr : l.Holds r)
    (hf : ∀ p, p.format = l.format → (f p).format = l.format) :
    (mapRegion r f).HasEffect l (region r fun _ _ => f) := by
  apply HasEffect.get_bind
  intro s hs
  subst hs
  obtain ⟨hright, hbottom⟩ := Layout.nativeRect_within hr
  refine .ofOption_some (Layout.nativeRect?_eq hr) ?_
  refine .ofOption_some (Surface.native_bottom?_eq hl hr) ?_
  rw [Nat.add_sub_cancel_left]
  apply scanlines_hasEffect hr 0 _ (Nat.zero_add _) rfl
  intro row hlow hhigh
  have hrow : row < s.nativeHeight := by omega
  rw [Nat.zero_add]
  exact .ofOption_some (Surface.nativeOffset?_eq hl.width_pos (by omega) hrow)
    (mapLine_hasEffect hl hf hright hrow)

/-! ## Bytes of whole scanlines -/

theorem overwriteLine_hasEffect (hl : l.Addressed) (hw : 0 < l.nativeWidth) {c n row : Nat}
    {bytes : List UInt8} (hlen : bytes.length = n * l.pixelBytes) (hc : c + n ≤ l.nativeWidth)
    (hr : row < l.nativeHeight) :
    (overwrite (l.cell c row) bytes).HasEffect l (run l c n row fun x y _ =>
      .ofBytes l.format fun k =>
        bytes.getD (((l.native x y).1 - c) * l.pixelBytes + k) 0) := by
  intro s hs
  subst hs
  rw [Surface.paint_overwrite (hlen ▸ Surface.line_add_le_size hw hc hr)]
  refine ⟨rfl, (Surface.rewrites_putLine hl hw hlen hc hr).congr ?_⟩
  intro x y p _
  by_cases h : (s.native x y).2 = row <;> simp [run, h]

theorem overwriteLines_hasEffect (hl : l.Usable)
    (hpacked : l.nativeWidth * l.pixelBytes = l.stride) {n row : Nat} {bytes : List UInt8}
    (hlen : bytes.length = n * l.stride) (hr : row + n ≤ l.nativeHeight) :
    (overwrite (row * l.stride) bytes).HasEffect l (.of fun x y p =>
      if row ≤ (l.native x y).2 ∧ (l.native x y).2 < row + n then
        .ofBytes l.format fun k => bytes.getD
          (((l.native x y).2 - row) * l.stride + (l.native x y).1 * l.pixelBytes + k) 0
      else p) := by
  intro s hs
  subst hs
  rw [Surface.paint_overwrite (hlen ▸ Surface.lines_add_le_size hl hpacked hr)]
  exact ⟨rfl, Surface.rewrites_putLines hl hpacked hlen hr⟩

/-- A rectangle of whole scanlines without a gap is overwritten at once. -/
theorem overwriteBlock_hasEffect (hl : l.Usable) (hr : l.Holds r) (hspan : l.SpansLines r)
    (hpacked : l.nativeWidth * l.pixelBytes = l.stride) {bytes : List UInt8}
    (hlen : bytes.length = (l.nativeRect r).h * l.stride) :
    (overwrite ((l.nativeRect r).y * l.stride) bytes).HasEffect l (region r fun x y _ =>
      .ofBytes l.format fun k => bytes.getD
        (((l.native x y).2 - (l.nativeRect r).y) * l.stride + (l.native x y).1 * l.pixelBytes + k)
        0) := by
  obtain ⟨hright, hbottom⟩ := Layout.nativeRect_within hr
  refine (overwriteLines_hasEffect hl hpacked hlen hbottom).congr rfl ?_
  intro x y p hx hy _
  simp only [region, of_change, hspan.covers_iff hr hx hy]

private theorem getD_replicate_block {i n b k : Nat} (hi : i < n) (hk : k < b) (byte : UInt8) :
    (List.replicate (n * b) byte).getD (i * b + k) 0 = byte := by
  have hblock := Nat.mul_le_mul_right b (show i + 1 ≤ n from hi)
  rw [Nat.succ_mul] at hblock
  rw [List.getD_eq_getElem?_getD, List.getElem?_replicate_of_lt (by omega), Option.getD_some]

theorem fillBlock_hasEffect (hl : l.Usable) (hr : l.Holds r) (hspan : l.SpansLines r)
    (hpacked : l.nativeWidth * l.pixelBytes = l.stride) (byte : UInt8) :
    (overwrite ((l.nativeRect r).y * l.stride)
        (.replicate ((l.nativeRect r).h * l.stride) byte)).HasEffect l
      (region r fun _ _ _ => .ofBytes l.format fun _ => byte) := by
  apply (overwriteBlock_hasEffect hl hr hspan hpacked List.length_replicate).region_congr
  intro x y p hx hy _ hc
  have hrow := (hspan.covers_iff hr hx hy).mp hc
  have hcolumn := Nat.mul_le_mul_right l.pixelBytes (Layout.native_lt hx hy).1
  rw [Nat.succ_mul] at hcolumn
  apply Pixel.ofBytes_congr
  intro k hk
  have hk : k < l.pixelBytes := hk
  rw [Nat.add_assoc, getD_replicate_block (by omega) (by omega)]

theorem fillLine_hasEffect (hl : l.Usable) {c n row : Nat} (hc : c + n ≤ l.nativeWidth)
    (hrow : row < l.nativeHeight) (byte : UInt8) :
    (overwrite (l.cell c row) (.replicate (n * l.pixelBytes) byte)).HasEffect l
      (run l c n row fun _ _ _ => .ofBytes l.format fun _ => byte) := by
  apply HasEffect.of_surface
  intro s hs
  subst hs
  apply (overwriteLine_hasEffect (Surface.addressed hl) hl.width_pos List.length_replicate hc
    hrow).run_congr
  intro x y p _ _ _ hleft hright
  apply Pixel.ofBytes_congr
  intro k hk
  exact (getD_replicate_block (by omega) hk byte).symm

/-- Filling bytes makes pixels of that one byte, in one stretch or line by line. -/
theorem fillBytes_hasEffect (hl : l.Usable) (hr : l.Holds r) (byte : UInt8) :
    (fillBytes r byte).HasEffect l (region r fun _ _ _ => .ofBytes l.format fun _ => byte) := by
  apply HasEffect.get_bind
  intro s hs
  subst hs
  obtain ⟨hright, hbottom⟩ := Layout.nativeRect_within hr
  have hsize := s.fits.size_lt
  have hword := Offset.bound_lt_word
  have hlast := Surface.lastLine_le hl.width_pos hl.height_pos
  have hcolumns := Nat.mul_le_mul_right s.pixelBytes
    (show (s.nativeRect r).w ≤ s.nativeWidth by omega)
  refine .ofOption_some (Layout.nativeRect?_eq hr) ?_
  refine .ofOption_some (Word.mul_of_lt (by show _ * s.pixelBytes < _; omega)) ?_
  refine .ofOption_some (Surface.native_bottom?_eq hl hr) ?_
  split
  case isTrue hwhole =>
    obtain ⟨hwidth, hpacked⟩ := Surface.packed_of_span (by omega) hwhole.2
    have hblock := Surface.lines_add_le_size hl hpacked hbottom
    rw [← Nat.add_mul] at hblock
    have htop := Nat.mul_le_mul_right s.stride
      (show (s.nativeRect r).y ≤ (s.nativeRect r).y + (s.nativeRect r).h by omega)
    refine .ofOption_some (Word.mul_of_lt (by show _ * s.stride < _; omega)) ?_
    refine .ofOption_some (Word.mul_of_lt (by show _ * s.stride < _; omega)) ?_
    rw [Nat.add_mul, Nat.add_sub_cancel_left]
    exact fillBlock_hasEffect hl hr ⟨hwhole.1, hwidth⟩ hpacked byte
  case isFalse =>
    rw [Nat.add_sub_cancel_left]
    apply scanlines_hasEffect hr 0 _ (Nat.zero_add _) rfl
    intro row hlow hhigh
    have hrow : row < s.nativeHeight := by omega
    rw [Nat.zero_add]
    exact .ofOption_some (Surface.nativeOffset?_eq hl.width_pos (by omega) hrow)
      (fillLine_hasEffect hl hright hrow byte)

/-! ## The operators -/

theorem requireInside_ite {Q : Prop} [Decidable Q] (hQ : l.admits r = true ↔ Q) {q : Paint Unit}
    {e : Effect} (hq : Q → q.HasEffect l e) :
    HasEffect (do requireInside r; q) l (if Q then e else .fail .fault) := by
  intro s hs
  subst hs
  rw [requireInside, bind_assoc, Surface.paint_get_bind]
  exact HasEffect.require_ite hQ hq s rfl

theorem requireInside_hasEffect (hl : l.Usable) {q : Paint Unit} {e : Effect}
    (hr : r.isEmpty = false) (hq : l.Holds r → q.HasEffect l e) :
    HasEffect (do requireInside r; q) l (if l.Holds r then e else .fail .fault) := by
  apply HasEffect.of_surface
  intro s hs
  subst hs
  exact requireInside_ite (Surface.admits_iff_holds hl hr) hq

theorem mapInside_hasEffect (hl : l.Usable)
    (hf : ∀ p, p.format = l.format → (f p).format = l.format) :
    HasEffect (unless r.isEmpty do requireInside r; mapRegion r f) l (onRegion l r f) := by
  rw [onRegion]
  cases hr : r.isEmpty with
  | true => exact .skip
  | false => exact requireInside_hasEffect hl hr fun h => mapRegion_hasEffect hl h hf

theorem fillRect_hasEffect (hl : l.Usable) (r : Rect) (v : UInt8) :
    (fillRect r v).HasEffect l (onRegion l r (·.recolor (.gray v))) := by
  unfold fillRect onRegion
  cases hr : r.isEmpty with
  | true => exact .skip
  | false =>
      refine requireInside_hasEffect hl hr fun h => .get_bind ?_
      intro s hs
      subst hs
      have hbytes := fillBytes_hasEffect hl h v
      have hmap : (mapRegion r (·.recolor (.gray v))).HasEffect s.toLayout
          (region r fun _ _ p => p.recolor (.gray v)) :=
        mapRegion_hasEffect hl h fun p hp => by simp [Pixel.recolor, hp]
      have hsolid (hs : s.format = .gray8 ∨ s.format = .rgb24) :
          (fillBytes r v).HasEffect s.toLayout (region r fun _ _ p => p.recolor (.gray v)) := by
        refine hbytes.congr rfl fun x y p _ _ hp => ?_
        simp only [region, of_change]
        rw [Pixel.recolor_gray_of_solid (hp.symm ▸ hs), hp]
      cases hformat : s.format with
      | gray8 => exact hsolid (.inl hformat)
      | rgb24 => exact hsolid (.inr hformat)
      | _ => exact hmap

theorem fill_hasEffect (hl : l.Usable) (v : UInt8) :
    (fill v).HasEffect l (onRegion l l.bounds (·.recolor (.gray v))) := by
  apply HasEffect.get_bind
  intro s hs
  subst hs
  exact fillRect_hasEffect hl s.bounds v

theorem replaceRect_hasEffect (hl : l.Usable) (r : Rect) (c : Rgba) :
    (replaceRect r c).HasEffect l
      (if l.format.isGray then .fail (.refused (.unsupportedFormat "fill_rect_rgb32" l.format))
      else onRegion l r fun _ => .ofRgba l.format c) := by
  apply HasEffect.get_bind
  intro s hs
  subst hs
  exact .ite (fun _ => .fail _) fun _ => mapInside_hasEffect hl fun _ _ => Pixel.format_ofRgba ..

/-- A transform with a form of its own for full alpha, and nothing to do without any. -/
theorem mapByAlpha_hasEffect (hl : l.Usable) {g : Pixel → Pixel} (alpha : UInt8)
    (hf : ∀ p, p.format = l.format → (f p).format = l.format)
    (hg : ∀ p, p.format = l.format → (g p).format = l.format) :
    HasEffect (unless r.isEmpty || alpha == 0 do
        requireInside r
        if alpha = 255 then mapRegion r f else mapRegion r g) l
      (if alpha = 0 then .skip else onRegion l r (if alpha = 255 then f else g)) := by
  by_cases halpha : alpha = 0
  · subst halpha
    simp only [beq_self_eq_true, Bool.or_true, if_true]
    exact .skip
  · rw [beq_eq_false_iff_ne.mpr halpha, Bool.or_false, if_neg halpha]
    by_cases hfull : alpha = 255
    · simp only [if_pos hfull]
      exact mapInside_hasEffect hl hf
    · simp only [if_neg hfull]
      exact mapInside_hasEffect hl hg

theorem blendRect_hasEffect (hl : l.Usable) (r : Rect) (c : Rgba) :
    (blendRect r c).HasEffect l (if c.alpha = 0 then .skip
      else onRegion l r (if c.alpha = 255 then (·.recolor c) else (·.blend c c.alpha))) :=
  mapByAlpha_hasEffect hl c.alpha (fun p hp => by simp [Pixel.recolor, hp])
    fun p hp => by simp [Pixel.blend, hp]

theorem multiplyBlendRect_hasEffect (hl : l.Usable) (r : Rect) (c : Rgba) :
    (multiplyBlendRect r c).HasEffect l (if c.alpha = 0 then .skip
      else onRegion l r (if c.alpha = 255 then (·.multiply c)
        else fun p => p.blend (p.multiply c).toRgba c.alpha)) :=
  mapByAlpha_hasEffect hl c.alpha (fun p hp => by simp [Pixel.multiply, hp])
    fun p hp => by simp [Pixel.blend, hp]

theorem multiplyRect_hasEffect (hl : l.Usable) (r : Rect) (c : Rgb) :
    (multiplyRect r c).HasEffect l (onRegion l r (·.multiply c.toRgba)) :=
  mapInside_hasEffect hl fun p hp => by simp [Pixel.multiply, hp]

theorem invertRect_hasEffect (hl : l.Usable) (r : Rect) :
    (invertRect r).HasEffect l (onRegion l r Pixel.inverted) :=
  mapInside_hasEffect hl fun p hp => by simp [hp]

/-- Stripes across the diagonals, counted from the corner of the rectangle. -/
def hatched (r : Rect) (stripe : Nat) (v alpha : UInt8) (x y : Nat) (p : Pixel) : Pixel :=
  if (x - r.x + (y - r.y)) % (2 * stripe) < stripe then
    if alpha = 255 then p.recolor (.gray v) else p.blend (.gray v) alpha
  else p

/-- What hatching does at one point of a rectangle within the surface. -/
theorem hatchPoint_hasEffect (hl : l.Addressed) (hwidth : l.width < Offset.bound)
    (hheight : l.height < Offset.bound) (hr : l.Holds r) {stripe i j : Nat} (v alpha : UInt8)
    (hi : i < r.w) (hj : j < r.h) :
    HasEffect (do
        let diagonal ← ofOption (Word.add i j)
        if diagonal % (2 * stripe) < stripe then
          let x ← ofOption (Word.add r.x i)
          let y ← ofOption (Word.add r.y j)
          let p ← pixel x y
          putPixel x y (if alpha = 255 then p.recolor (.gray v) else p.blend (.gray v) alpha)) l
      (.of fun x y p =>
        if x = r.x + i ∧ y = r.y + j then hatched r stripe v alpha x y p else p) := by
  have hx : r.x + i < l.width := Nat.lt_of_lt_of_le (Nat.add_lt_add_left hi _) hr.1
  have hy : r.y + j < l.height := Nat.lt_of_lt_of_le (Nat.add_lt_add_left hj _) hr.2
  have hword := Offset.bound_lt_word
  have hdouble := Offset.add_bound
  have hdiagonal : Word.add i j = some (i + j) := Word.add_of_lt (by omega)
  have hright : Word.add r.x i = some (r.x + i) := Word.add_of_lt (by omega)
  have hbottom : Word.add r.y j = some (r.y + j) := Word.add_of_lt (by omega)
  apply HasEffect.ofOption_some hdiagonal
  by_cases hpainted : (i + j) % (2 * stripe) < stripe
  · rw [if_pos hpainted]
    apply HasEffect.ofOption_some hright
    apply HasEffect.ofOption_some hbottom
    refine (update_hasEffect hl hx hy
      (f := fun p => if alpha = 255 then p.recolor (.gray v) else p.blend (.gray v) alpha)
      fun p hp => ?_).congr rfl ?_
    · split <;> simp [Pixel.recolor, Pixel.blend, hp]
    · intro x y p _ _ _
      simp only [of_change, hatched]
      split
      case isTrue hxy =>
        obtain ⟨rfl, rfl⟩ := hxy
        rw [Nat.add_sub_cancel_left, Nat.add_sub_cancel_left, if_pos hpainted]
      case isFalse => rfl
  · rw [if_neg hpainted]
    refine HasEffect.skip.congr rfl ?_
    intro x y p _ _ _
    simp only [of_change, hatched, Effect.skip]
    split
    case isTrue hxy =>
      obtain ⟨rfl, rfl⟩ := hxy
      rw [Nat.add_sub_cancel_left, Nat.add_sub_cancel_left, if_neg hpainted]
    case isFalse => rfl

theorem hatchRows_hasEffect (hl : l.Addressed) (hwidth : l.width < Offset.bound)
    (hheight : l.height < Offset.bound) (hr : l.Holds r) (stripe : Nat) (v alpha : UInt8) :
    (Paint.forEach (fun j => Paint.forEach (fun i => do
        let diagonal ← ofOption (Word.add i j)
        if diagonal % (2 * stripe) < stripe then
          let x ← ofOption (Word.add r.x i)
          let y ← ofOption (Word.add r.y j)
          let p ← pixel x y
          putPixel x y (if alpha = 255 then p.recolor (.gray v) else p.blend (.gray v) alpha))
      0 r.w) 0 r.h).HasEffect l (region r (hatched r stripe v alpha)) :=
  rows_hasEffect r _ fun j hj => row_hasEffect r j _ fun _ hi =>
    hatchPoint_hasEffect hl hwidth hheight hr v alpha hi hj

theorem hatchRect_hasEffect (hl : l.Usable) (r : Rect) (stripe : Nat) (v alpha : UInt8) :
    (hatchRect r stripe v alpha).HasEffect l
      (if r.isEmpty || stripe == 0 || alpha == 0 then .skip
      else if l.Holds r then
        if 2 * stripe < Word.bound then region r (hatched r stripe v alpha) else .fail .fault
      else .fail .fault) := by
  refine .ite (fun _ => .skip) fun hne => ?_
  have hr : r.isEmpty = false := by
    cases h : r.isEmpty <;> simp [h] at hne ⊢
  apply requireInside_hasEffect hl hr
  intro h
  by_cases hperiod : 2 * stripe < Word.bound
  · rw [if_pos hperiod]
    apply HasEffect.ofOption_some (Word.mul_of_lt hperiod)
    refine .of_surface fun s hs => ?_
    subst hs
    exact hatchRows_hasEffect (Surface.addressed hl) (Surface.width_lt hl) (Surface.height_lt hl) h
      stripe v alpha
  · rw [if_neg hperiod]
    apply HasEffect.ofOption_none
    rw [Word.mul, Word.fit, if_neg hperiod]

end Paint

end Raster
