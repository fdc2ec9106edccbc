import Raster.Proofs.Region
import Raster.Surface.Transfer

/-!
# Effects of the operators between two surfaces

Every operator gives each pixel of the painted rectangle a value that depends on the pixel, on
the source pixel at the same place of the source region, and on where that is. Copying whole
scanlines has the same effect as the pixel by pixel loop.
-/

namespace Raster

namespace Effect

/-- What becomes of a pixel of the painted rectangle: it stays where `f` has no value. -/
def transferred (src : Surface) (r : Rect) (sx sy : Nat)
    (f : Pixel → Pixel → Nat → Nat → Option Pixel) (x y : Nat) (old : Pixel) : Pixel :=
  let u := sx + (x - r.x)
  let v := sy + (y - r.y)
  ((src.pixel? u v).bind fun new => f old new u v).getD old

def transfer (src : Surface) (r : Rect) (sx sy : Nat)
    (f : Pixel → Pixel → Nat → Nat → Option Pixel) : Effect :=
  region r (transferred src r sx sy f)

/-- The effect of a transfer between regions that have to lie within their surfaces. -/
def between (l : Layout) (src : Surface) (r : Rect) (sx sy : Nat)
    (f : Pixel → Pixel → Nat → Nat → Option Pixel) : Effect :=
  if l.Holds r then
    if src.Holds ⟨sx, sy, r.w, r.h⟩ then transfer src r sx sy f else fail .fault
  else fail .fault

/-- The effect of an operator with nothing to do on an empty rectangle. -/
def onRegions (l : Layout) (src : Surface) (r : Rect) (sx sy : Nat)
    (f : Pixel → Pixel → Nat → Nat → Option Pixel) : Effect :=
  if r.isEmpty then skip else between l src r sx sy f

/-- The effect of a loop over the rows of an empty rectangle: it still works out where they
are. -/
def emptyRows (r : Rect) (sy : Nat) : Effect :=
  forEach (fun j => if r.y + j < Word.bound ∧ sy + j < Word.bound then skip else fail .fault) 0 r.h

/-- The effect of combining, an empty rectangle included. -/
def combined (l : Layout) (src : Surface) (r : Rect) (sx sy : Nat)
    (f : Pixel → Pixel → Nat → Nat → Option Pixel) : Effect :=
  if r.isEmpty then emptyRows r sy else between l src r sx sy f

variable {l : Layout} {src : Surface} {r : Rect} {sx sy : Nat}
  {f : Pixel → Pixel → Nat → Nat → Option Pixel}

theorem transfer_keep : transfer src r sx sy (fun old _ _ _ => some old) = skip := by
  rw [transfer, region, skip]
  congr
  funext x y p
  simp only [transferred]
  cases src.pixel? (sx + (x - r.x)) (sy + (y - r.y)) <;> simp

/-- On regions within their surfaces nothing keeps a transfer from happening. -/
theorem between_eq_transfer (hr : l.Holds r) (hregion : src.Holds ⟨sx, sy, r.w, r.h⟩) :
    between l src r sx sy f = transfer src r sx sy f := by
  rw [between, if_pos hr, if_pos hregion]

theorem onRegions_eq_transfer (hr : l.Holds r) (hregion : src.Holds ⟨sx, sy, r.w, r.h⟩) :
    onRegions l src r sx sy f = transfer src r sx sy f := by
  rw [onRegions, between_eq_transfer hr hregion]
  split
  case isTrue hempty => exact (region_of_isEmpty hempty _).symm
  case isFalse => rfl

theorem forEach_skip {e : Nat → Effect} {start count : Nat}
    (h : ∀ i, start ≤ i → i < start + count → e i = skip) : forEach e start count = skip := by
  induction count generalizing start with
  | zero => rfl
  | succ count ih =>
      have hrest : forEach e (start + 1) count = skip :=
        ih fun i hlow hhigh => h i (by omega) (by omega)
      rw [forEach, h start (Nat.le_refl _) (by omega), hrest]
      rfl

theorem emptyRows_eq_skip (hr : r.y + r.h ≤ Word.bound) (hsy : sy + r.h ≤ Word.bound) :
    emptyRows r sy = skip :=
  forEach_skip fun _ _ _ => if_pos ⟨by omega, by omega⟩

theorem combined_eq_onRegions (hr : r.y + r.h ≤ Word.bound) (hsy : sy + r.h ≤ Word.bound) :
    combined l src r sx sy f = onRegions l src r sx sy f := by
  rw [combined, onRegions, emptyRows_eq_skip hr hsy]

end Effect

namespace Paint

open Effect

variable {l : Layout} {src : Surface} {r : Rect} {sx sy : Nat}
  {f : Pixel → Pixel → Nat → Nat → Option Pixel}

/-- The values of `f` have the format of the pixel they replace. -/
def KeepsFormat (f : Pixel → Pixel → Nat → Nat → Option Pixel) (painted source : PixelFormat) :
    Prop :=
  ∀ old new u v p, old.format = painted → new.format = source → f old new u v = some p →
    p.format = painted

/-! ## Values of the format of the pixel they replace -/

theorem format_of_composite {mode : AlphaMode} {old new p : Pixel}
    (h : composite mode old new = some p) : p.format = old.format := by
  revert h
  unfold composite
  split
  · intro h
    cases h
  · split
    · intro h
      cases h
      exact Pixel.format_convert ..
    · cases mode <;> intro h <;> cases h <;> exact Pixel.format_channelwise ..

theorem format_of_tint {old p : Pixel} {c : Rgba} {alpha : UInt8} (h : tint old c alpha = some p) :
    p.format = old.format := by
  revert h
  rw [tint]
  split
  · intro h
    cases h
  · split <;> intro h <;> cases h <;> exact Pixel.format_channelwise ..

variable {painted source : PixelFormat}

theorem keepsFormat_convert :
    KeepsFormat (fun _ p _ _ => some (p.convert painted)) painted source := by
  rintro old new u v p - - hp
  cases hp
  exact Pixel.format_convert ..

theorem keepsFormat_dithered :
    KeepsFormat (fun _ p u v => some ((p.convert painted).dithered u v)) painted source := by
  rintro old new u v p - - hp
  cases hp
  simp

theorem keepsFormat_blend (alpha : UInt8) :
    KeepsFormat (fun old p _ _ => some (old.blend p.toRgba alpha)) painted source := by
  rintro old new u v p hold - hp
  cases hp
  simp [Pixel.blend, hold]

theorem keepsFormat_inverted (h : painted = source) :
    KeepsFormat (fun _ p _ _ => some p.inverted) painted source := by
  rintro old new u v p - hnew hp
  cases hp
  rw [Pixel.format_inverted, hnew, h]

theorem keepsFormat_composite (mode : AlphaMode) (dither : Bool) :
    KeepsFormat (fun old p u v =>
      (composite mode old p).map fun out => if dither then out.dithered u v else out)
      painted source := by
  rintro old new u v p hold - hp
  obtain ⟨out, hout, rfl⟩ := Option.map_eq_some_iff.mp hp
  have hformat := (format_of_composite hout).trans hold
  split <;> simp [hformat]

theorem keepsFormat_mask (c : Rgba) :
    KeepsFormat (fun old p _ _ => tint old c (Channel.mul p.coverage c.alpha)) painted source :=
  fun _ _ _ _ _ hold _ hp => (format_of_tint hp).trans hold

/-! ## Pixel by pixel -/

/-- The source region has a pixel for every point of the rectangle. -/
theorem exists_source_pixel (hsrc : src.Addressed) (hregion : src.Holds ⟨sx, sy, r.w, r.h⟩)
    {x y : Nat} (hc : r.Covers x y) :
    ∃ new, src.pixel? (sx + (x - r.x)) (sy + (y - r.y)) = some new ∧ new.format = src.format := by
  obtain ⟨hright, hbottom⟩ := hregion
  rw [Rect.Covers] at hc
  dsimp only at hright hbottom
  have hnew := Surface.pixel?_of_addressed hsrc (x := sx + (x - r.x)) (y := sy + (y - r.y))
    (by omega) (by omega)
  exact ⟨_, hnew, Surface.format_of_pixel? hnew⟩

theorem combinePoint_hasEffect (hl : l.Addressed) (hsrc : src.Addressed)
    (hf : KeepsFormat f l.format src.format)
    {x y u v : Nat} (hx : x < l.width) (hy : y < l.height) (hu : u < src.width)
    (hv : v < src.height) :
    HasEffect (do
        let old ← pixelFrom (l.place x y)
        let new ← ofOption (Pixel.read? src.format src.data (src.place u v))
        if let some p := f old new u v then overwrite (l.place x y) p.toBytes) l
      (.of fun x' y' old => if x' = x ∧ y' = y then
        ((src.pixel? u v).bind fun new => f old new u v).getD old else old) := by
  have hread := Pixel.read?_eq_stored (Surface.place_add_le_size hu hv)
  have hnew : src.pixel? u v = some (.stored src.format src.data (src.place u v)) :=
    Surface.pixel?_of_addressed hsrc hu hv
  refine .of_read hl hx hy (fun old => do
      let new ← ofOption (Pixel.read? src.format src.data (src.place u v))
      if let some p := f old new u v then overwrite (l.place x y) p.toBytes)
    (fun old q => ((src.pixel? u v).bind fun new => f old new u v).getD q) ?_ ?_
  · rintro s rfl
    rw [Surface.paint_bind, pixelFrom, Surface.paint_get_bind,
      Pixel.read?_eq_stored (Surface.place_add_le_size hx hy)]
    rfl
  · intro old hold
    apply HasEffect.ofOption_some hread
    rw [hnew, Option.bind_some]
    cases hp : f old (.stored src.format src.data (src.place u v)) u v with
    | none =>
        refine HasEffect.skip.congr rfl ?_
        intro x' y' q _ _ _
        simp [Effect.skip]
    | some p =>
        exact overwritePixel_hasEffect hl hx hy (hf _ _ _ _ _ hold (Pixel.format_stored ..) hp)

/-- What combining does to the rows of a rectangle, on regions within their surfaces. -/
theorem combineRows_hasEffect {target origin : Addressing} (hl : l.Addressed)
    (htarget : l.addressing? = some target) (hsrc : src.Addressed)
    (horigin : src.addressing? = some origin)
    (hsize : l.width < Offset.bound ∧ l.height < Offset.bound)
    (hsize' : src.width < Offset.bound ∧ src.height < Offset.bound)
    (hf : KeepsFormat f l.format src.format) (hr : l.Holds r)
    (hregion : src.Holds ⟨sx, sy, r.w, r.h⟩) :
    (Paint.forEach (fun j => do
        let y ← ofOption (Word.add r.y j)
        let v ← ofOption (Word.add sy j)
        Paint.forEach (fun i => do
            let u ← ofOption (Word.add sx i)
            let x ← ofOption (Word.add r.x i)
            let destination ← ofOption (target.offset? x y)
            let source ← ofOption (origin.offset? u v)
            let old ← pixelFrom destination
            let new ← ofOption (Pixel.read? src.format src.data source)
            if let some p := f old new u v then overwrite destination p.toBytes)
          0 r.w)
      0 r.h).HasEffect l (transfer src r sx sy f) := by
  obtain ⟨hright, hbottom⟩ := hr
  obtain ⟨hright', hbottom'⟩ := hregion
  have hword := Offset.bound_lt_word
  apply rows_hasEffect r _
  intro j hj
  dsimp only at hright' hbottom'
  apply HasEffect.ofOption_some (Word.add_of_lt (by omega))
  apply HasEffect.ofOption_some (Word.add_of_lt (by omega))
  apply row_hasEffect r j _
  intro i hi
  apply HasEffect.ofOption_some (Word.add_of_lt (by omega))
  apply HasEffect.ofOption_some (Word.add_of_lt (by omega))
  apply HasEffect.ofOption_some (hl.finds htarget (by omega) (by omega))
  apply HasEffect.ofOption_some (hsrc.finds horigin (by omega) (by omega))
  have hpoint := combinePoint_hasEffect hl hsrc hf (x := r.x + i) (y := r.y + j) (u := sx + i)
    (v := sy + j) (by omega) (by omega) (by omega) (by omega)
  refine hpoint.congr rfl ?_
  intro x y p _ _ _
  simp only [of_change]
  split
  case isTrue hxy =>
    obtain ⟨rfl, rfl⟩ := hxy
    rw [transferred, Nat.add_sub_cancel_left, Nat.add_sub_cancel_left]
  case isFalse => rfl

theorem combine_hasEffect_of_nonempty (hl : l.Usable) (hsrc : src.Usable)
    (hf : KeepsFormat f l.format src.format)
    (hne : r.isEmpty = false) :
    (combine src r sx sy f).HasEffect l (between l src r sx sy f) := by
  apply HasEffect.of_surface
  intro s hs
  subst hs
  apply requireInside_hasEffect hl hne
  intro hr
  refine .require_ite (Surface.admits_iff_holds hsrc hne) fun hregion => ?_
  obtain ⟨target, htarget, -⟩ := Surface.addressing_finds hl
  obtain ⟨origin, horigin, -⟩ := Surface.addressing_finds hsrc
  apply HasEffect.get_bind
  intro t ht
  apply HasEffect.ofOption_some (ht ▸ htarget)
  apply HasEffect.ofOption_some horigin
  exact combineRows_hasEffect (Surface.addressed hl) htarget (Surface.addressed hsrc) horigin
    ⟨Surface.width_lt hl, Surface.height_lt hl⟩ ⟨Surface.width_lt hsrc, Surface.height_lt hsrc⟩
    hf hr hregion

theorem combine_hasEffect_of_empty (hl : l.Usable) (hsrc : src.Usable) (hempty : r.isEmpty = true) :
    (combine src r sx sy f).HasEffect l (emptyRows r sy) := by
  have hadmits (k : Layout) (sx sy : Nat) : k.admits ⟨sx, sy, r.w, r.h⟩ = true :=
    Bool.or_eq_true_iff.mpr (.inl hempty)
  apply HasEffect.of_surface
  intro s hs
  subst hs
  obtain ⟨target, htarget, -⟩ := Surface.addressing_finds hl
  obtain ⟨origin, horigin, -⟩ := Surface.addressing_finds hsrc
  apply requireInside_ite (Q := True) (by simpa using hadmits s.toLayout r.x r.y)
  intro _
  refine .require_pos (hadmits _ sx sy) (.get_bind fun t ht => ?_)
  refine .ofOption_some (ht ▸ htarget) (.ofOption_some horigin (.forEach fun j _ hj => ?_))
  have hw : r.w = 0 := by
    have := Rect.isEmpty_iff.mp hempty
    omega
  rw [hw]
  by_cases hy : r.y + j < Word.bound
  · apply HasEffect.ofOption_some (Word.add_of_lt hy)
    by_cases hv : sy + j < Word.bound
    · rw [if_pos ⟨hy, hv⟩]
      exact .ofOption_some (Word.add_of_lt hv) .skip
    · rw [if_neg fun h => hv h.2]
      exact .ofOption_none (if_neg hv)
  · rw [if_neg fun h => hy h.1]
    exact .ofOption_none (if_neg hy)

theorem combine_hasEffect (hl : l.Usable) (hsrc : src.Usable)
    (hf : KeepsFormat f l.format src.format) :
    (combine src r sx sy f).HasEffect l (combined l src r sx sy f) := by
  rw [combined]
  cases hr : r.isEmpty with
  | true => exact combine_hasEffect_of_empty hl hsrc hr
  | false => exact combine_hasEffect_of_nonempty hl hsrc hf hr

/-! ## Whole scanlines -/

theorem bytes?_eq {s : Surface} {start n : Nat} (h : start + n ≤ s.data.size) :
    ∃ bytes, s.bytes? start n = some bytes ∧ bytes.length = n ∧
      ∀ k < n, bytes.getD k 0 = s.data.getD (start + k) 0 := by
  refine ⟨_, if_pos h, ?_, ?_⟩
  · simp
    omega
  · intro k hk
    have hlt : start + k < s.data.size := by omega
    simp [List.getD_eq_getElem?_getD, Array.getD_eq_getD_getElem?, hlt, hk]

section Copy

variable (hl : l.Addressed) (hsrc : src.Addressed) (hformat : src.format = l.format)
  (hrot : src.rotation = l.rotation) (hr : l.Holds r) (hregion : src.Holds ⟨sx, sy, r.w, r.h⟩)

include hsrc hformat hrot hr hregion

/-- Between surfaces of one format and rotation the copied pixel is made of the bytes of a cell
that lies as far into the native source region as its own cell lies into the native rectangle. -/
theorem transferred_convert {x y : Nat} (hc : r.Covers x y) (old : Pixel) :
    transferred src r sx sy (fun _ p _ _ => some (p.convert l.format)) x y old =
      .stored l.format src.data
        (src.cell ((src.nativeRect ⟨sx, sy, r.w, r.h⟩).x + ((l.native x y).1 - (l.nativeRect r).x))
          ((src.nativeRect ⟨sx, sy, r.w, r.h⟩).y + ((l.native x y).2 - (l.nativeRect r).y))) := by
  have hnative := Layout.native_sub_nativeRect hrot hregion hr hc
  obtain ⟨hu, hv⟩ := hregion
  have hpixel : src.pixel? (sx + (x - r.x)) (sy + (y - r.y)) = some (.stored src.format src.data
      (src.place (sx + (x - r.x)) (sy + (y - r.y)))) := by
    rw [Rect.Covers] at hc
    dsimp only at hu hv
    exact Surface.pixel?_of_addressed hsrc (by omega) (by omega)
  rw [transferred, hpixel, Option.bind_some, Option.getD_some,
    Pixel.convert_eq_self ((Pixel.format_stored ..).trans hformat), Layout.place, hnative, hformat]

include hl in
theorem copyLine_hasEffect (hw : 0 < l.nativeWidth) (hw' : 0 < src.nativeWidth)
    {row lineBytes : Nat} (hbytes : lineBytes = (l.nativeRect r).w * l.pixelBytes)
    (hrow : row < (l.nativeRect r).h) :
    HasEffect (do
        let start ← ofOption do
          src.nativeOffset? (src.nativeRect ⟨sx, sy, r.w, r.h⟩).x
            (← Word.add (src.nativeRect ⟨sx, sy, r.w, r.h⟩).y row)
        let bytes ← ofOption (src.bytes? start lineBytes)
        let offset ← ofOption do
          l.nativeOffset? (l.nativeRect r).x (← Word.add (l.nativeRect r).y row)
        overwrite offset bytes) l
      (run l (l.nativeRect r).x (l.nativeRect r).w ((l.nativeRect r).y + row)
        (transferred src r sx sy fun _ p _ _ => some (p.convert l.format))) := by
  apply HasEffect.of_surface
  intro s hs
  subst hs
  obtain ⟨hright, hbottom⟩ := Layout.nativeRect_within hr
  obtain ⟨hright', hbottom'⟩ := Layout.nativeRect_within hregion
  obtain ⟨hwidth, hheight⟩ := Layout.nativeRect_size (r := r) hrot sx sy
  have hpixel : src.pixelBytes = s.pixelBytes := congrArg PixelFormat.bytes hformat
  have hrow' : (src.nativeRect ⟨sx, sy, r.w, r.h⟩).y + row < src.nativeHeight := by omega
  have hline := Surface.line_add_le_size hw' hright' hrow'
  rw [hwidth, hpixel, ← hbytes] at hline
  obtain ⟨bytes, hbytes?, hlength, hgetD⟩ := bytes?_eq hline
  refine .ofOption_some (Surface.nativeOffset?_add hw' (by omega) hrow') ?_
  apply HasEffect.ofOption_some hbytes?
  refine .ofOption_some (Surface.nativeOffset?_add hw (by omega) (by omega)) ?_
  apply (overwriteLine_hasEffect hl hw (hlength.trans hbytes) hright (by omega)).run_congr
  intro x y p hx hy hat hleft hlast
  have hc : r.Covers x y := (Layout.covers_nativeRect_iff hr hx hy).mp ⟨⟨hleft, hlast⟩, by omega⟩
  have hblock := Nat.mul_le_mul_right s.pixelBytes
    (show (s.native x y).1 - (s.nativeRect r).x + 1 ≤ (s.nativeRect r).w by omega)
  rw [Nat.succ_mul] at hblock
  rw [transferred_convert hsrc hformat hrot hr hregion hc]
  apply Pixel.ofBytes_congr
  intro k hk
  have hk : k < s.pixelBytes := hk
  rw [hgetD _ (by omega), hat, Nat.add_sub_cancel_left, Layout.cell_add_column, hpixel,
    Nat.add_assoc]

/-- The bytes of all the scanlines at once, when both regions span them without a gap. -/
theorem copyBlock_hasEffect (hl : l.Usable) {bytes : List UInt8} {start : Nat}
    (hpacked : l.nativeWidth * l.pixelBytes = l.stride) (hstride : src.stride = l.stride)
    (hspan : l.SpansLines r) (hleft : (src.nativeRect ⟨sx, sy, r.w, r.h⟩).x = 0)
    (hstart : start = (src.nativeRect ⟨sx, sy, r.w, r.h⟩).y * src.stride)
    (hlength : bytes.length = (l.nativeRect r).h * l.stride)
    (hgetD : ∀ k < bytes.length, bytes.getD k 0 = src.data.getD (start + k) 0) :
    (overwrite ((l.nativeRect r).y * l.stride) bytes).HasEffect l
      (transfer src r sx sy fun _ p _ _ => some (p.convert l.format)) := by
  apply (overwriteBlock_hasEffect hl hr hspan hpacked hlength).region_congr
  intro x y p hx hy _ hc
  have hpixel : src.pixelBytes = l.pixelBytes := congrArg PixelFormat.bytes hformat
  have hrow := (hspan.covers_iff hr hx hy).mp hc
  have hlast := Nat.mul_le_mul_right l.stride
    (show (l.native x y).2 - (l.nativeRect r).y + 1 ≤ (l.nativeRect r).h by omega)
  have hcolumn := Nat.mul_le_mul_right l.pixelBytes (Layout.native_lt hx hy).1
  rw [Nat.succ_mul] at hlast hcolumn
  rw [transferred_convert hsrc hformat hrot hr hregion hc]
  apply Pixel.ofBytes_congr
  intro k hk
  have hk : k < l.pixelBytes := hk
  rw [hgetD _ (by omega), hstart, hspan.1, hleft, Layout.cell, hpixel, hstride, Nat.zero_add,
    Nat.sub_zero, Nat.add_mul]
  congr 1
  omega

include hl in
/-- A copy between regions within their surfaces, once these are admitted. -/
theorem copyLines_hasEffect_of_admits (hadmits : l.admits r = true)
    (hadmits' : src.admits ⟨sx, sy, r.w, r.h⟩ = true)
    (hsides : 0 < l.nativeWidth ∧ 0 < l.nativeHeight)
    (hsides' : 0 < src.nativeWidth ∧ 0 < src.nativeHeight) :
    (copyLines src r sx sy).HasEffect l
      (transfer src r sx sy fun _ p _ _ => some (p.convert l.format)) := by
  apply HasEffect.of_surface
  intro s hs
  subst hs
  apply HasEffect.require_pos hadmits'
  rw [requireInside, bind_assoc]
  refine .get_bind fun t ht => .require_pos (ht ▸ hadmits) (.get_bind fun u hu => ?_)
  simp only [hu]
  refine .ofOption_some (Layout.nativeRect?_eq hregion) ?_
  refine .ofOption_some (Layout.nativeRect?_eq hr) ?_
  obtain ⟨hright, hbottom⟩ := Layout.nativeRect_within hr
  obtain ⟨hright', hbottom'⟩ := Layout.nativeRect_within hregion
  obtain ⟨hw, hh⟩ := Layout.nativeRect_size (r := r) hrot sx sy
  have hpixel : src.pixelBytes = s.pixelBytes := congrArg PixelFormat.bytes hformat
  have hword := Offset.bound_lt_word
  have hsize := s.fits.size_lt
  have hsize' := src.fits.size_lt
  have hlast := Surface.lastLine_le hsides.1 hsides.2
  have hwidth := Nat.mul_le_mul_right s.pixelBytes
    (show (s.nativeRect r).w ≤ s.nativeWidth by omega)
  rw [hw, hh, hpixel]
  apply HasEffect.ofOption_some (Word.mul_of_lt (by omega))
  split
  case isFalse =>
    apply scanlines_hasEffect hr _ _ (Nat.add_zero _) rfl
    intro row _ hrow
    exact copyLine_hasEffect hl hsrc hformat hrot hr hregion hsides.1 hsides'.1 rfl (by omega)
  case isTrue hwhole =>
    obtain ⟨hstrides, hspan, hleft', hleft⟩ := hwhole
    have hs : s.Usable := ⟨hsides.1, hsides.2, by omega⟩
    have hsrc' : src.Usable := ⟨hsides'.1, hsides'.2, by omega⟩
    obtain ⟨hall, hpacked⟩ := s.packed_of_span (by omega) (hspan.trans hstrides)
    have hpacked' := (src.packed_of_span (by omega) (hpixel ▸ hspan)).2
    have hblock := Surface.lines_add_le_size hs hpacked hbottom
    have hblock' := Surface.lines_add_le_size hsrc' hpacked' hbottom'
    rw [hh] at hblock'
    obtain ⟨bytes, hbytes?, hlength, hgetD⟩ := bytes?_eq hblock'
    apply HasEffect.ofOption_some (Word.mul_of_lt (by omega))
    apply HasEffect.ofOption_some (Word.mul_of_lt (by omega))
    apply HasEffect.ofOption_some hbytes?
    apply HasEffect.ofOption_some (Word.mul_of_lt (by omega))
    exact copyBlock_hasEffect hsrc hformat hrot hr hregion hs hpacked hstrides ⟨hleft, hall⟩
      hleft' rfl (hstrides ▸ hlength) fun k hk => hgetD k (hlength ▸ hk)

end Copy

theorem copyLines_hasEffect (hl : l.Usable) (hsrc : src.Usable) (hformat : src.format = l.format)
    (hrot : src.rotation = l.rotation) (hne : r.isEmpty = false) :
    (copyLines src r sx sy).HasEffect l
      (between l src r sx sy fun _ p _ _ => some (p.convert l.format)) := by
  apply HasEffect.of_surface
  intro s hs
  subst hs
  have hadmits := Surface.admits_iff_holds hl hne
  have hadmits' := Surface.admits_iff_holds hsrc (r := ⟨sx, sy, r.w, r.h⟩) hne
  rw [between]
  split
  case isTrue hr =>
    split
    case isTrue hregion =>
      exact copyLines_hasEffect_of_admits (Surface.addressed hl) (Surface.addressed hsrc) hformat
        hrot hr hregion (hadmits.mpr hr) (hadmits'.mpr hregion) ⟨hl.width_pos, hl.height_pos⟩
        ⟨hsrc.width_pos, hsrc.height_pos⟩
    case isFalse hregion => exact .require_neg fun h => hregion (hadmits'.mp h)
  case isFalse hr =>
    by_cases hregion : src.admits ⟨sx, sy, r.w, r.h⟩ = true
    · apply HasEffect.require_pos hregion
      rw [← if_neg (c := s.Holds r) (t := Effect.fail .fault) (e := Effect.fail .fault) hr]
      exact requireInside_hasEffect hl hne fun h => absurd h hr
    · exact .require_neg hregion

/-! ## The operators -/

theorem combineInside_hasEffect (hl : l.Usable) (hsrc : src.Usable)
    (hf : KeepsFormat f l.format src.format) :
    HasEffect (unless r.isEmpty do combine src r sx sy f) l (onRegions l src r sx sy f) := by
  rw [onRegions]
  cases hr : r.isEmpty with
  | true => exact .skip
  | false => exact combine_hasEffect_of_nonempty hl hsrc hf hr

theorem blit_hasEffect (hl : l.Usable) (hsrc : src.Usable) (r : Rect) (sx sy : Nat) :
    (blit src r sx sy).HasEffect l
      (onRegions l src r sx sy fun _ p _ _ => some (p.convert l.format)) := by
  rw [onRegions]
  cases hr : r.isEmpty with
  | true => simpa [blit, hr] using HasEffect.skip
  | false =>
      have hcopy : (blit src r sx sy).HasEffect l
          (between l src r sx sy fun _ p _ _ => some (p.convert l.format)) := by
        simp only [blit, hr]
        apply HasEffect.get_bind
        intro s hs
        subst hs
        split
        case isTrue h => exact copyLines_hasEffect hl hsrc h.1 h.2 hr
        case isFalse => exact combine_hasEffect_of_nonempty hl hsrc keepsFormat_convert hr
      exact hcopy

theorem ditherBlit_hasEffect (hl : l.Usable) (hsrc : src.Usable) (r : Rect) (sx sy : Nat) :
    (ditherBlit src r sx sy).HasEffect l (if l.format.isGray then
        onRegions l src r sx sy fun _ p u v => some ((p.convert l.format).dithered u v)
      else onRegions l src r sx sy fun _ p _ _ => some (p.convert l.format)) := by
  apply HasEffect.get_bind
  intro s hs
  subst hs
  exact .ite (fun _ => combineInside_hasEffect hl hsrc keepsFormat_dithered) fun _ =>
    blit_hasEffect hl hsrc r sx sy

theorem addBlit_hasEffect (hl : l.Usable) (hsrc : src.Usable) (r : Rect) (sx sy : Nat)
    (alpha : UInt8) :
    (addBlit src r sx sy alpha).HasEffect l (if l.format ≠ src.format then
        .fail (.refused (.incompatibleFormats "add_blit_from" l.format src.format))
      else if alpha = 0 then .skip
      else if alpha = 255 then
        onRegions l src r sx sy fun _ p _ _ => some (p.convert l.format)
      else combined l src r sx sy fun old p _ _ => some (old.blend p.toRgba alpha)) := by
  apply HasEffect.get_bind
  intro s hs
  subst hs
  refine .ite (fun _ => .fail _) fun _ => .ite (fun _ => .skip) fun _ => ?_
  exact .ite (fun _ => blit_hasEffect hl hsrc r sx sy) fun _ =>
    combine_hasEffect hl hsrc (keepsFormat_blend alpha)

theorem invertBlit_hasEffect (hl : l.Usable) (hsrc : src.Usable) (r : Rect) (sx sy : Nat) :
    (invertBlit src r sx sy).HasEffect l (if l.format ≠ src.format then
        .fail (.refused (.incompatibleFormats "invert_blit_from" l.format src.format))
      else combined l src r sx sy fun _ p _ _ => some p.inverted) := by
  apply HasEffect.get_bind
  intro s hs
  subst hs
  exact .ite (fun _ => .fail _) fun hformat =>
    combine_hasEffect hl hsrc (keepsFormat_inverted (Classical.not_not.mp hformat))

/-- The effect of the operators that composite by the source's alpha. -/
def compositeEffect (op : String) (mode : AlphaMode) (dither : Bool) (l : Layout) (src : Surface)
    (r : Rect) (sx sy : Nat) : Effect :=
  if l.format.compositesFrom src.format then
    onRegions l src r sx sy fun old p u v =>
      (composite mode old p).map fun out => if dither then out.dithered u v else out
  else .fail (.refused (.incompatibleFormats op l.format src.format))

theorem compositeBlit_hasEffect (hl : l.Usable) (hsrc : src.Usable) (op : String)
    (mode : AlphaMode) (dither : Bool) (r : Rect) (sx sy : Nat) :
    (compositeBlit op mode dither src r sx sy).HasEffect l
      (compositeEffect op mode dither l src r sx sy) := by
  apply HasEffect.get_bind
  intro s hs
  subst hs
  exact .ite (fun _ => combineInside_hasEffect hl hsrc (keepsFormat_composite mode dither))
    fun _ => .fail _

theorem maskBlit_hasEffect (hl : l.Usable) (hsrc : src.Usable) (r : Rect) (sx sy : Nat) (c : Rgba) :
    (maskBlit src r sx sy c).HasEffect l (if c.alpha = 0 then .skip
      else onRegions l src r sx sy fun old p _ _ =>
        tint old c (Channel.mul p.coverage c.alpha)) := by
  by_cases halpha : c.alpha = 0
  · rw [if_pos halpha]
    simpa [maskBlit, halpha] using HasEffect.skip
  · rw [if_neg halpha, maskBlit, beq_eq_false_iff_ne.mpr halpha, Bool.or_false]
    exact combineInside_hasEffect hl hsrc (keepsFormat_mask c)

end Paint

namespace Surface

variable {src dst out : Surface} {r : Rect} {sx sy : Nat}
  {f : Pixel → Pixel → Nat → Nat → Option Pixel}

/-- A transfer gives every pixel of the rectangle its value under `f`. -/
theorem Rewrites.transfer_point (hsrc : src.Addressed) (hdst : dst.Addressed) (hr : dst.Holds r)
    (hregion : src.Holds ⟨sx, sy, r.w, r.h⟩)
    (hrw : dst.Rewrites out (Effect.transfer src r sx sy f).change) {i j : Nat} (hi : i < r.w)
    (hj : j < r.h) :
    ∃ old new, new.format = src.format ∧ dst.pixel? (r.x + i) (r.y + j) = some old ∧
      src.pixel? (sx + i) (sy + j) = some new ∧
      out.pixel? (r.x + i) (r.y + j) = some ((f old new (sx + i) (sy + j)).getD old) := by
  obtain ⟨hright, hbottom⟩ := hr
  obtain ⟨hright', hbottom'⟩ := hregion
  dsimp only at hright' hbottom'
  have hold := pixel?_of_addressed hdst (x := r.x + i) (y := r.y + j) (by omega) (by omega)
  have hnew := pixel?_of_addressed hsrc (x := sx + i) (y := sy + j) (by omega) (by omega)
  have hcovers : r.Covers (r.x + i) (r.y + j) := ⟨by omega, by omega⟩
  refine ⟨_, _, Pixel.format_stored .., hold, hnew, ?_⟩
  rw [hrw.pixel?_eq, hold, Option.map_some]
  simp only [Effect.transfer, Effect.region, Effect.of_change, if_pos hcovers,
    Effect.transferred, Nat.add_sub_cancel_left, hnew, Option.bind_some]

/-- A transfer leaves the bytes alone that are not part of a pixel of the rectangle. -/
theorem Rewrites.transfer_untouched (hdst : dst.Addressed)
    (hrw : dst.Rewrites out (Effect.transfer src r sx sy f).change) {n : Nat}
    (hn : ∀ x y, r.Covers x y → ¬ dst.ByteOf x y n) : out.data[n]? = dst.data[n]? := by
  refine hrw.getElem?_eq hdst fun x y p hbyte _ => ?_
  exact if_neg fun hcovers => hn x y hcovers hbyte

end Surface

end Raster
