import Raster.Proofs.Confinement
import Raster.Proofs.SingleLine
import Raster.Proofs.Transfer

/-!
# Operators confined to their rectangle

Whatever the surface, an operator neither looks at nor changes a byte that is not part of a pixel
of its rectangle.
-/

namespace Raster

/-- A number below a product has a quotient and a remainder. -/
theorem exists_of_lt_mul {k n m : Nat} (h : k < n * m) : ∃ i j, i < n ∧ j < m ∧ k = i * m + j := by
  have hm : 0 < m := Nat.pos_of_ne_zero fun hm => by simp [hm] at h
  exact ⟨k / m, k % m, Nat.div_lt_of_lt_mul (Nat.mul_comm .. ▸ h), Nat.mod_lt k hm,
    (Nat.div_add_mod' ..).symm⟩

namespace Layout

/-- The bytes of the pixels of `r`. -/
def bytesOf (l : Layout) (r : Rect) : Set Nat :=
  {n | ∃ x y, (x < l.width ∧ y < l.height) ∧ r.Covers x y ∧
    l.place x y ≤ n ∧ n < l.place x y + l.pixelBytes}

variable {l : Layout} {r part : Rect}

theorem bytesOf_mono (h : ∀ x y, part.Covers x y → r.Covers x y) :
    l.bytesOf part ⊆ l.bytesOf r := by
  rintro n ⟨x, y, hin, hc, hn⟩
  exact ⟨x, y, hin, h x y hc, hn⟩

/-- A stretch of cells of one scanline of the native rectangle. -/
theorem line_mem_bytesOf (hr : l.Holds r) {c n row : Nat} (hleft : (l.nativeRect r).x ≤ c)
    (hright : c + n ≤ (l.nativeRect r).x + (l.nativeRect r).w) (htop : (l.nativeRect r).y ≤ row)
    (hbottom : row < (l.nativeRect r).y + (l.nativeRect r).h) :
    ∀ k < n * l.pixelBytes, l.cell c row + k ∈ l.bytesOf r := by
  intro k hk
  obtain ⟨hwidth, hheight⟩ := nativeRect_within hr
  obtain ⟨i, j, hi, hj, rfl⟩ := exists_of_lt_mul hk
  obtain ⟨x, y, hx, hy, hnative⟩ := exists_native (show c + i < l.nativeWidth by omega)
    (show row < l.nativeHeight by omega)
  have hplace : l.place x y = l.cell c row + i * l.pixelBytes := by
    rw [place, hnative, cell_add_column]
  refine ⟨x, y, ⟨hx, hy⟩, ?_, by omega, by omega⟩
  rw [← covers_nativeRect_iff hr hx hy, hnative]
  exact ⟨⟨by omega, by omega⟩, htop, hbottom⟩

/-- All the cells of the native rectangle at once, if nothing lies between its scanlines. -/
theorem block_mem_bytesOf (hr : l.Holds r) (hleft : (l.nativeRect r).x = 0)
    (hspan : (l.nativeRect r).w * l.pixelBytes = l.stride) :
    ∀ k < (l.nativeRect r).h * l.stride, (l.nativeRect r).y * l.stride + k ∈ l.bytesOf r := by
  intro k hk
  obtain ⟨i, j, hi, hj, rfl⟩ := exists_of_lt_mul hk
  have hline := line_mem_bytesOf hr (c := 0) (n := (l.nativeRect r).w) (by omega) (by omega)
    (Nat.le_add_right _ i) (by omega) j (hspan ▸ hj)
  rwa [cell, Nat.zero_mul, Nat.add_zero, Nat.add_mul, Nat.add_assoc] at hline

theorem holds_of_containsRect? {w h : Nat} (hr : (Rect.sized w h).containsRect? r = some true) :
    r.x + r.w ≤ w ∧ r.y + r.h ≤ h := by
  simp only [Rect.containsRect?, Rect.right?, Rect.bottom?, Rect.sized, Nat.not_lt_zero,
    decide_false, Bool.or_self, Bool.false_eq_true, if_false, Option.bind_eq_bind,
    Option.bind_eq_some_iff, Word.add_eq_some_iff] at hr
  obtain ⟨_, ⟨-, rfl⟩, _, ⟨-, rfl⟩, hr⟩ := hr
  split at hr
  case isTrue => cases hr
  case isFalse hright =>
    simp only [Option.bind_eq_some_iff, Word.add_eq_some_iff, Option.pure_def, Option.some.injEq,
      decide_eq_true_eq] at hr
    obtain ⟨_, ⟨-, rfl⟩, _, ⟨-, rfl⟩, hbottom⟩ := hr
    omega

/-- A rectangle that operators may touch is empty or lies within the surface, whatever the
surface. -/
theorem holds_of_admits (h : l.admits r = true) (hne : r.isEmpty = false) : l.Holds r := by
  rw [admits, hne, Bool.false_or, beq_iff_eq] at h
  exact holds_of_containsRect? h

theorem lt_of_admits (h : l.admits r = true) {x y : Nat} (hc : r.Covers x y) :
    x < l.width ∧ y < l.height := by
  cases hne : r.isEmpty with
  | true => exact absurd hc (Rect.not_covers_of_isEmpty hne x y)
  | false =>
      obtain ⟨hright, hbottom⟩ := holds_of_admits h hne
      rw [Rect.Covers] at hc
      omega

/-- An offset into the native grid is the first byte of a cell, if there is one. -/
theorem eq_cell_of_nativeOffset? {column row o : Nat} (h : l.nativeOffset? column row = some o) :
    o = l.cell column row := by
  simp only [nativeOffset?, Option.bind_eq_bind, Option.bind_eq_some_iff, Word.mul_eq_some_iff,
    Word.add_eq_some_iff] at h
  obtain ⟨_, ⟨-, rfl⟩, _, ⟨-, rfl⟩, -, rfl⟩ := h
  rfl

end Layout

namespace Surface

variable {s : Surface} {r a b : Rect} {x y o : Nat}

/-- Rectangles that share no point of the surface share no byte. -/
theorem disjoint_bytesOf
    (h : ∀ x < s.width, ∀ y < s.height, a.Covers x y → ¬ b.Covers x y) :
    Disjoint (s.bytesOf a) (s.bytesOf b) := by
  refine Set.disjoint_left.mpr ?_
  rintro n ⟨x, y, ⟨hx, hy⟩, ha, hlow, hhigh⟩ ⟨x', y', ⟨hx', hy'⟩, hb, hlow', hhigh'⟩
  by_cases hxy : x = x' ∧ y = y'
  · obtain ⟨rfl, rfl⟩ := hxy
    exact h x hx y hy ha hb
  · have := place_disjoint hx hy hx' hy' hxy
    omega

/-- Where a point of the surface has an offset, it is the first byte of its pixel. -/
theorem eq_place_of_offset? (hx : x < s.width) (hy : y < s.height) (h : s.offset? x y = some o) :
    o = s.place x y := by
  have hnative := Layout.native_lt hx hy
  obtain ⟨a, ha, -⟩ := Option.bind_eq_some_iff.mp h
  have hplace := addressed_of_addressing? (by omega) (by omega) ha x y hx hy
  exact Option.some.inj (h.symm.trans hplace)

theorem offset?_mem_bytesOf (hc : r.Covers x y) (hx : x < s.width) (hy : y < s.height)
    (h : s.offset? x y = some o) : ∀ k < s.pixelBytes, o + k ∈ s.bytesOf r := by
  intro k hk
  refine ⟨x, y, ⟨hx, hy⟩, hc, ?_⟩
  rw [eq_place_of_offset? hx hy h]
  omega

end Surface

namespace Paint

variable {l : Layout} {r : Rect} {f : Pixel → Pixel}

/-! ## Points -/

theorem pixel_bind_confinedTo {k : Pixel → Paint Unit} {x y : Nat} (hc : r.Covers x y)
    (hk : ∀ p, p.format = l.format → (k p).Confined l (l.bytesOf r)) :
    (pixel x y >>= k).Confined l (l.bytesOf r) := by
  refine .of_surface fun s hs => ?_
  subst hs
  exact pixel_bind_confined (fun hx hy _ => Surface.offset?_mem_bytesOf hc hx hy) hk

theorem putPixel_confinedTo {x y : Nat} {p : Pixel} (hc : r.Covers x y) (hp : p.format = l.format) :
    (putPixel x y p).Confined l (l.bytesOf r) := by
  refine .of_surface fun s hs => ?_
  subst hs
  exact putPixel_confined hp fun hx hy _ => Surface.offset?_mem_bytesOf hc hx hy

/-! ## Operators on one surface -/

theorem mapRegion_confined (hr : l.Holds r)
    (hf : ∀ p, p.format = l.format → (f p).format = l.format) :
    (mapRegion r f).Confined l (l.bytesOf r) := by
  refine .get_bind (fun s hs => ?_) fun s t h => by rw [h]
  subst hs
  refine .ofOption_bind fun native hnative => .ofOption_bind fun bottom hbottom => ?_
  cases (Layout.nativeRect?_eq hr).symm.trans hnative
  obtain ⟨-, rfl⟩ := Word.add_eq_some_iff.mp hbottom
  rw [Nat.add_sub_cancel_left]
  refine .forEach fun row hlow hhigh => .ofOption_bind fun start hstart => mapLine_confined hf ?_
  rw [Layout.eq_cell_of_nativeOffset? hstart]
  exact Layout.line_mem_bytesOf hr (Nat.le_refl _) (Nat.le_refl _) hlow hhigh

theorem fillBytes_confined (hr : l.Holds r) (byte : UInt8) :
    (fillBytes r byte).Confined l (l.bytesOf r) := by
  refine .get_bind (fun s hs => ?_) fun s t h => by rw [h]
  subst hs
  refine .ofOption_bind fun native hnative => .ofOption_bind fun lineBytes hline =>
    .ofOption_bind fun bottom hbottom => ?_
  cases (Layout.nativeRect?_eq hr).symm.trans hnative
  obtain ⟨-, rfl⟩ := Word.mul_eq_some_iff.mp hline
  obtain ⟨-, rfl⟩ := Word.add_eq_some_iff.mp hbottom
  refine .ite (fun hwhole => ?_) fun _ => ?_
  · refine .ofOption_bind fun start hstart => .ofOption_bind fun stop hstop => overwrite_confined ?_
    obtain ⟨-, rfl⟩ := Word.mul_eq_some_iff.mp hstart
    obtain ⟨-, rfl⟩ := Word.mul_eq_some_iff.mp hstop
    rw [List.length_replicate, Nat.add_mul, Nat.add_sub_cancel_left]
    exact Layout.block_mem_bytesOf hr hwhole.1 hwhole.2
  · rw [Nat.add_sub_cancel_left]
    refine .forEach fun row hlow hhigh => .ofOption_bind fun start hstart => overwrite_confined ?_
    rw [List.length_replicate, Layout.eq_cell_of_nativeOffset? hstart]
    exact Layout.line_mem_bytesOf hr (Nat.le_refl _) (Nat.le_refl _) hlow hhigh

/-- What is done to a rectangle that turned out to lie within the surface. -/
theorem inside_confined {q : Paint Unit} {B : Set Nat} (hne : ¬ r.isEmpty = true)
    (hq : l.Holds r → q.Confined l B) : Confined (do requireInside r; q) l B :=
  .requireInside_bind fun h => hq (Layout.holds_of_admits h (Bool.eq_false_iff.mpr hne))

theorem mapInside_confined (hf : ∀ p, p.format = l.format → (f p).format = l.format) :
    Confined (unless r.isEmpty do requireInside r; mapRegion r f) l (l.bytesOf r) :=
  .ite (fun _ => .pure ()) fun hne => inside_confined hne fun hr => mapRegion_confined hr hf

theorem fillRect_confined (r : Rect) (v : UInt8) : (fillRect r v).Confined l (l.bytesOf r) := by
  refine .ite (fun _ => .pure ()) fun hne => inside_confined hne fun hr => ?_
  refine .get_bind (fun s hs => ?_) fun s t h => by rw [h]
  split
  · exact fillBytes_confined hr v
  · exact fillBytes_confined hr v
  · exact mapRegion_confined hr fun p hp => (Pixel.format_channelwise ..).trans hp

theorem fill_confined (v : UInt8) : (fill v).Confined l (l.bytesOf l.bounds) := by
  refine .get_bind (fun s hs => ?_) fun s t h => by rw [h]
  subst hs
  exact fillRect_confined s.bounds v

theorem replaceRect_confined (r : Rect) (c : Rgba) :
    (replaceRect r c).Confined l (l.bytesOf r) := by
  refine .get_bind (fun s hs => ?_) fun s t h => by rw [h]
  subst hs
  refine .ite (fun _ => .throw _) fun _ => mapInside_confined fun _ _ => Pixel.format_ofRgba ..

/-- A transform with a form of its own for full alpha, and nothing to do without any. -/
theorem mapByAlpha_confined {g : Pixel → Pixel} (alpha : UInt8)
    (hf : ∀ p, p.format = l.format → (f p).format = l.format)
    (hg : ∀ p, p.format = l.format → (g p).format = l.format) :
    Confined (unless r.isEmpty || alpha == 0 do
        requireInside r
        if alpha = 255 then mapRegion r f else mapRegion r g) l (l.bytesOf r) := by
  refine .ite (fun _ => .pure ()) fun hne => ?_
  refine inside_confined (fun h => hne (by simp [h])) fun hr => ?_
  exact .ite (fun _ => mapRegion_confined hr hf) fun _ => mapRegion_confined hr hg

theorem blendRect_confined (r : Rect) (c : Rgba) : (blendRect r c).Confined l (l.bytesOf r) :=
  mapByAlpha_confined c.alpha (fun _ hp => (Pixel.format_channelwise ..).trans hp)
    fun _ hp => (Pixel.format_channelwise ..).trans hp

theorem multiplyBlendRect_confined (r : Rect) (c : Rgba) :
    (multiplyBlendRect r c).Confined l (l.bytesOf r) :=
  mapByAlpha_confined c.alpha (fun _ hp => (Pixel.format_channelwise ..).trans hp)
    fun _ hp => (Pixel.format_channelwise ..).trans hp

theorem invertRect_confined (r : Rect) : (invertRect r).Confined l (l.bytesOf r) :=
  mapInside_confined fun p hp => (Pixel.format_inverted p).trans hp

theorem hatchRect_confined (r : Rect) (stripe : Nat) (v alpha : UInt8) :
    (hatchRect r stripe v alpha).Confined l (l.bytesOf r) := by
  refine .ite (fun _ => .pure ()) fun _ => .requireInside_bind fun _ => .ofOption_bind fun _ _ => ?_
  refine .forEach fun j _ hj => .forEach fun i _ hi => .ofOption_bind fun _ _ => ?_
  refine .ite (fun _ => .ofOption_bind fun x hx => .ofOption_bind fun y hy => ?_) fun _ => .pure ()
  obtain ⟨-, rfl⟩ := Word.add_eq_some_iff.mp hx
  obtain ⟨-, rfl⟩ := Word.add_eq_some_iff.mp hy
  have hc : r.Covers (r.x + i) (r.y + j) := ⟨by omega, by omega⟩
  refine pixel_bind_confinedTo hc fun p hp => putPixel_confinedTo hc ?_
  split <;> exact (Pixel.format_channelwise ..).trans hp

/-! ## Operators between two surfaces -/

section Transfer

variable {src : Surface} {sx sy : Nat} {f : Pixel → Pixel → Nat → Nat → Option Pixel}

theorem combine_confined (hf : KeepsFormat f l.format src.format) :
    (combine src r sx sy f).Confined l (l.bytesOf r) := by
  refine .requireInside_bind fun hr => .require_bind fun _ => ?_
  refine .get_bind (fun s hs => ?_) fun s t h => by rw [h]
  subst hs
  refine .ofOption_bind fun target htarget => .ofOption_bind fun _ _ => ?_
  refine .forEach fun j _ hj => .ofOption_bind fun y hy => .ofOption_bind fun v _ => ?_
  refine .forEach fun i _ hi => .ofOption_bind fun u _ => .ofOption_bind fun x hx => ?_
  refine .ofOption_bind fun start hstart => .ofOption_bind fun _ _ => ?_
  obtain ⟨-, rfl⟩ := Word.add_eq_some_iff.mp hx
  obtain ⟨-, rfl⟩ := Word.add_eq_some_iff.mp hy
  have hc : r.Covers (r.x + i) (r.y + j) := ⟨by omega, by omega⟩
  obtain ⟨hwidth, hheight⟩ := Layout.lt_of_admits hr hc
  have hbytes := Surface.offset?_mem_bytesOf hc hwidth hheight
    (Option.bind_eq_some_iff.mpr ⟨target, htarget, hstart⟩)
  refine pixelFrom_bind_confined hbytes fun old hold => .ofOption_bind fun new hnew => ?_
  split
  case h_1 p hp =>
    apply overwrite_confined
    rw [Pixel.length_toBytes, hf _ _ _ _ _ hold (Pixel.format_of_read? hnew) hp]
    exact hbytes
  case h_2 => exact .pure ()

theorem length_of_bytes? {s : Surface} {start n : Nat} {bytes : List UInt8}
    (h : s.bytes? start n = some bytes) : bytes.length = n := by
  rw [Surface.bytes?] at h
  split at h
  case isTrue hfit =>
    cases h
    simp
    omega
  case isFalse => cases h

theorem getD_of_bytes? {s : Surface} {start n k : Nat} {bytes : List UInt8}
    (h : s.bytes? start n = some bytes) (hk : k < n) :
    bytes.getD k 0 = s.data.getD (start + k) 0 := by
  by_cases hfit : start + n ≤ s.data.size
  · obtain ⟨_, h', -, hgetD⟩ := bytes?_eq hfit
    cases h.symm.trans h'
    exact hgetD k hk
  · rw [Surface.bytes?, if_neg hfit] at h
    cases h

theorem copyLines_confined (hformat : src.format = l.format) (hrot : src.rotation = l.rotation)
    (hne : ¬ r.isEmpty = true) : (copyLines src r sx sy).Confined l (l.bytesOf r) := by
  refine .require_bind fun hregion => inside_confined hne fun hr => ?_
  refine .get_bind (fun s hs => ?_) fun s t h => by rw [h]
  subst hs
  have hsource := Layout.holds_of_admits hregion (Bool.eq_false_iff.mpr hne)
  obtain ⟨hw, hh⟩ := Layout.nativeRect_size (r := r) hrot sx sy
  have hpixel : src.pixelBytes = s.pixelBytes := congrArg PixelFormat.bytes hformat
  refine .ofOption_bind fun source hsource? => .ofOption_bind fun destination hdestination => ?_
  refine .ofOption_bind fun lineBytes hline => ?_
  cases (Layout.nativeRect?_eq hsource).symm.trans hsource?
  cases (Layout.nativeRect?_eq hr).symm.trans hdestination
  obtain ⟨-, rfl⟩ := Word.mul_eq_some_iff.mp hline
  refine .ite (fun hwhole => ?_) fun _ => ?_
  · obtain ⟨hstride, hspan, -, hleft⟩ := hwhole
    refine .ofOption_bind fun length hlength => .ofOption_bind fun _ _ =>
      .ofOption_bind fun bytes hbytes => .ofOption_bind fun start hstart => overwrite_confined ?_
    obtain ⟨-, rfl⟩ := Word.mul_eq_some_iff.mp hlength
    obtain ⟨-, rfl⟩ := Word.mul_eq_some_iff.mp hstart
    rw [length_of_bytes? hbytes, hh, hstride]
    rw [hw, hpixel, hstride] at hspan
    exact Layout.block_mem_bytesOf hr hleft hspan
  · refine .forEach fun row _ hrow => .ofOption_bind fun _ _ => .ofOption_bind fun bytes hbytes =>
      .ofOption_bind fun start hstart => overwrite_confined ?_
    obtain ⟨line, hadd, hoffset⟩ := Option.bind_eq_some_iff.mp hstart
    obtain ⟨-, rfl⟩ := Word.add_eq_some_iff.mp hadd
    rw [length_of_bytes? hbytes, hw, hpixel, Layout.eq_cell_of_nativeOffset? hoffset]
    exact Layout.line_mem_bytesOf hr (Nat.le_refl _) (Nat.le_refl _) (by omega) (by omega)

theorem blit_confined (src : Surface) (r : Rect) (sx sy : Nat) :
    (blit src r sx sy).Confined l (l.bytesOf r) := by
  refine .ite (fun _ => .pure ()) fun hne => ?_
  refine .get_bind (fun s hs => ?_) fun s t h => by rw [h]
  subst hs
  exact .ite (fun h => copyLines_confined h.1 h.2 hne) fun _ => combine_confined keepsFormat_convert

theorem ditherBlit_confined (src : Surface) (r : Rect) (sx sy : Nat) :
    (ditherBlit src r sx sy).Confined l (l.bytesOf r) := by
  refine .get_bind (fun s hs => ?_) fun s t h => by rw [h]
  subst hs
  refine .ite (fun _ => .ite (fun _ => .pure ()) fun _ => ?_) fun _ => blit_confined src r sx sy
  exact combine_confined keepsFormat_dithered

theorem addBlit_confined (src : Surface) (r : Rect) (sx sy : Nat) (alpha : UInt8) :
    (addBlit src r sx sy alpha).Confined l (l.bytesOf r) := by
  refine .get_bind (fun s hs => ?_) fun s t h => by rw [h]
  subst hs
  refine .ite (fun _ => .throw _) fun _ => .ite (fun _ => .pure ()) fun _ => ?_
  refine .ite (fun _ => blit_confined src r sx sy) fun _ => ?_
  exact combine_confined (keepsFormat_blend alpha)

theorem invertBlit_confined (src : Surface) (r : Rect) (sx sy : Nat) :
    (invertBlit src r sx sy).Confined l (l.bytesOf r) := by
  refine .get_bind (fun s hs => ?_) fun s t h => by rw [h]
  subst hs
  refine .ite (fun _ => .throw _) fun hformat => ?_
  exact combine_confined (keepsFormat_inverted (Classical.not_not.mp hformat))

theorem compositeBlit_confined (op : String) (mode : AlphaMode) (dither : Bool) (src : Surface)
    (r : Rect) (sx sy : Nat) :
    (compositeBlit op mode dither src r sx sy).Confined l (l.bytesOf r) := by
  refine .get_bind (fun s hs => ?_) fun s t h => by rw [h]
  subst hs
  refine .ite (fun _ => .ite (fun _ => .pure ()) fun _ => ?_) fun _ => .throw _
  exact combine_confined (keepsFormat_composite mode dither)

theorem maskBlit_confined (mask : Surface) (r : Rect) (sx sy : Nat) (c : Rgba) :
    (maskBlit mask r sx sy c).Confined l (l.bytesOf r) :=
  .ite (fun _ => .pure ()) fun _ => combine_confined (keepsFormat_mask c)

end Transfer

end Paint

end Raster
