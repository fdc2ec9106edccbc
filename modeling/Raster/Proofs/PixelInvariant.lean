import Raster.Proofs.Corner
import Raster.Proofs.Footprint
import Raster.Proofs.RegionBytes

/-!
# Properties that all pixels of a surface keep

A property of single pixels that every write respects holds of all pixels after any computation,
whether it succeeds or not. This needs no address to be found: the property is one of the cells,
so that it also covers surfaces whose scanlines are too far apart to be read point by point.
-/

namespace Raster

namespace Surface

/-- Every pixel of the surface has the property `P` where it is stored. -/
def All (s : Surface) (P : Pixel → Prop) : Prop :=
  ∀ x < s.width, ∀ y < s.height, P (.stored s.format s.data (s.place x y))

instance (s : Surface) (P : Pixel → Prop) [DecidablePred P] : Decidable (s.All P) :=
  inferInstanceAs (Decidable (∀ x < s.width, ∀ y < s.height,
    P (.stored s.format s.data (s.place x y))))

variable {s src out : Surface} {P Q : Pixel → Prop} {x y : Nat} {start n : Nat} {bytes : List UInt8}

/-- On a usable surface this is said of the pixels that its points show. -/
theorem all_iff (hs : s.Usable) : s.All P ↔ ∀ x y p, s.pixel? x y = some p → P p := by
  constructor
  · intro h x y p hp
    obtain ⟨hx, hy⟩ := lt_of_pixel? hp
    rw [pixel?_eq_some hs hx hy] at hp
    cases hp
    exact h x hx y hy
  · intro h x hx y hy
    exact h x y _ (pixel?_eq_some hs hx hy)

namespace All

theorem mono (h : s.All P) (hPQ : ∀ p, p.format = s.format → P p → Q p) : s.All Q :=
  fun x hx y hy => hPQ _ (Pixel.format_stored ..) (h x hx y hy)

theorem cell (h : s.All P) {c r : Nat} (hc : c < s.nativeWidth) (hr : r < s.nativeHeight) :
    P (.stored s.format s.data (s.cell c r)) := by
  obtain ⟨x, y, hx, hy, hn⟩ := Layout.exists_native hc hr
  have hp := h x hx y hy
  rwa [Layout.place, hn] at hp

theorem of_read? (h : s.All P) (hx : x < s.width) (hy : y < s.height) {p : Pixel}
    (hp : Pixel.read? s.format s.data (s.place x y) = some p) : P p := by
  obtain ⟨-, rfl⟩ := Pixel.read?_eq_some_iff.mp hp
  exact h x hx y hy

theorem of_pixel? (h : s.All P) {p : Pixel} (hp : s.pixel? x y = some p) : P p := by
  obtain ⟨hx, hy⟩ := lt_of_pixel? hp
  rw [pixel?, if_pos ⟨hx, hy⟩] at hp
  obtain ⟨o, ho, hread⟩ := Option.bind_eq_some_iff.mp hp
  rw [eq_place_of_offset? hx hy ho] at hread
  exact h.of_read? hx hy hread

/-! ### Writes -/

/-- Bytes that no pixel straddles, and that have the property where they make up pixels. -/
theorem putBytes (h : s.All P) (hfit : start + bytes.length ≤ s.data.size)
    (hbytes : ∀ x y, x < s.width → y < s.height → (s.place x y + s.pixelBytes ≤ start ∨
      start + bytes.length ≤ s.place x y) ∨ (start ≤ s.place x y ∧
      s.place x y + s.pixelBytes ≤ start + bytes.length ∧
      P (.ofBytes s.format fun k => bytes.getD (s.place x y - start + k) 0))) :
    (s.putBytes start bytes).All P := by
  intro x hx y hy
  show P (.stored s.format (splice s.data start bytes) (s.place x y))
  rcases hbytes x y hx hy with hapart | ⟨hlow, hhigh, hp⟩
  · rw [Pixel.stored_splice_of_apart hfit hapart]
    exact h x hx y hy
  · rw [Pixel.stored_splice_of_within hfit hlow hhigh]
    exact hp

theorem putPixel (h : s.All P) (hx : x < s.width) (hy : y < s.height) {p : Pixel}
    (hformat : p.format = s.format) (hp : P p) :
    (s.putBytes (s.place x y) p.toBytes).All P := by
  have hlen : p.toBytes.length = s.pixelBytes := by
    rw [Pixel.length_toBytes, hformat]
    rfl
  refine h.putBytes (hlen ▸ place_add_le_size hx hy) fun x' y' hx' hy' => ?_
  rw [hlen]
  by_cases hsame : x' = x ∧ y' = y
  · obtain ⟨rfl, rfl⟩ := hsame
    refine .inr ⟨Nat.le_refl _, Nat.le_refl _, ?_⟩
    simp only [Nat.sub_self, Nat.zero_add]
    rwa [← hformat, Pixel.ofBytes_toBytes]
  · exact .inl (place_disjoint hx' hy' hx hy hsame)

/-- Bytes of a surface of the same format, if they bring whole cells to whole cells. -/
theorem copyBytes (h : s.All P) (hsrc : src.All P) (hformat : src.format = s.format) {offset : Nat}
    (hbytes : src.bytes? start n = some bytes) (hfit : offset + bytes.length ≤ s.data.size)
    (hcells : ∀ x y, x < s.width → y < s.height →
      (s.place x y + s.pixelBytes ≤ offset ∨ offset + n ≤ s.place x y) ∨
      (offset ≤ s.place x y ∧ s.place x y + s.pixelBytes ≤ offset + n ∧
        ∃ c r, c < src.nativeWidth ∧ r < src.nativeHeight ∧
          src.cell c r = start + (s.place x y - offset))) :
    (s.putBytes offset bytes).All P := by
  have hlen := Paint.length_of_bytes? hbytes
  refine h.putBytes hfit fun x y hx hy => ?_
  rw [hlen]
  refine (hcells x y hx hy).imp_right fun ⟨hlow, hhigh, c, r, hc, hr, hcell⟩ => ⟨hlow, hhigh, ?_⟩
  have hp := hsrc.cell hc hr
  rw [hcell, hformat] at hp
  convert hp using 1
  apply Pixel.ofBytes_congr
  intro k hk
  have hk : k < s.pixelBytes := hk
  rw [Paint.getD_of_bytes? hbytes (by omega), Nat.add_assoc]

theorem copyLine (h : s.All P) (hsrc : src.All P) (hformat : src.format = s.format)
    {c r c' r' : Nat} (hc : c + n ≤ s.nativeWidth) (hc' : c' + n ≤ src.nativeWidth)
    (hr' : r' < src.nativeHeight)
    (hbytes : src.bytes? (src.cell c' r') (n * s.pixelBytes) = some bytes)
    (hfit : s.cell c r + bytes.length ≤ s.data.size) : (s.putBytes (s.cell c r) bytes).All P := by
  have hpixel : src.pixelBytes = s.pixelBytes := congrArg PixelFormat.bytes hformat
  refine h.copyBytes hsrc hformat hbytes hfit fun x y hx hy => ?_
  obtain ⟨-, hapart⟩ | ⟨⟨-, hlow, hhigh⟩, hcell, hend⟩ :=
    @cell_line_cases s c r n _ (s.native x y).2 hc (Layout.native_lt hx hy).1
  · exact .inl hapart
  · have hplace : s.place x y = s.cell c r + ((s.native x y).1 - c) * s.pixelBytes := hcell
    refine .inr ⟨by omega, hend, c' + ((s.native x y).1 - c), r', by omega, hr', ?_⟩
    rw [Layout.cell_add_column, hpixel, hplace, Nat.add_sub_cancel_left]

theorem copyBlock (h : s.All P) (hsrc : src.All P) (hformat : src.format = s.format)
    (hstride : src.stride = s.stride) (hwidth : s.nativeWidth ≤ src.nativeWidth) {r r' : Nat}
    (hr' : r' + n ≤ src.nativeHeight)
    (hbytes : src.bytes? (r' * s.stride) (n * s.stride) = some bytes)
    (hfit : r * s.stride + bytes.length ≤ s.data.size) :
    (s.putBytes (r * s.stride) bytes).All P := by
  have hpixel : src.pixelBytes = s.pixelBytes := congrArg PixelFormat.bytes hformat
  refine h.copyBytes hsrc hformat hbytes hfit fun x y hx hy => ?_
  have hcolumn := (Layout.native_lt hx hy).1
  obtain ⟨-, hapart⟩ | ⟨⟨hlow, hhigh⟩, hcell, hend⟩ :=
    @cell_lines_cases s r n _ (s.native x y).2 hcolumn
  · exact .inl hapart
  · have hplace : s.place x y = r * s.stride +
        (((s.native x y).2 - r) * s.stride + (s.native x y).1 * s.pixelBytes) := hcell
    refine .inr ⟨by omega, hend, (s.native x y).1, r' + ((s.native x y).2 - r), by omega, by omega,
      ?_⟩
    rw [hplace, Nat.add_sub_cancel_left, Layout.cell, hpixel, hstride, Nat.add_mul, Nat.add_assoc]

theorem of_changes {r : Rect} {f : Pixel → Pixel} (h : s.All P) (hr : s.Holds r)
    (hout : s.Changes out r f) (hf : ∀ p, p.format = s.format → P p → P (f p)) : out.All P := by
  intro x hx y hy
  rw [hout.layout_eq] at hx hy ⊢
  by_cases hc : r.Covers x y
  · obtain ⟨i, p, hi, hp, hread⟩ := hout.changed x y hc
    cases (Layout.cell?_eq hx hy).symm.trans hi
    obtain ⟨-, hstored⟩ := Pixel.read?_eq_some_iff.mp hread
    rw [hstored]
    exact hf p (Pixel.format_of_read? hp) (h.of_read? hx hy hp)
  · have hsame : Pixel.stored s.format out.data (s.place x y) =
        .stored s.format s.data (s.place x y) := by
      apply Pixel.stored_congr
      intro k hk
      have hk : k < s.pixelBytes := hk
      refine hout.untouched _ fun x' y' i hc' hi => ?_
      obtain ⟨hx', hy'⟩ := lt_of_covers hr hc'
      cases (Layout.cell?_eq hx' hy').symm.trans hi
      have hapart := place_disjoint hx hy hx' hy' fun hsame => hc (by rwa [hsame.1, hsame.2])
      omega
    rw [hsame]
    exact h x hx y hy

end All

end Surface

/-- The surfaces of a layout all of whose pixels have a property. -/
structure Layout.WithAll (l : Layout) (P : Pixel → Prop) (s : Surface) : Prop where
  layout_eq : s.toLayout = l
  all : s.All P

namespace Paint

variable {α β : Type}

/-- The computation leads from surfaces with the property `I` to surfaces with it, whether it
succeeds or not. -/
def Keeps (p : Paint α) (I : Surface → Prop) : Prop := ∀ s, I s → I (s.paint p).2

namespace Keeps

variable {I : Surface → Prop} {p q : Paint α}

/-! ## Rules -/

theorem pure (a : α) : Keeps (Pure.pure a) I := fun _ h => h

theorem throw (e : Failure) : Keeps (MonadExcept.throw e : Paint α) I := fun _ h => h

/-- A computation goes on with what the first part can come to. -/
theorem bind_of_ok {k : α → Paint β} (hp : p.Keeps I)
    (hk : ∀ s a, I s → (s.paint p).1 = .ok a → (k a).Keeps I) : (p >>= k).Keeps I := by
  intro s hs
  have hfirst := hp s hs
  have hrest := fun a => hk s a hs
  rw [Surface.paint_bind]
  rcases hpaint : s.paint p with ⟨out, t⟩
  rw [hpaint] at hfirst hrest
  cases out with
  | ok a => exact hrest a rfl t hfirst
  | error e => exact hfirst

theorem bind {k : α → Paint β} (hp : p.Keeps I) (hk : ∀ a, (k a).Keeps I) : (p >>= k).Keeps I :=
  hp.bind_of_ok fun _ a _ _ => hk a

theorem get_bind {k : Surface → Paint α} (hk : ∀ s, I s → (k s).Keeps I) :
    (get >>= k).Keeps I :=
  fun s hs => hk s hs s hs

/-- Looking something up. -/
theorem ofOption_get (g : Surface → Option α) : Keeps (do ofOption (g (← get))) I := by
  intro s hs
  rw [Surface.paint_get_bind]
  cases g s <;> exact hs

theorem ofOption_bind {o : Option β} {k : β → Paint α} (hk : ∀ b, o = some b → (k b).Keeps I) :
    (ofOption o >>= k).Keeps I := by
  cases o with
  | none => exact throw .fault
  | some b => exact hk b rfl

theorem map_ofOption (o : Option β) (g : β → α) : (g <$> ofOption o).Keeps I := by
  cases o with
  | none => exact throw .fault
  | some b => exact pure (g b)

theorem require_bind {c : Prop} [Decidable c] (hq : c → q.Keeps I) :
    Keeps (do require c; q) I := by
  rw [require]
  split
  case isTrue h => exact hq h
  case isFalse => exact throw .fault

theorem ite {c : Prop} [Decidable c] (hp : c → p.Keeps I) (hq : ¬ c → q.Keeps I) :
    Keeps (if c then p else q) I := by
  split
  · exact hp ‹_›
  · exact hq ‹_›

theorem forEach {step : Nat → Paint Unit} {start count : Nat}
    (h : ∀ i, start ≤ i → i < start + count → (step i).Keeps I) :
    (Paint.forEach step start count).Keeps I := by
  induction count generalizing start with
  | zero => exact pure ()
  | succ count ih =>
      refine bind (h start (Nat.le_refl _) (by omega)) fun _ => ih fun i hlow hhigh => ?_
      exact h i (by omega) (by omega)

theorem forM {step : β → Paint Unit} (h : ∀ b, (step b).Keeps I) (as : List β) :
    (as.forM step).Keeps I := by
  induction as with
  | nil => exact pure ()
  | cons a as ih => exact bind (h a) fun _ => ih

variable {l : Layout} {P : Pixel → Prop} {r : Rect}

theorem requireInside_bind (hq : l.admits r = true → q.Keeps (l.WithAll P)) :
    Keeps (do requireInside r; q) (l.WithAll P) := by
  rw [requireInside, bind_assoc]
  exact get_bind fun s hs => require_bind fun h => hq (hs.layout_eq ▸ h)

/-- What is done to a rectangle that turned out to lie within the surface. -/
theorem inside (hne : ¬ r.isEmpty = true) (hq : l.Holds r → q.Keeps (l.WithAll P)) :
    Keeps (do requireInside r; q) (l.WithAll P) :=
  requireInside_bind fun h => hq (Layout.holds_of_admits h (Bool.eq_false_iff.mpr hne))

theorem of_changes {p : Paint Unit} {f : Pixel → Pixel} (hr : l.Holds r)
    (h : ∀ s : Surface, s.toLayout = l → ∃ out, s.paint p = (.ok (), out) ∧ s.Changes out r f)
    (hf : ∀ p, p.format = l.format → P p → P (f p)) : p.Keeps (l.WithAll P) := by
  rintro s ⟨rfl, hall⟩
  obtain ⟨out, hout, hchanges⟩ := h s rfl
  rw [hout]
  exact ⟨hchanges.layout_eq, hall.of_changes hr hchanges hf⟩

end Keeps

variable {l : Layout} {P Q : Pixel → Prop} {r : Rect}

/-! ## Single pixels -/

theorem overwrite_keeps {start : Nat} {bytes : List UInt8}
    (h : ∀ s : Surface, s.toLayout = l → s.All P → start + bytes.length ≤ s.data.size →
      (s.putBytes start bytes).All P) : (overwrite start bytes).Keeps (l.WithAll P) := by
  rintro s ⟨hs, hall⟩
  by_cases hfit : start + bytes.length ≤ s.data.size
  · rw [Surface.paint_overwrite hfit]
    exact ⟨hs, h s hs hall hfit⟩
  · rw [Surface.paint_overwrite_of_not hfit]
    exact ⟨hs, hall⟩

theorem overwritePixel_keeps {x y : Nat} {p : Pixel} (hx : x < l.width) (hy : y < l.height)
    (hformat : p.format = l.format) (hp : P p) :
    (overwrite (l.place x y) p.toBytes).Keeps (l.WithAll P) := by
  apply overwrite_keeps
  rintro s rfl hall -
  exact hall.putPixel hx hy hformat hp

theorem putPixel_keeps {x y : Nat} {p : Pixel} (hformat : p.format = l.format) (hp : P p) :
    (putPixel x y p).Keeps (l.WithAll P) := by
  refine .get_bind fun s hs => .require_bind fun hin => .ofOption_bind fun o ho => ?_
  obtain ⟨rfl, -⟩ := hs
  rw [Surface.eq_place_of_offset? hin.1 hin.2 ho]
  exact overwritePixel_keeps hin.1 hin.2 hformat hp

theorem putClamped_keeps {x y : Int} {p : Pixel} (hformat : p.format = l.format) (hp : P p) :
    (putClamped x y p).Keeps (l.WithAll P) :=
  .get_bind fun _ _ => .ite (fun _ => putPixel_keeps hformat hp) fun _ => .pure ()

theorem pixel_bind_keeps {x y : Nat} {k : Pixel → Paint α}
    (hk : ∀ p, p.format = l.format → P p → (k p).Keeps (l.WithAll P)) :
    (pixel x y >>= k).Keeps (l.WithAll P) := by
  refine .bind_of_ok (.ofOption_get fun s => s.pixel? x y) ?_
  rintro s p ⟨rfl, hall⟩ hp
  have hp := Surface.eq_some_of_paint_ofOption hp
  exact hk p (Surface.format_of_pixel? hp) (hall.of_pixel? hp)

theorem pixelFrom_bind_keeps {x y : Nat} {k : Pixel → Paint α} (hx : x < l.width)
    (hy : y < l.height) (hk : ∀ p, p.format = l.format → P p → (k p).Keeps (l.WithAll P)) :
    (pixelFrom (l.place x y) >>= k).Keeps (l.WithAll P) := by
  refine .bind_of_ok (.ofOption_get fun s => Pixel.read? s.format s.data (l.place x y)) ?_
  rintro s p ⟨rfl, hall⟩ hp
  have hp := Surface.eq_some_of_paint_ofOption hp
  exact hk p (Pixel.format_of_read? hp) (hall.of_read? hx hy hp)

/-! ## Operators on one surface -/

theorem mapRegion_keeps {f : Pixel → Pixel} (hne : ¬ r.isEmpty = true) (hr : l.Holds r)
    (hformat : ∀ p, p.format = l.format → (f p).format = l.format)
    (hf : ∀ p, p.format = l.format → P p → P (f p)) : (mapRegion r f).Keeps (l.WithAll P) := by
  refine .of_changes hr ?_ hf
  rintro s rfl
  exact mapRegion_changes (Bool.eq_false_iff.mpr hne) hr hformat

theorem fillRect_keeps (r : Rect) {v : UInt8}
    (hv : ∀ p, p.format = l.format → P p → P (p.recolor (.gray v))) :
    (fillRect r v).Keeps (l.WithAll P) := by
  by_cases hr : ¬ r.isEmpty = true ∧ l.Holds r
  · refine .of_changes hr.2 ?_ hv
    rintro s rfl
    exact RegionOperator.fillRect_changes (Bool.eq_false_iff.mpr hr.1) hr.2 v
  · exact .ite (fun _ => .pure ()) fun hne => .inside hne fun hholds => absurd ⟨hne, hholds⟩ hr

theorem fill_keeps {v : UInt8} (hv : ∀ p, p.format = l.format → P p → P (p.recolor (.gray v))) :
    (fill v).Keeps (l.WithAll P) :=
  .get_bind fun s _ => fillRect_keeps s.bounds hv

theorem invertRect_keeps (r : Rect) (h : ∀ p, p.format = l.format → P p → P p.inverted) :
    (invertRect r).Keeps (l.WithAll P) :=
  .ite (fun _ => .pure ()) fun hne => .inside hne fun hr =>
    mapRegion_keeps hne hr (fun p hp => (Pixel.format_inverted p).trans hp) h

theorem replaceRect_keeps (r : Rect) {c : Rgba} (h : P (.ofRgba l.format c)) :
    (replaceRect r c).Keeps (l.WithAll P) := by
  refine .get_bind fun s hs => ?_
  obtain ⟨rfl, -⟩ := hs
  refine .ite (fun _ => .throw _) fun _ => .ite (fun _ => .pure ()) fun hne => ?_
  exact .inside hne fun hr =>
    mapRegion_keeps hne hr (fun _ _ => Pixel.format_ofRgba ..) fun _ _ _ => h

/-- An operator that changes every pixel of a rectangle in one of two ways, as alpha tells. -/
theorem mapByAlpha_keeps (r : Rect) (alpha : UInt8) {f g : Pixel → Pixel}
    (hformat : ∀ p, (f p).format = p.format ∧ (g p).format = p.format)
    (h : ∀ p, p.format = l.format → P p → P (f p) ∧ P (g p)) :
    Keeps (unless r.isEmpty || alpha == 0 do
      requireInside r
      if alpha = 255 then mapRegion r f else mapRegion r g) (l.WithAll P) := by
  refine .ite (fun _ => .pure ()) fun hskip => ?_
  have hne : ¬ r.isEmpty = true := fun he => hskip (by rw [he, Bool.true_or])
  refine .inside hne fun hr => .ite (fun _ => ?_) fun _ => ?_
  · exact mapRegion_keeps hne hr (fun p hp => (hformat p).1.trans hp) fun p hp hP => (h p hp hP).1
  · exact mapRegion_keeps hne hr (fun p hp => (hformat p).2.trans hp) fun p hp hP => (h p hp hP).2

theorem hatchRect_keeps (r : Rect) (stripe : Nat) {v alpha : UInt8}
    (h : alpha ≠ 0 → ∀ p, p.format = l.format → P p →
      P (if alpha = 255 then p.recolor (.gray v) else p.blend (.gray v) alpha)) :
    (hatchRect r stripe v alpha).Keeps (l.WithAll P) := by
  refine .ite (fun _ => .pure ()) fun hskip => .requireInside_bind fun _ => ?_
  have halpha : alpha ≠ 0 := fun h => hskip (by simp [h])
  refine .ofOption_bind fun period _ => .forEach fun j _ _ => .forEach fun i _ _ => ?_
  refine .ofOption_bind fun diagonal _ => ?_
  refine .ite (fun _ => .ofOption_bind fun x _ => .ofOption_bind fun y _ => ?_) fun _ => .pure ()
  refine pixel_bind_keeps fun p hformat hp => putPixel_keeps ?_ (h halpha p hformat hp)
  split <;> exact (Pixel.format_channelwise ..).trans hformat

theorem putCorners_keeps (corners : Corners) {p : Pixel} (hformat : p.format = l.format) (hp : P p)
    (dx dy : Int) : (putCorners corners p dx dy).Keeps (l.WithAll P) := by
  rw [putCorners]
  exact .forM (fun _ => .ofOption_bind fun _ _ => putClamped_keeps hformat hp) _

theorem steppedColumns_keeps (corners : Corners) {p : Pixel} (hformat : p.format = l.format)
    (hp : P p) (outer : Arc) (inner : Option Arc) (x n : Nat) :
    (steppedColumns corners p outer inner x n).Keeps (l.WithAll P) := by
  have hput (dx dy : Int) := putCorners_keeps corners hformat hp dx dy
  induction n generalizing outer inner x with
  | zero => exact .pure ()
  | succ n ih =>
      refine .ite (fun _ => ?_) fun _ => .pure ()
      refine .bind (.forEach fun t _ _ => .bind (hput x t) fun _ => hput t x) fun _ => ?_
      refine .ofOption_bind fun outer' _ => ?_
      cases inner with
      | none => exact ih outer' none (x + 1)
      | some arc => exact .bind (.map_ofOption _ _) fun inner' => ih outer' inner' (x + 1)

theorem roundedCorner_keeps (rect : Rect) (border radius : Nat) {v : UInt8}
    (hv : P (.ofGray l.format v)) : (roundedCorner rect border radius v).Keeps (l.WithAll P) := by
  rw [roundedCorner]
  cases rect.cornerBorder? border radius with
  | none => exact .pure ()
  | some width =>
      refine .ofOption_bind fun corners _ => .ofOption_bind fun outer _ =>
        .ofOption_bind fun inner _ => .get_bind fun s hs => ?_
      obtain ⟨rfl, -⟩ := hs
      exact steppedColumns_keeps corners (Pixel.format_ofRgba ..) hv outer _ 0 (radius + 1)

theorem blendCorners_keeps (corners : Corners) (ring : Ring) {c : Rgba}
    (hsolid : P (.ofRgba l.format c))
    (hblend : ∀ p alpha, p.format = l.format → P p → P (p.blend c alpha)) (dx dy : Int) :
    (blendCorners corners ring c dx dy).Keeps (l.WithAll P) := by
  refine .ofOption_bind fun covered _ => .ite (fun _ => .pure ()) fun _ => ?_
  refine .ofOption_bind fun points _ => .forM (fun (x, y) => .ite (fun _ => ?_) fun _ => ?_) points
  · refine .get_bind fun s hs => ?_
    obtain ⟨rfl, -⟩ := hs
    exact putClamped_keeps (Pixel.format_ofRgba ..) hsolid
  · refine .get_bind fun _ _ => .ite (fun _ => ?_) fun _ => .pure ()
    refine pixel_bind_keeps fun p hformat hp => putPixel_keeps ?_ (hblend p _ hformat hp)
    exact (Pixel.format_channelwise ..).trans hformat

theorem smoothCorner_keeps (rect : Rect) (border radius : Nat) {v : UInt8}
    (hsolid : P (.ofGray l.format v))
    (hblend : ∀ p alpha, p.format = l.format → P p → P (p.blend (.gray v) alpha)) :
    (smoothCorner rect border radius v).Keeps (l.WithAll P) := by
  rw [smoothCorner]
  cases rect.cornerBorder? border radius with
  | none => exact .pure ()
  | some width =>
      refine .ofOption_bind fun corners _ => .ofOption_bind fun ring _ => ?_
      exact .forEach fun dy _ _ => .forEach fun dx _ _ =>
        blendCorners_keeps corners ring hsolid hblend dx dy

/-! ## Operators between two surfaces -/

section Transfer

variable {src : Surface} {sx sy : Nat} {f : Pixel → Pixel → Nat → Nat → Option Pixel}

/-- Source and destination pixels of a transfer are pixels of their surfaces, and so have the
properties that hold of all those. -/
theorem combine_keeps (hf : KeepsFormat f l.format src.format) (hsrc : src.All Q)
    (hP : ∀ old new u v p, old.format = l.format → new.format = src.format → P old → Q new →
      f old new u v = some p → P p) : (combine src r sx sy f).Keeps (l.WithAll P) := by
  refine .requireInside_bind fun hr => .require_bind fun hregion => .get_bind fun s hs => ?_
  obtain ⟨rfl, -⟩ := hs
  refine .ofOption_bind fun target htarget => .ofOption_bind fun origin horigin => ?_
  refine .forEach fun j _ hj => .ofOption_bind fun y hy => .ofOption_bind fun v hv => ?_
  refine .forEach fun i _ hi => .ofOption_bind fun u hu => .ofOption_bind fun x hx => ?_
  refine .ofOption_bind fun start hstart => .ofOption_bind fun source hsource => ?_
  obtain ⟨-, rfl⟩ := Word.add_eq_some_iff.mp hx
  obtain ⟨-, rfl⟩ := Word.add_eq_some_iff.mp hy
  obtain ⟨-, rfl⟩ := Word.add_eq_some_iff.mp hu
  obtain ⟨-, rfl⟩ := Word.add_eq_some_iff.mp hv
  have hc : r.Covers (r.x + i) (r.y + j) := ⟨by omega, by omega⟩
  have hc' : (⟨sx, sy, r.w, r.h⟩ : Rect).Covers (sx + i) (sy + j) := by
    simp only [Rect.Covers]
    omega
  obtain ⟨hwidth, hheight⟩ := Layout.lt_of_admits hr hc
  obtain ⟨hwidth', hheight'⟩ := Layout.lt_of_admits hregion hc'
  rw [Surface.eq_place_of_offset? hwidth hheight
      (Option.bind_eq_some_iff.mpr ⟨target, htarget, hstart⟩),
    Surface.eq_place_of_offset? hwidth' hheight'
      (Option.bind_eq_some_iff.mpr ⟨origin, horigin, hsource⟩)]
  refine pixelFrom_bind_keeps hwidth hheight fun old hold hPold => .ofOption_bind fun new hnew => ?_
  have hnewFormat := Pixel.format_of_read? hnew
  split
  case h_1 p hp =>
    exact overwritePixel_keeps hwidth hheight (hf _ _ _ _ _ hold hnewFormat hp)
      (hP _ _ _ _ _ hold hnewFormat hPold (hsrc.of_read? hwidth' hheight' hnew) hp)
  case h_2 => exact .pure ()

/-- Copied scanlines bring whole pixels to whole pixels, whether they come one by one or all at
once. -/
theorem copyLines_keeps (hformat : src.format = l.format) (hrot : src.rotation = l.rotation)
    (hne : ¬ r.isEmpty = true) (hsrc : src.All P) :
    (copyLines src r sx sy).Keeps (l.WithAll P) := by
  refine .require_bind fun hregion => .inside hne fun hr => .get_bind fun s hs => ?_
  simp only [hs.layout_eq]
  have hsource := Layout.holds_of_admits hregion (Bool.eq_false_iff.mpr hne)
  obtain ⟨hright, hbottom⟩ := Layout.nativeRect_within hr
  obtain ⟨hright', hbottom'⟩ := Layout.nativeRect_within hsource
  obtain ⟨hw, hh⟩ := Layout.nativeRect_size (r := r) hrot sx sy
  have hpixel : src.pixelBytes = l.pixelBytes := congrArg PixelFormat.bytes hformat
  refine .ofOption_bind fun source hsource? => .ofOption_bind fun destination hdestination => ?_
  refine .ofOption_bind fun lineBytes hline => ?_
  cases (Layout.nativeRect?_eq hsource).symm.trans hsource?
  cases (Layout.nativeRect?_eq hr).symm.trans hdestination
  obtain ⟨-, rfl⟩ := Word.mul_eq_some_iff.mp hline
  refine .ite (fun hwhole => ?_) fun _ => ?_
  · obtain ⟨hstride, hspan, -, -⟩ := hwhole
    refine .ofOption_bind fun length hlength => .ofOption_bind fun first hfirst =>
      .ofOption_bind fun bytes hbytes => .ofOption_bind fun start hstart => overwrite_keeps ?_
    obtain ⟨-, rfl⟩ := Word.mul_eq_some_iff.mp hlength
    obtain ⟨-, rfl⟩ := Word.mul_eq_some_iff.mp hfirst
    obtain ⟨-, rfl⟩ := Word.mul_eq_some_iff.mp hstart
    rintro t rfl hall hfit
    have hcolumns := (src.packed_of_span (by omega) hspan).1
    rw [hw, hpixel, hstride] at hspan
    have hcolumns' := (t.packed_of_span (by omega) hspan).1
    rw [hstride] at hbytes
    exact hall.copyBlock hsrc hformat hstride (by omega) hbottom' hbytes hfit
  · refine .forEach fun row _ hrow => .ofOption_bind fun first hfirst =>
      .ofOption_bind fun bytes hbytes => .ofOption_bind fun start hstart => overwrite_keeps ?_
    obtain ⟨line', hadd', hoffset'⟩ := Option.bind_eq_some_iff.mp hfirst
    obtain ⟨-, rfl⟩ := Word.add_eq_some_iff.mp hadd'
    obtain ⟨line, hadd, hoffset⟩ := Option.bind_eq_some_iff.mp hstart
    obtain ⟨-, rfl⟩ := Word.add_eq_some_iff.mp hadd
    cases Layout.eq_cell_of_nativeOffset? hoffset'
    cases Layout.eq_cell_of_nativeOffset? hoffset
    rw [hpixel] at hbytes
    rintro t rfl hall hfit
    exact hall.copyLine hsrc hformat (by omega) hright' (by omega) hbytes hfit

/-- Copied pixels keep a property that converting them brings about. -/
theorem blit_keeps (r : Rect) (sx sy : Nat) (hsrc : src.All Q)
    (hP : ∀ p, p.format = src.format → Q p → P (p.convert l.format)) :
    (blit src r sx sy).Keeps (l.WithAll P) := by
  refine .ite (fun _ => .pure ()) fun hne => .get_bind fun s hs => ?_
  obtain ⟨rfl, -⟩ := hs
  refine .ite (fun h => ?_) fun _ => ?_
  · refine copyLines_keeps h.1 h.2 hne (hsrc.mono fun p hp hQ => ?_)
    rw [← Pixel.convert_eq_self (hp.trans h.1)]
    exact hP p hp hQ
  · refine combine_keeps keepsFormat_convert hsrc ?_
    rintro old new u v p - hformat - hQ hp
    cases hp
    exact hP new hformat hQ

theorem ditherBlit_keeps (r : Rect) (sx sy : Nat) (hgray : l.format.isGray = true)
    (hsrc : src.All Q)
    (hP : ∀ p u v, p.format = src.format → Q p → P ((p.convert l.format).dithered u v)) :
    (ditherBlit src r sx sy).Keeps (l.WithAll P) := by
  refine .get_bind fun s hs => ?_
  obtain ⟨rfl, -⟩ := hs
  refine .ite (fun _ => .ite (fun _ => .pure ()) fun _ => ?_) fun hcolor => absurd hgray hcolor
  refine combine_keeps keepsFormat_dithered hsrc ?_
  rintro old new u v p - hformat - hQ hp
  cases hp
  exact hP new u v hformat hQ

theorem invertBlit_keeps (r : Rect) (sx sy : Nat) (hsrc : src.All Q)
    (hP : ∀ p, p.format = l.format → Q p → P p.inverted) :
    (invertBlit src r sx sy).Keeps (l.WithAll P) := by
  refine .get_bind fun s hs => ?_
  obtain ⟨rfl, -⟩ := hs
  refine .ite (fun _ => .throw _) fun hformat => ?_
  have hformat := Classical.not_not.mp hformat
  refine combine_keeps (keepsFormat_inverted hformat) hsrc ?_
  rintro old new u v p - hnew - hQ hp
  cases hp
  exact hP new (hnew.trans hformat.symm) hQ

theorem compositeBlit_keeps (op : String) (mode : AlphaMode) (dither : Bool) (r : Rect)
    (sx sy : Nat) (hsrc : src.All Q)
    (hP : ∀ old new p u v, old.format = l.format → P old → Q new →
      composite mode old new = some p → P (if dither then p.dithered u v else p)) :
    (compositeBlit op mode dither src r sx sy).Keeps (l.WithAll P) := by
  refine .get_bind fun s hs => ?_
  obtain ⟨rfl, -⟩ := hs
  refine .ite (fun _ => .ite (fun _ => .pure ()) fun _ => ?_) fun _ => .throw _
  refine combine_keeps (keepsFormat_composite mode dither) hsrc ?_
  intro old new u v p hold _ hPold hQ hp
  obtain ⟨out, hout, rfl⟩ := Option.map_eq_some_iff.mp hp
  exact hP old new out u v hold hPold hQ hout

/-- Where the alpha is 255 the pixels are copied. -/
theorem addBlit_keeps (r : Rect) (sx sy : Nat) (alpha : UInt8) (hsrc : src.All Q)
    (hcopy : alpha = 255 → ∀ p, p.format = src.format → Q p → P (p.convert l.format))
    (hblend : ∀ old new, old.format = l.format → P old → Q new → P (old.blend new.toRgba alpha)) :
    (addBlit src r sx sy alpha).Keeps (l.WithAll P) := by
  refine .get_bind fun s hs => ?_
  obtain ⟨rfl, -⟩ := hs
  refine .ite (fun _ => .throw _) fun _ => .ite (fun _ => .pure ()) fun _ =>
    .ite (fun hfull => blit_keeps r sx sy hsrc (hcopy hfull)) fun _ => ?_
  refine combine_keeps (keepsFormat_blend alpha) hsrc ?_
  rintro old new u v p hold - hP hQ hp
  cases hp
  exact hblend old new hold hP hQ

theorem maskBlit_keeps (r : Rect) (sx sy : Nat) (c : Rgba)
    (hP : ∀ old p alpha, old.format = l.format → P old → tint old c alpha = some p → P p) :
    (maskBlit src r sx sy c).Keeps (l.WithAll P) := by
  refine .ite (fun _ => .pure ()) fun _ => ?_
  refine combine_keeps (Q := fun _ => True) (keepsFormat_mask c) (fun _ _ _ _ => trivial) ?_
  intro old new u v p hold _ hPold _ hp
  exact hP old p _ hold hPold hp

end Transfer

end Paint

end Raster
