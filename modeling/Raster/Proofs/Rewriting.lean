import Raster.Proofs.Geometry

/-!
# Rewriting a surface pixel by pixel

`s.Rewrites t g` says all that an operator does to a surface: every pixel becomes its image under
`g`, and the bytes between and behind the pixels stay. Writes of whole pixels are rewritings.
-/

namespace Raster

/-- The byte `i` of the storage is part of the pixel at a point of the surface. -/
def Layout.ByteOf (l : Layout) (x y i : Nat) : Prop :=
  x < l.width ∧ y < l.height ∧ ∃ o, l.offset? x y = some o ∧ o ≤ i ∧ i < o + l.pixelBytes

namespace Surface

structure Rewrites (s t : Surface) (g : Nat → Nat → Pixel → Pixel) : Prop where
  layout_eq : t.toLayout = s.toLayout
  size_eq : t.data.size = s.data.size
  pixel?_eq : ∀ x y, t.pixel? x y = (s.pixel? x y).map (g x y)
  margin_eq : ∀ i, (∀ x y, ¬ s.ByteOf x y i) → t.data[i]? = s.data[i]?

/-! ## Pixels of a usable surface -/

variable {s t u : Surface} {g h : Nat → Nat → Pixel → Pixel} {x y i : Nat} {p : Pixel}

theorem lt_of_pixel? (hp : s.pixel? x y = some p) : x < s.width ∧ y < s.height := by
  rw [pixel?] at hp
  split at hp
  · assumption
  · simp at hp

theorem format_of_pixel? (hp : s.pixel? x y = some p) : p.format = s.format := by
  simp only [pixel?, if_pos (lt_of_pixel? hp), Option.bind_eq_bind, Option.bind_eq_some_iff] at hp
  obtain ⟨o, -, hread⟩ := hp
  exact Pixel.format_of_read? hread

theorem pixel?_of_addressed (hs : s.Addressed) (hx : x < s.width) (hy : y < s.height) :
    s.pixel? x y = some (Pixel.stored s.format s.data (s.place x y)) := by
  simp only [pixel?, hx, hy, and_self, if_true, hs x y hx hy, Option.bind_eq_bind,
    Option.bind_some]
  exact Pixel.read?_eq_stored (place_add_le_size hx hy)

theorem pixel?_eq_some (hs : s.Usable) (hx : x < s.width) (hy : y < s.height) :
    s.pixel? x y = some (Pixel.stored s.format s.data (s.place x y)) :=
  pixel?_of_addressed (addressed hs) hx hy

theorem pixel?_eq_none (h : ¬ (x < s.width ∧ y < s.height)) : s.pixel? x y = none :=
  if_neg h

theorem byteOf_iff (hs : s.Addressed) : s.ByteOf x y i ↔
    x < s.width ∧ y < s.height ∧ s.place x y ≤ i ∧ i < s.place x y + s.pixelBytes := by
  constructor
  · rintro ⟨hx, hy, o, ho, hi⟩
    rw [hs x y hx hy] at ho
    cases ho
    exact ⟨hx, hy, hi⟩
  · rintro ⟨hx, hy, hi⟩
    exact ⟨hx, hy, _, hs x y hx hy, hi⟩

theorem exists_byteOf (hs : s.Addressed) {c r : Nat} (hc : c < s.nativeWidth)
    (hr : r < s.nativeHeight) (hlow : s.cell c r ≤ i) (hhigh : i < s.cell c r + s.pixelBytes) :
    ∃ x y, s.ByteOf x y i := by
  obtain ⟨x, y, hx, hy, hn⟩ := Layout.exists_native hc hr
  refine ⟨x, y, (byteOf_iff hs).mpr ⟨hx, hy, ?_⟩⟩
  rw [Layout.place]
  rw [hn]
  exact ⟨hlow, hhigh⟩

/-! ## Rewritings -/

namespace Rewrites

theorem refl (s : Surface) : s.Rewrites s fun _ _ p => p where
  layout_eq := rfl
  size_eq := rfl
  pixel?_eq x y := by simp
  margin_eq _ _ := rfl

theorem usable (hg : s.Rewrites t g) (hs : s.Usable) : t.Usable := hg.layout_eq ▸ hs

theorem trans (hg : s.Rewrites t g) (hh : t.Rewrites u h) :
    s.Rewrites u fun x y p => h x y (g x y p) where
  layout_eq := hh.layout_eq.trans hg.layout_eq
  size_eq := hh.size_eq.trans hg.size_eq
  pixel?_eq x y := by
    rw [hh.pixel?_eq, hg.pixel?_eq, Option.map_map]
    rfl
  margin_eq i hi := by
    rw [hh.margin_eq i (by rw [hg.layout_eq]; exact hi), hg.margin_eq i hi]

theorem congr (hg : s.Rewrites t g) (heq : ∀ x y p, s.pixel? x y = some p → h x y p = g x y p) :
    s.Rewrites t h where
  layout_eq := hg.layout_eq
  size_eq := hg.size_eq
  pixel?_eq x y := by
    rw [hg.pixel?_eq]
    cases hp : s.pixel? x y with
    | none => rfl
    | some p => simp [heq x y p hp]
  margin_eq := hg.margin_eq

end Rewrites

theorem getElem?_congr (hs : s.Addressed) (hlayout : t.toLayout = s.toLayout)
    (hp : t.pixel? x y = s.pixel? x y) (hi : s.ByteOf x y i) : t.data[i]? = s.data[i]? := by
  have ht : t.Addressed := hlayout ▸ hs
  obtain ⟨hx, hy, hlow, hhigh⟩ := (byteOf_iff hs).mp hi
  have hx' : x < t.width := by rw [hlayout]; exact hx
  have hy' : y < t.height := by rw [hlayout]; exact hy
  have hfit := place_add_le_size hx hy
  have hfit' := place_add_le_size hx' hy'
  rw [pixel?_of_addressed hs hx hy, pixel?_of_addressed ht hx' hy'] at hp
  have hbytes := congrArg (fun p => p.toBytes[i - s.place x y]?) (Option.some.inj hp)
  rw [hlayout] at hfit' hbytes
  have hk : i - s.place x y < s.format.bytes := Nat.sub_lt_left_of_lt_add hlow hhigh
  simpa only [Pixel.getElem?_toBytes_stored hfit hk, Pixel.getElem?_toBytes_stored hfit' hk,
    Nat.add_sub_cancel' hlow] using hbytes

namespace Rewrites

theorem getElem?_eq (hg : s.Rewrites t g) (hs : s.Addressed)
    (hkeep : ∀ x y p, s.ByteOf x y i → s.pixel? x y = some p → g x y p = p) :
    t.data[i]? = s.data[i]? := by
  by_cases h : ∃ x y, s.ByteOf x y i
  · obtain ⟨x, y, hi⟩ := h
    refine getElem?_congr hs hg.layout_eq ?_ hi
    rw [hg.pixel?_eq]
    cases hp : s.pixel? x y with
    | none => rfl
    | some p => rw [Option.map_some, hkeep x y p hi hp]
  · exact hg.margin_eq i fun x y hi => h ⟨x, y, hi⟩

/-- What becomes of the pixels decides what becomes of the surface. -/
theorem unique (hs : s.Addressed) (ht : s.Rewrites t g) (hu : s.Rewrites u g) : t = u := by
  have hlayout : t.toLayout = u.toLayout := ht.layout_eq.trans hu.layout_eq.symm
  have hdata : t.data = u.data := by
    apply Array.ext_getElem?
    intro i
    by_cases h : ∃ x y, s.ByteOf x y i
    · obtain ⟨x, y, hi⟩ := h
      refine getElem?_congr (hu.layout_eq ▸ hs) hlayout ?_ (hu.layout_eq ▸ hi)
      rw [ht.pixel?_eq, hu.pixel?_eq]
    · rw [ht.margin_eq i fun x y hi => h ⟨x, y, hi⟩, hu.margin_eq i fun x y hi => h ⟨x, y, hi⟩]
  cases t
  cases u
  cases hlayout
  cases hdata
  rfl

end Rewrites

/-! ## Writes of whole pixels -/

/-- Bytes that no pixel straddles, and that all belong to pixels, rewrite the pixels inside. -/
theorem rewrites_putBytes (hs : s.Addressed) {start : Nat} {bytes : List UInt8}
    (hfit : start + bytes.length ≤ s.data.size)
    (haligned : ∀ x y, x < s.width → y < s.height → s.place x y + s.pixelBytes ≤ start ∨
      start + bytes.length ≤ s.place x y ∨
      (start ≤ s.place x y ∧ s.place x y + s.pixelBytes ≤ start + bytes.length))
    (hcovered : ∀ i, start ≤ i → i < start + bytes.length → ∃ x y, s.ByteOf x y i) :
    s.Rewrites (s.putBytes start bytes) fun x y p =>
      if start ≤ s.place x y ∧ s.place x y < start + bytes.length then
        Pixel.ofBytes s.format fun k => bytes.getD (s.place x y - start + k) 0
      else p where
  layout_eq := rfl
  size_eq := size_splice ..
  pixel?_eq x y := by
    by_cases hin : x < s.width ∧ y < s.height
    · have hbytes : 0 < s.pixelBytes := s.pixelBytes_pos
      rw [pixel?_of_addressed hs hin.1 hin.2,
        pixel?_of_addressed (s := s.putBytes start bytes) hs hin.1 hin.2]
      apply congrArg some
      show Pixel.stored s.format (splice s.data start bytes) (s.place x y) = _
      dsimp only
      rcases haligned x y hin.1 hin.2 with h | h | h
      · rw [if_neg (by omega)]
        exact Pixel.stored_splice_of_apart hfit (.inl h)
      · rw [if_neg (by omega)]
        exact Pixel.stored_splice_of_apart hfit (.inr h)
      · rw [if_pos (by omega)]
        exact Pixel.stored_splice_of_within hfit h.1 h.2
    · rw [pixel?_eq_none hin, pixel?_eq_none (s := s.putBytes start bytes) hin]
      rfl
  margin_eq i hi := by
    show (splice s.data start bytes)[i]? = _
    rw [getElem?_splice _ _ _ _ hfit, if_neg]
    rintro ⟨hlow, hhigh⟩
    obtain ⟨x, y, hxy⟩ := hcovered i hlow hhigh
    exact hi x y hxy

/-- A cell lies before a stretch of a scanline, behind it, or wholly inside. -/
theorem cell_line_cases {c r n c' r' : Nat} (hc : c + n ≤ s.nativeWidth)
    (hc' : c' < s.nativeWidth) :
    (¬ (r' = r ∧ c ≤ c' ∧ c' < c + n) ∧ (s.cell c' r' + s.pixelBytes ≤ s.cell c r ∨
      s.cell c r + n * s.pixelBytes ≤ s.cell c' r')) ∨
    ((r' = r ∧ c ≤ c' ∧ c' < c + n) ∧ s.cell c' r' = s.cell c r + (c' - c) * s.pixelBytes ∧
      s.cell c' r' + s.pixelBytes ≤ s.cell c r + n * s.pixelBytes) := by
  have hend : s.cell c r + n * s.pixelBytes = s.cell (c + n) r := by
    unfold Layout.cell
    rw [Nat.add_mul, Nat.add_assoc]
  rw [hend]
  rcases Nat.lt_trichotomy r' r with hr | rfl | hr
  · have hbefore := cell_add_le_of_row_lt hc' hr
    have hstart : r * s.stride ≤ s.cell c r := row_mul_le_cell
    exact .inl ⟨by omega, .inl (by omega)⟩
  · rcases Nat.lt_or_ge c' c with h | h
    · exact .inl ⟨by omega, .inl (cell_add_le_of_column_lt h)⟩
    · rcases Nat.lt_or_ge c' (c + n) with hn | hn
      · refine .inr ⟨⟨rfl, h, hn⟩, ?_, cell_add_le_of_column_lt hn⟩
        unfold Layout.cell
        rw [Nat.add_assoc, ← Nat.add_mul, Nat.add_sub_cancel' h]
      · refine .inl ⟨by omega, .inr ?_⟩
        exact Nat.add_le_add_left (Nat.mul_le_mul_right _ hn) _
  · have hbehind : r' * s.stride ≤ s.cell c' r' := row_mul_le_cell
    have hrow := Nat.mul_le_mul_right s.stride (show r + 1 ≤ r' from hr)
    have hline := Nat.mul_le_mul_right s.pixelBytes hc
    have hstride := s.line_le_stride
    rw [Nat.succ_mul] at hrow
    refine .inl ⟨by omega, .inr ?_⟩
    unfold Layout.cell at hbehind ⊢
    omega

theorem rewrites_putLine (hs : s.Addressed) (hw : 0 < s.nativeWidth) {c r n : Nat}
    {bytes : List UInt8} (hlen : bytes.length = n * s.pixelBytes) (hc : c + n ≤ s.nativeWidth)
    (hr : r < s.nativeHeight) :
    s.Rewrites (s.putBytes (s.cell c r) bytes) fun x y p =>
      if (s.native x y).2 = r ∧ c ≤ (s.native x y).1 ∧ (s.native x y).1 < c + n then
        Pixel.ofBytes s.format fun k => bytes.getD (((s.native x y).1 - c) * s.pixelBytes + k) 0
      else p := by
  have hbytes := s.pixelBytes_pos
  have hfit : s.cell c r + bytes.length ≤ s.data.size := hlen ▸ line_add_le_size hw hc hr
  refine (rewrites_putBytes hs hfit ?_ ?_).congr ?_
  · intro x y hx hy
    have hcases := @cell_line_cases s c r n _ (s.native x y).2 hc (Layout.native_lt hx hy).1
    rw [hlen, Layout.place]
    rcases hcases with h | h <;> omega
  · intro i hlow hhigh
    have hdiv : (i - s.cell c r) / s.pixelBytes < n :=
      (Nat.div_lt_iff_lt_mul hbytes).mpr (by omega)
    have hmod := Nat.div_add_mod (i - s.cell c r) s.pixelBytes
    have hlt := Nat.mod_lt (i - s.cell c r) hbytes
    have hcell (m : Nat) : s.cell (c + m) r = s.cell c r + s.pixelBytes * m := by
      unfold Layout.cell
      rw [Nat.add_mul, Nat.mul_comm m, Nat.add_assoc]
    have hcolumn : c + (i - s.cell c r) / s.pixelBytes < s.nativeWidth := by omega
    refine exists_byteOf hs hcolumn hr ?_ ?_ <;> rw [hcell] <;> omega
  · intro x y p hp
    obtain ⟨hx, hy⟩ := lt_of_pixel? hp
    have hcases := @cell_line_cases s c r n _ (s.native x y).2 hc (Layout.native_lt hx hy).1
    rw [hlen, Layout.place]
    rcases hcases with h | h
    · rw [if_neg h.1, if_neg (by omega)]
    · rw [if_pos h.1, if_pos (by omega)]
      congr 2
      funext k
      rw [h.2.1, Nat.add_sub_cancel_left]

theorem rewrites_putPixel (hs : s.Addressed) (hx : x < s.width) (hy : y < s.height)
    (hp : p.format = s.format) :
    s.Rewrites (s.putBytes (s.place x y) p.toBytes) fun x' y' q =>
      if x' = x ∧ y' = y then p else q := by
  have hbytes := s.pixelBytes_pos
  have hlen : p.toBytes.length = s.pixelBytes := by
    rw [Pixel.length_toBytes, hp]
    rfl
  have hfit : s.place x y + p.toBytes.length ≤ s.data.size := hlen ▸ place_add_le_size hx hy
  refine (rewrites_putBytes hs hfit ?_ ?_).congr ?_
  · intro x' y' hx' hy'
    rw [hlen]
    by_cases h : x' = x ∧ y' = y
    · obtain ⟨rfl, rfl⟩ := h
      omega
    · have hapart := place_disjoint hx' hy' hx hy h
      omega
  · intro i hlow hhigh
    exact ⟨x, y, hx, hy, _, hs x y hx hy, hlow, hlen ▸ hhigh⟩
  · intro x' y' q hq
    obtain ⟨hx', hy'⟩ := lt_of_pixel? hq
    rw [hlen]
    by_cases h : x' = x ∧ y' = y
    · obtain ⟨rfl, rfl⟩ := h
      rw [if_pos ⟨rfl, rfl⟩, if_pos (by omega), ← hp]
      simp only [Nat.sub_self, Nat.zero_add]
      exact (Pixel.ofBytes_toBytes p).symm
    · have hapart := place_disjoint hx' hy' hx hy h
      rw [if_neg h, if_neg (by omega)]

/-- A cell lies before a block of scanlines, behind it, or wholly inside. -/
theorem cell_lines_cases {r n c' r' : Nat} (hc' : c' < s.nativeWidth) :
    (¬ (r ≤ r' ∧ r' < r + n) ∧ (s.cell c' r' + s.pixelBytes ≤ r * s.stride ∨
      r * s.stride + n * s.stride ≤ s.cell c' r')) ∨
    ((r ≤ r' ∧ r' < r + n) ∧
      s.cell c' r' = r * s.stride + ((r' - r) * s.stride + c' * s.pixelBytes) ∧
      s.cell c' r' + s.pixelBytes ≤ r * s.stride + n * s.stride) := by
  have hend : r * s.stride + n * s.stride = (r + n) * s.stride := (Nat.add_mul ..).symm
  rw [hend]
  rcases Nat.lt_or_ge r' r with h | h
  · exact .inl ⟨by omega, .inl (cell_add_le_of_row_lt hc' h)⟩
  · rcases Nat.lt_or_ge r' (r + n) with hlt | hge
    · refine .inr ⟨⟨h, hlt⟩, ?_, cell_add_le_of_row_lt hc' hlt⟩
      rw [Layout.cell, ← Nat.add_assoc, ← Nat.add_mul, Nat.add_sub_cancel' h]
    · have hbehind := Nat.le_trans (Nat.mul_le_mul_right s.stride hge) (row_mul_le_cell (c := c'))
      exact .inl ⟨by omega, .inr hbehind⟩

/-- Every byte of a block of packed scanlines is part of some pixel. -/
theorem exists_byteOf_lines (hs : s.Usable) (hpacked : s.nativeWidth * s.pixelBytes = s.stride)
    {r n : Nat} (hr : r + n ≤ s.nativeHeight) (hlow : r * s.stride ≤ i)
    (hhigh : i < r * s.stride + n * s.stride) : ∃ x y, s.ByteOf x y i := by
  have hbytes := s.pixelBytes_pos
  have hstride : 0 < s.stride := hpacked ▸ Nat.mul_pos hs.width_pos hbytes
  have hrow : (i - r * s.stride) / s.stride < n :=
    (Nat.div_lt_iff_lt_mul hstride).mpr (by omega)
  have hcolumn : (i - r * s.stride) % s.stride / s.pixelBytes < s.nativeWidth :=
    (Nat.div_lt_iff_lt_mul hbytes).mpr (by rw [hpacked]; exact Nat.mod_lt _ hstride)
  have hrows := Nat.div_add_mod (i - r * s.stride) s.stride
  have hcolumns := Nat.div_add_mod ((i - r * s.stride) % s.stride) s.pixelBytes
  have hrest := Nat.mod_lt ((i - r * s.stride) % s.stride) hbytes
  have hcell (c m : Nat) :
      s.cell c (r + m) = r * s.stride + (s.stride * m + s.pixelBytes * c) := by
    rw [Layout.cell, Nat.add_mul, Nat.mul_comm m, Nat.mul_comm c, Nat.add_assoc]
  have hlast : r + (i - r * s.stride) / s.stride < s.nativeHeight := by omega
  refine exists_byteOf (addressed hs) hcolumn hlast ?_ ?_ <;> rw [hcell] <;> omega

theorem rewrites_putLines (hs : s.Usable) (hpacked : s.nativeWidth * s.pixelBytes = s.stride)
    {r n : Nat} {bytes : List UInt8} (hlen : bytes.length = n * s.stride)
    (hr : r + n ≤ s.nativeHeight) :
    s.Rewrites (s.putBytes (r * s.stride) bytes) fun x y p =>
      if r ≤ (s.native x y).2 ∧ (s.native x y).2 < r + n then
        Pixel.ofBytes s.format fun k => bytes.getD
          (((s.native x y).2 - r) * s.stride + (s.native x y).1 * s.pixelBytes + k) 0
      else p := by
  have hbytes := s.pixelBytes_pos
  have hfit : r * s.stride + bytes.length ≤ s.data.size := hlen ▸ lines_add_le_size hs hpacked hr
  refine (rewrites_putBytes (addressed hs) hfit ?_ ?_).congr ?_
  · intro x y hx hy
    have hcases := @cell_lines_cases s r n _ (s.native x y).2 (Layout.native_lt hx hy).1
    rw [hlen, Layout.place]
    rcases hcases with h | h <;> omega
  · intro i hlow hhigh
    exact exists_byteOf_lines hs hpacked hr hlow (hlen ▸ hhigh)
  · intro x y p hp
    obtain ⟨hx, hy⟩ := lt_of_pixel? hp
    have hcases := @cell_lines_cases s r n _ (s.native x y).2 (Layout.native_lt hx hy).1
    rw [hlen, Layout.place]
    rcases hcases with h | h
    · rw [if_neg h.1, if_neg (by omega)]
    · rw [if_pos h.1, if_pos (by omega)]
      congr 2
      funext k
      rw [h.2.1, Nat.add_sub_cancel_left]

/-! ## Transforms along a scanline -/

theorem mapPixels_succ (s : Surface) (f : Pixel → Pixel) (start n : Nat) :
    s.mapPixels f start (n + 1) =
      (s.putBytes start (f (Pixel.stored s.format s.data start)).toBytes).mapPixels f
        (start + s.pixelBytes) n :=
  rfl

theorem rewrites_mapPixels (hs : s.Usable) {f : Pixel → Pixel} {c r n : Nat}
    (hf : ∀ p, p.format = s.format → (f p).format = s.format) (hc : c + n ≤ s.nativeWidth)
    (hr : r < s.nativeHeight) :
    s.Rewrites (s.mapPixels f (s.cell c r) n) fun x y p =>
      if (s.native x y).2 = r ∧ c ≤ (s.native x y).1 ∧ (s.native x y).1 < c + n then f p
      else p := by
  induction n generalizing s c with
  | zero => exact (Rewrites.refl s).congr fun x y p _ => if_neg (by omega)
  | succ n ih =>
      obtain ⟨x, y, hx, hy, hn⟩ := Layout.exists_native (show c < s.nativeWidth by omega) hr
      have hplace : s.cell c r = s.place x y := by rw [Layout.place, hn]
      have hnext : s.place x y + s.pixelBytes = s.cell (c + 1) r := by
        rw [← hplace, Layout.cell, Layout.cell, Nat.succ_mul, Nat.add_assoc]
      rw [hplace, mapPixels_succ, hnext]
      generalize hq : f (Pixel.stored s.format s.data (s.place x y)) = q
      have hformat : q.format = s.format := hq ▸ hf _ (Pixel.format_stored ..)
      have hfirst := rewrites_putPixel (addressed hs) hx hy hformat
      have hrest := @ih (s.putBytes (s.place x y) q.toBytes) hs (c + 1) hf
        (show c + 1 + n ≤ s.nativeWidth by omega) hr
      apply (hfirst.trans hrest).congr
      intro x' y' p hp
      obtain ⟨hx', hy'⟩ := lt_of_pixel? hp
      show _ = if (s.native x' y').2 = r ∧ c + 1 ≤ (s.native x' y').1 ∧
        (s.native x' y').1 < c + 1 + n then _ else _
      by_cases h : x' = x ∧ y' = y
      · obtain ⟨rfl, rfl⟩ := h
        rw [pixel?_eq_some hs hx hy] at hp
        cases hp
        have hcolumn : c < c + (n + 1) := Nat.lt_add_of_pos_right n.succ_pos
        simp only [hn, hq, hcolumn, Nat.le_refl, Nat.not_succ_le_self, and_self, true_and, false_and,
          if_true, if_false]
      · have hne : ¬ ((s.native x' y').1 = c ∧ (s.native x' y').2 = r) := fun he =>
          h (Layout.native_inj hx' hy' hx hy ((Prod.ext he.1 he.2).trans hn.symm))
        simp only [h, if_false]
        congr 1
        grind

end Surface

end Raster
