import Raster.Proofs.Storage

/-!
# Addresses of pixels

A logical point shows one cell of the native grid, and the cells of a usable surface are disjoint
stretches of its storage. The signed address computation finds exactly the cell.
-/

namespace Raster

/-! ## Words and signed words -/

namespace Word

theorem add_of_lt {a b : Nat} (h : a + b < bound) : add a b = some (a + b) :=
  add_eq_some_iff.mpr ⟨h, rfl⟩

theorem mul_of_lt {a b : Nat} (h : a * b < bound) : mul a b = some (a * b) :=
  mul_eq_some_iff.mpr ⟨h, rfl⟩

theorem signed_of_lt {n : Nat} (h : n < Offset.bound) : signed n = n :=
  if_pos h

end Word

namespace Offset

theorem fit_eq {i : Int} (hlow : -bound ≤ i) (hhigh : i < bound) : fit i = some i :=
  if_pos ⟨hlow, hhigh⟩

theorem mul_natCast {m n : Nat} (h : m * n < bound) : mul m n = some ((m * n : Nat) : Int) := by
  rw [mul, ← Int.natCast_mul]
  exact fit_eq (by omega) (by omega)

theorem add_natCast {m n : Nat} (h : m + n < bound) : add m n = some ((m + n : Nat) : Int) := by
  rw [add, ← Int.natCast_add]
  exact fit_eq (by omega) (by omega)

theorem neg_natCast {n : Nat} (h : n < bound) : neg n = some (-(n : Int)) :=
  fit_eq (by omega) (by omega)

theorem bound_lt_word : bound < Word.bound := by decide

theorem natCast_bound : (bound : Int) = 0x8000_0000_0000_0000 := rfl

theorem add_bound : bound + bound = Word.bound := by decide

theorem unsigned_natCast {n : Nat} (h : n < bound) : unsigned n = n := by
  have hword := bound_lt_word
  rw [unsigned, Int.emod_eq_of_lt (by omega) (by omega), Int.toNat_natCast]

end Offset

theorem Addressing.offset?_eq {origin stepX stepY : Int} {x y n : Nat} (across down : Int)
    (hx : x < Offset.bound) (hy : y < Offset.bound) (hacross : x * stepX = across)
    (hdown : y * stepY = down) (hfirst : -Offset.bound ≤ across ∧ across < Offset.bound)
    (hsecond : -Offset.bound ≤ down ∧ down < Offset.bound)
    (hsum : -Offset.bound ≤ origin + across ∧ origin + across < Offset.bound)
    (hn : n < Offset.bound) (h : origin + across + down = n) :
    (⟨origin, stepX, stepY⟩ : Addressing).offset? x y = some n := by
  have hmulX : Offset.mul x stepX = some across := by
    rw [Offset.mul, hacross, Offset.fit_eq hfirst.1 hfirst.2]
  have hmulY : Offset.mul y stepY = some down := by
    rw [Offset.mul, hdown, Offset.fit_eq hsecond.1 hsecond.2]
  have haddX : Offset.add origin across = some (origin + across) :=
    Offset.fit_eq hsum.1 hsum.2
  have haddY : Offset.add (origin + across) down = some (n : Int) := by
    rw [Offset.add, h, Offset.fit_eq (by omega) (by omega)]
  simp only [Addressing.offset?, Word.signed_of_lt hx, Word.signed_of_lt hy, hmulX, hmulY, haddX,
    haddY, Option.bind_eq_bind, Option.bind_some]
  exact congrArg some (Offset.unsigned_natCast hn)

/-! ## The native grid -/

namespace Layout

/-- Both sides are positive, and the distance of the scanlines is a signed word. -/
structure Usable (l : Layout) : Prop where
  width_pos : 0 < l.nativeWidth
  height_pos : 0 < l.nativeHeight
  stride_lt : l.stride < Offset.bound

/-- The native column and row that a logical point shows. -/
def native (l : Layout) (x y : Nat) : Nat × Nat :=
  match l.rotation with
  | .upright => (x, y)
  | .clockwise => (l.nativeWidth - 1 - y, x)
  | .upsideDown => (l.nativeWidth - 1 - x, l.nativeHeight - 1 - y)
  | .counterClockwise => (y, l.nativeHeight - 1 - x)

/-- The first byte of a native column and row. -/
def cell (l : Layout) (column row : Nat) : Nat := row * l.stride + column * l.pixelBytes

/-- The first byte of the pixel at a logical point. -/
def place (l : Layout) (x y : Nat) : Nat := l.cell (l.native x y).1 (l.native x y).2

/-- Every point of the layout is found where its cell is. -/
def Addressed (l : Layout) : Prop :=
  ∀ x y, x < l.width → y < l.height → l.offset? x y = some (l.place x y)

theorem Addressed.finds {l : Layout} (hl : l.Addressed) {a : Addressing}
    (ha : l.addressing? = some a) {x y : Nat} (hx : x < l.width) (hy : y < l.height) :
    a.offset? x y = some (l.place x y) := by
  rw [← hl x y hx hy, offset?, ha]
  rfl

theorem cell_add_column (l : Layout) (c n r : Nat) :
    l.cell (c + n) r = l.cell c r + n * l.pixelBytes := by
  rw [cell, cell, Nat.add_mul, Nat.add_assoc]

theorem pixelBytes_pos (l : Layout) : 0 < l.pixelBytes := l.format.bytes_pos

variable {l : Layout} {x y x' y' : Nat}

theorem native_lt (hx : x < l.width) (hy : y < l.height) :
    (l.native x y).1 < l.nativeWidth ∧ (l.native x y).2 < l.nativeHeight := by
  revert hx hy
  unfold width height native Rotation.logicalSize
  cases l.rotation <;> simp [Rotation.swapsAxes, Rotation.turns] <;> omega

theorem native_inj (hx : x < l.width) (hy : y < l.height) (hx' : x' < l.width)
    (hy' : y' < l.height) (h : l.native x y = l.native x' y') : x = x' ∧ y = y' := by
  revert hx hy hx' hy' h
  unfold width height native Rotation.logicalSize
  cases l.rotation <;> simp [Rotation.swapsAxes, Rotation.turns] <;> omega

theorem mapPoint?_eq (hx : x < l.width) (hy : y < l.height) :
    l.rotation.mapPoint? x y l.nativeWidth l.nativeHeight = some (l.native x y) := by
  revert hx hy
  simp only [width, height, native, Rotation.logicalSize]
  cases l.rotation <;>
    simp [Rotation.mapPoint?, Rotation.swapsAxes, Rotation.turns, Word.sub] <;> intros <;>
    grind

/-- It does not matter through which rotation the sides are measured. -/
theorem usable_iff : l.Usable ↔ (0 < l.width ∧ 0 < l.height) ∧ l.stride < Offset.bound := by
  have hsides : (0 < l.width ∧ 0 < l.height) ↔ 0 < l.nativeWidth ∧ 0 < l.nativeHeight := by
    unfold width height Rotation.logicalSize
    split
    · exact And.comm
    · exact Iff.rfl
  rw [hsides]
  exact ⟨fun h => ⟨⟨h.1, h.2⟩, h.3⟩, fun h => ⟨h.1.1, h.1.2, h.2⟩⟩

theorem exists_native {column row : Nat} (hc : column < l.nativeWidth)
    (hr : row < l.nativeHeight) :
    ∃ x y, x < l.width ∧ y < l.height ∧ l.native x y = (column, row) := by
  unfold width height native Rotation.logicalSize
  cases l.rotation with
  | upright => exact ⟨column, row, hc, hr, rfl⟩
  | clockwise =>
      refine ⟨row, l.nativeWidth - 1 - column, hr, ?_, ?_⟩
      · show l.nativeWidth - 1 - column < l.nativeWidth
        omega
      · exact Prod.ext (by simp only; omega) rfl
  | upsideDown =>
      refine ⟨l.nativeWidth - 1 - column, l.nativeHeight - 1 - row, ?_, ?_, ?_⟩
      · show l.nativeWidth - 1 - column < l.nativeWidth
        omega
      · show l.nativeHeight - 1 - row < l.nativeHeight
        omega
      · exact Prod.ext (by simp only; omega) (by simp only; omega)
  | counterClockwise =>
      refine ⟨l.nativeHeight - 1 - row, column, ?_, hc, ?_⟩
      · show l.nativeHeight - 1 - row < l.nativeHeight
        omega
      · exact Prod.ext rfl (by simp only; omega)

end Layout

/-! ## Cells in the storage -/

namespace Surface

variable {s : Surface} {c r c' r' x y x' y' : Nat}

theorem line_le_stride (s : Surface) : s.nativeWidth * s.pixelBytes ≤ s.stride :=
  Nat.le_trans (Nat.mul_le_mul_right _ s.fits.width_le) s.fits.pixelStride_le

/-- Columns that fill a stride are all there are, and leave no gap between scanlines. -/
theorem packed_of_span {n : Nat} (hn : n ≤ s.nativeWidth) (hspan : n * s.pixelBytes = s.stride) :
    n = s.nativeWidth ∧ s.nativeWidth * s.pixelBytes = s.stride := by
  have hline := s.line_le_stride
  have hcolumns := Nat.mul_le_mul_right s.pixelBytes hn
  have hpacked : s.nativeWidth * s.pixelBytes = s.stride := by omega
  exact ⟨Nat.eq_of_mul_eq_mul_right s.pixelBytes_pos (hspan.trans hpacked.symm), hpacked⟩

/-- The first byte of the last scanline, and the last scanline itself, lie in the storage. -/
theorem lastLine_le (hw : 0 < s.nativeWidth) (hh : 0 < s.nativeHeight) :
    (s.nativeHeight - 1) * s.stride + s.nativeWidth * s.pixelBytes ≤ s.data.size := by
  have h := s.fits.needed_le
  rwa [Layout.neededBytes, if_neg (by omega), Nat.mul_comm s.stride] at h

theorem cell_add_le_line (hc : c < s.nativeWidth) :
    s.cell c r + s.pixelBytes ≤ r * s.stride + s.nativeWidth * s.pixelBytes := by
  have h := Nat.mul_le_mul_right s.pixelBytes (show c + 1 ≤ s.nativeWidth from hc)
  rw [Nat.succ_mul] at h
  rw [Layout.cell]
  omega

theorem line_add_le_size (hw : 0 < s.nativeWidth) {n : Nat} (hc : c + n ≤ s.nativeWidth)
    (hr : r < s.nativeHeight) : s.cell c r + n * s.pixelBytes ≤ s.data.size := by
  have hrow := Nat.mul_le_mul_right s.stride (show r ≤ s.nativeHeight - 1 by omega)
  have hline := Nat.mul_le_mul_right s.pixelBytes hc
  have hlast := lastLine_le hw (show 0 < s.nativeHeight by omega)
  rw [Nat.add_mul] at hline
  rw [Layout.cell]
  omega

theorem lines_add_le_size (hs : s.Usable) (hpacked : s.nativeWidth * s.pixelBytes = s.stride)
    {n : Nat} (hr : r + n ≤ s.nativeHeight) : r * s.stride + n * s.stride ≤ s.data.size := by
  have hlast := lastLine_le hs.width_pos hs.height_pos
  have hrow := Nat.mul_le_mul_right s.stride hr
  have hh : (s.nativeHeight - 1) * s.stride + s.stride = s.nativeHeight * s.stride := by
    rw [← Nat.succ_mul, Nat.succ_eq_add_one, Nat.sub_add_cancel hs.height_pos]
  rw [Nat.add_mul] at hrow
  omega

theorem cell_add_le_size (hc : c < s.nativeWidth) (hr : r < s.nativeHeight) :
    s.cell c r + s.pixelBytes ≤ s.data.size := by
  have h := line_add_le_size (by omega) (show c + 1 ≤ s.nativeWidth from hc) hr
  rwa [Nat.one_mul] at h

theorem cell_add_le_of_row_lt (hc : c < s.nativeWidth) (h : r < r') :
    s.cell c r + s.pixelBytes ≤ r' * s.stride := by
  have hrow := Nat.mul_le_mul_right s.stride (show r + 1 ≤ r' from h)
  have hline := cell_add_le_line (s := s) (r := r) hc
  have hstride := s.line_le_stride
  rw [Nat.succ_mul] at hrow
  omega

theorem cell_add_le_of_column_lt (h : c < c') : s.cell c r + s.pixelBytes ≤ s.cell c' r := by
  have hcolumn := Nat.mul_le_mul_right s.pixelBytes (show c + 1 ≤ c' from h)
  rw [Nat.succ_mul] at hcolumn
  unfold Layout.cell
  omega

theorem row_mul_le_cell : r * s.stride ≤ s.cell c r := Nat.le_add_right _ _

theorem place_add_le_size (hx : x < s.width) (hy : y < s.height) :
    s.place x y + s.pixelBytes ≤ s.data.size :=
  cell_add_le_size (Layout.native_lt hx hy).1 (Layout.native_lt hx hy).2

theorem place_disjoint (hx : x < s.width) (hy : y < s.height) (hx' : x' < s.width)
    (hy' : y' < s.height) (h : ¬ (x = x' ∧ y = y')) :
    s.place x y + s.pixelBytes ≤ s.place x' y' ∨ s.place x' y' + s.pixelBytes ≤ s.place x y := by
  have hn := Layout.native_lt hx hy
  have hn' := Layout.native_lt hx' hy'
  have hne : ¬ s.native x y = s.native x' y' :=
    fun he => h (Layout.native_inj hx hy hx' hy' he)
  rcases Nat.lt_trichotomy (s.native x y).2 (s.native x' y').2 with hr | hr | hr
  · exact .inl (Nat.le_trans (cell_add_le_of_row_lt hn.1 hr) row_mul_le_cell)
  · rw [Layout.place]
    rw [hr]
    rcases Nat.lt_trichotomy (s.native x y).1 (s.native x' y').1 with hc | hc | hc
    · exact .inl (cell_add_le_of_column_lt hc)
    · exact absurd (Prod.ext hc hr) hne
    · exact .inr (cell_add_le_of_column_lt hc)
  · exact .inr (Nat.le_trans (cell_add_le_of_row_lt hn'.1 hr) row_mul_le_cell)

/-! ## The signed computation -/

theorem sides_lt (hw : 0 < s.nativeWidth) (hh : 0 < s.nativeHeight) :
    s.nativeWidth < Offset.bound ∧ s.nativeHeight < Offset.bound := by
  have hlast := lastLine_le hw hh
  have hsize := s.fits.size_lt
  have hline : s.nativeWidth ≤ s.nativeWidth * s.pixelBytes :=
    Nat.le_mul_of_pos_right _ s.pixelBytes_pos
  have hstride : 0 < s.stride := by
    have := s.line_le_stride
    omega
  have hrows : s.nativeHeight - 1 ≤ (s.nativeHeight - 1) * s.stride :=
    Nat.le_mul_of_pos_right _ hstride
  exact ⟨by omega, by omega⟩

theorem size_lt (hw : 0 < s.nativeWidth) (hh : 0 < s.nativeHeight) :
    s.width < Offset.bound ∧ s.height < Offset.bound := by
  have h := sides_lt hw hh
  unfold Layout.width Layout.height Rotation.logicalSize
  split <;> simp [h]

theorem width_lt (hs : s.Usable) : s.width < Offset.bound := (size_lt hs.width_pos hs.height_pos).1

theorem height_lt (hs : s.Usable) : s.height < Offset.bound := (size_lt hs.width_pos hs.height_pos).2

/-- The origin and the steps of the addressing, without signs that could be lost. -/
theorem addressing?_eq (hs : s.Usable) :
    s.addressing? = some (match s.rotation with
      | .upright => ⟨0, s.pixelBytes, s.stride⟩
      | .clockwise => ⟨((s.nativeWidth - 1) * s.pixelBytes : Nat), s.stride, -s.pixelBytes⟩
      | .upsideDown =>
        ⟨((s.nativeHeight - 1) * s.stride + (s.nativeWidth - 1) * s.pixelBytes : Nat),
          -s.pixelBytes, -s.stride⟩
      | .counterClockwise => ⟨((s.nativeHeight - 1) * s.stride : Nat), -s.stride, s.pixelBytes⟩) := by
  have hlast := lastLine_le hs.width_pos hs.height_pos
  have hsize := s.fits.size_lt
  have hsides := sides_lt hs.width_pos hs.height_pos
  have hw := hs.width_pos
  have hh := hs.height_pos
  have hbytes : s.pixelBytes < Offset.bound := by
    have := Nat.le_mul_of_pos_left s.pixelBytes hw
    omega
  have hline : (s.nativeWidth - 1) * s.pixelBytes + s.pixelBytes = s.nativeWidth * s.pixelBytes := by
    rw [← Nat.succ_mul, show (s.nativeWidth - 1).succ = s.nativeWidth by omega]
  have hcolumn : Offset.sub s.nativeWidth 1 = some ((s.nativeWidth - 1 : Nat) : Int) := by
    rw [Offset.sub, Offset.fit_eq (by omega) (by omega)]
    exact congrArg some (by omega)
  have hrow : Offset.sub s.nativeHeight 1 = some ((s.nativeHeight - 1 : Nat) : Int) := by
    rw [Offset.sub, Offset.fit_eq (by omega) (by omega)]
    exact congrArg some (by omega)
  have hmax (n : Nat) : max (n : Int) 0 = n := Int.max_eq_left (Int.natCast_nonneg n)
  unfold Layout.addressing? Addressing.of?
  simp only [Word.signed_of_lt hs.stride_lt, Word.signed_of_lt hbytes, Word.signed_of_lt hsides.1,
    Word.signed_of_lt hsides.2, hcolumn, hrow, hmax, Option.bind_eq_bind, Option.bind_some]
  have hfirst : (s.nativeWidth - 1) * s.pixelBytes < Offset.bound := by omega
  have hsecond : (s.nativeHeight - 1) * s.stride < Offset.bound := by omega
  cases s.rotation with
  | upright => rfl
  | clockwise =>
      dsimp only
      rw [Offset.mul_natCast hfirst, Offset.neg_natCast hbytes]
      rfl
  | upsideDown =>
      dsimp only
      have hsum : (s.nativeHeight - 1) * s.stride + (s.nativeWidth - 1) * s.pixelBytes <
          Offset.bound := by omega
      rw [Offset.mul_natCast hsecond, Offset.mul_natCast hfirst, Option.bind_some, Option.bind_some,
        Offset.add_natCast hsum, Offset.neg_natCast hbytes, Offset.neg_natCast hs.stride_lt]
      rfl
  | counterClockwise =>
      dsimp only
      rw [Offset.mul_natCast hsecond, Offset.neg_natCast hs.stride_lt]
      rfl

/-- The addressing of a usable surface finds the first byte of every pixel. -/
theorem addressing_finds (hs : s.Usable) :
    ∃ a, s.addressing? = some a ∧
      ∀ x y, x < s.width → y < s.height → a.offset? x y = some (s.place x y) := by
  refine ⟨_, addressing?_eq hs, ?_⟩
  intro x y hx hy
  have hplace := place_add_le_size hx hy
  have hsize := s.fits.size_lt
  have hn := Layout.native_lt hx hy
  have hxlt := Nat.lt_trans hx (width_lt hs)
  have hylt := Nat.lt_trans hy (height_lt hs)
  have hlast := lastLine_le hs.width_pos hs.height_pos
  have hline : (s.nativeWidth - 1) * s.pixelBytes + s.pixelBytes = s.nativeWidth * s.pixelBytes := by
    rw [← Nat.succ_mul, show (s.nativeWidth - 1).succ = s.nativeWidth by omega]
  have hcolumn (n : Nat) (h : n < s.nativeWidth) :
      (s.nativeWidth - 1 - n) * s.pixelBytes + n * s.pixelBytes =
        (s.nativeWidth - 1) * s.pixelBytes := by
    rw [← Nat.add_mul, Nat.sub_add_cancel (by omega)]
  have hrow (n : Nat) (h : n < s.nativeHeight) :
      (s.nativeHeight - 1 - n) * s.stride + n * s.stride = (s.nativeHeight - 1) * s.stride := by
    rw [← Nat.add_mul, Nat.sub_add_cancel (by omega)]
  have hneg (m n : Nat) : (m : Int) * -(n : Int) = -((m * n : Nat) : Int) := by
    rw [Int.mul_neg, Int.natCast_mul]
  simp only [Layout.place, Layout.cell, Layout.native] at hplace ⊢
  simp only [Layout.width, Layout.height, Rotation.logicalSize] at hx hy
  cases hr : s.rotation <;> simp only [hr] at hplace hx hy ⊢
  case upright =>
    have hX := hcolumn x hx
    have hY := hrow y hy
    refine Addressing.offset?_eq (x * s.pixelBytes : Nat) (y * s.stride : Nat) hxlt hylt
      (Int.natCast_mul ..).symm (Int.natCast_mul ..).symm ?_ ?_ ?_ ?_ ?_ <;> omega
  case clockwise =>
    have hX := hrow x hx
    have hY := hcolumn y hy
    refine Addressing.offset?_eq (x * s.stride : Nat) (-(y * s.pixelBytes : Nat)) hxlt hylt
      (Int.natCast_mul ..).symm (hneg ..) ?_ ?_ ?_ ?_ ?_ <;> omega
  case upsideDown =>
    have hX := hcolumn x hx
    have hY := hrow y hy
    refine Addressing.offset?_eq (-(x * s.pixelBytes : Nat)) (-(y * s.stride : Nat)) hxlt hylt
      (hneg ..) (hneg ..) ?_ ?_ ?_ ?_ ?_ <;> omega
  case counterClockwise =>
    have hX := hrow x hx
    have hY := hcolumn y hy
    refine Addressing.offset?_eq (-(x * s.stride : Nat)) (y * s.pixelBytes : Nat) hxlt hylt
      (hneg ..) (Int.natCast_mul ..).symm ?_ ?_ ?_ ?_ ?_ <;> omega

theorem offset?_eq (hs : s.Usable) (hx : x < s.width) (hy : y < s.height) :
    s.offset? x y = some (s.place x y) := by
  obtain ⟨a, ha, hfinds⟩ := addressing_finds hs
  simp only [Layout.offset?, ha, Option.bind_eq_bind, Option.bind_some, hfinds x y hx hy]

theorem addressed (hs : s.Usable) : s.Addressed :=
  fun _ _ => offset?_eq hs

end Surface

end Raster
