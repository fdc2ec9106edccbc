import Mathlib.Data.Set.BooleanAlgebra
import Mathlib.Order.CompletePartialOrder
import Raster.Proofs.Region

/-!
# Computations confined to some bytes

A computation is confined to a set of bytes when it neither looks at the other bytes nor changes
them. This holds of a computation when it holds of its parts. Computations confined to disjoint
sets do not notice each other: they may trade places.
-/

namespace Raster

namespace Surface

/-- The surfaces have one layout and size of storage, and the same bytes in `B`. -/
structure AgreeOn (B : Set Nat) (s t : Surface) : Prop where
  layout_eq : t.toLayout = s.toLayout
  size_eq : t.data.size = s.data.size
  getElem?_eq : ∀ i ∈ B, t.data[i]? = s.data[i]?

namespace AgreeOn

variable {B C : Set Nat} {s t u : Surface} {start n : Nat} {bytes : List UInt8}

theorem refl (B : Set Nat) (s : Surface) : s.AgreeOn B s :=
  ⟨rfl, rfl, fun _ _ => rfl⟩

theorem symm (h : s.AgreeOn B t) : t.AgreeOn B s :=
  ⟨h.layout_eq.symm, h.size_eq.symm, fun i hi => (h.getElem?_eq i hi).symm⟩

theorem trans (hst : s.AgreeOn B t) (htu : t.AgreeOn B u) : s.AgreeOn B u where
  layout_eq := htu.layout_eq.trans hst.layout_eq
  size_eq := htu.size_eq.trans hst.size_eq
  getElem?_eq i hi := (htu.getElem?_eq i hi).trans (hst.getElem?_eq i hi)

theorem mono (h : s.AgreeOn C t) (hBC : B ⊆ C) : s.AgreeOn B t :=
  ⟨h.layout_eq, h.size_eq, fun i hi => h.getElem?_eq i (hBC hi)⟩

/-- Surfaces that agree inside and outside a set are the same. -/
theorem eq (h : s.AgreeOn B t) (hrest : s.AgreeOn Bᶜ t) : t = s := by
  have hlayout := h.layout_eq
  have hdata : t.data = s.data := by
    apply Array.ext_getElem?
    intro i
    by_cases hi : i ∈ B
    · exact h.getElem?_eq i hi
    · exact hrest.getElem?_eq i hi
  cases s
  cases t
  cases hlayout
  cases hdata
  rfl

theorem putBytes (h : s.AgreeOn B t) (hfit : start + bytes.length ≤ s.data.size) :
    (s.putBytes start bytes).AgreeOn B (t.putBytes start bytes) where
  layout_eq := h.layout_eq
  size_eq := by simp only [Surface.putBytes, size_splice, h.size_eq]
  getElem?_eq i hi := by
    simp only [Surface.putBytes, getElem?_splice _ _ _ _ hfit,
      getElem?_splice _ _ _ _ (h.size_eq ▸ hfit), h.getElem?_eq i hi]

theorem read?_eq (h : s.AgreeOn B t) (hB : ∀ k < s.pixelBytes, start + k ∈ B) :
    Pixel.read? t.format t.data start = Pixel.read? s.format s.data start := by
  simp only [Pixel.read?, h.layout_eq, h.size_eq]
  split
  case isTrue => exact congrArg some (Pixel.stored_congr fun k hk => h.getElem?_eq _ (hB k hk))
  case isFalse => rfl

end AgreeOn

variable {B : Set Nat} {s t : Surface} {start n : Nat} {bytes : List UInt8}

theorem paint_overwrite_of_not (h : ¬ start + bytes.length ≤ s.data.size) :
    s.paint (Paint.overwrite start bytes) = (.error .fault, s) := by
  rw [Paint.overwrite, paint_get_bind, paint_require_bind_of_not s h]

theorem eq_some_of_paint_ofOption {α : Type} {o : Option α} {a : α}
    (h : (s.paint (Paint.ofOption o)).1 = .ok a) : o = some a := by
  cases o with
  | none => cases h
  | some b =>
      cases h
      rfl

/-- Bytes written inside a set leave the others alone. -/
theorem agreeOn_compl_putBytes (hB : ∀ k < bytes.length, start + k ∈ B)
    (hfit : start + bytes.length ≤ s.data.size) : s.AgreeOn Bᶜ (s.putBytes start bytes) where
  layout_eq := rfl
  size_eq := size_splice ..
  getElem?_eq i hi := by
    simp only [putBytes, getElem?_splice _ _ _ _ hfit]
    refine if_neg fun hin => hi ?_
    have hk := hB (i - start) (by omega)
    rwa [Nat.add_sub_cancel' hin.1] at hk

/-- Changing the pixels of a stretch inside a set looks at no other bytes. -/
theorem AgreeOn.mapPixels {f : Pixel → Pixel}
    (hf : ∀ p, p.format = s.format → (f p).format = s.format)
    (hB : ∀ k < n * s.pixelBytes, start + k ∈ B) (hfit : start + n * s.pixelBytes ≤ s.data.size)
    (h : s.AgreeOn B t) :
    (s.mapPixels f start n).AgreeOn B (t.mapPixels f start n) ∧
      s.AgreeOn Bᶜ (s.mapPixels f start n) := by
  induction n generalizing s t start with
  | zero => exact ⟨h, .refl _ s⟩
  | succ n ih =>
      rw [Nat.succ_mul] at hB hfit
      have hread : Pixel.stored t.format t.data start = Pixel.stored s.format s.data start := by
        rw [h.layout_eq]
        exact Pixel.stored_congr fun k hk => h.getElem?_eq _ (hB k (Nat.lt_add_left _ hk))
      have hstep : t.pixelBytes = s.pixelBytes := congrArg Layout.pixelBytes h.layout_eq
      rw [mapPixels_succ, mapPixels_succ, hread, hstep]
      have hformat := hf _ (Pixel.format_stored s.format s.data start)
      generalize f (Pixel.stored s.format s.data start) = p at hformat
      have hlength : p.toBytes.length = s.pixelBytes := by
        rw [Pixel.length_toBytes, hformat]
        rfl
      have hhead : start + p.toBytes.length ≤ s.data.size := by omega
      have hB' : ∀ k < n * s.pixelBytes, start + s.pixelBytes + k ∈ B := fun k hk => by
        rw [Nat.add_assoc]
        exact hB _ (by omega)
      have hfit' : start + s.pixelBytes + n * s.pixelBytes ≤
          (s.putBytes start p.toBytes).data.size := by
        rw [Surface.putBytes, size_splice]
        omega
      obtain ⟨hagree, hrest⟩ := ih (s := s.putBytes start p.toBytes) hf hB' hfit' (h.putBytes hhead)
      exact ⟨hagree, (agreeOn_compl_putBytes (fun k hk => hB k (by omega)) hhead).trans hrest⟩

end Surface

namespace Paint

variable {α β : Type}

/-- On surfaces of this layout the computation looks at and changes no bytes but those in `B`. -/
def Confined (p : Paint α) (l : Layout) (B : Set Nat) : Prop :=
  ∀ s t : Surface, s.toLayout = l → s.AgreeOn B t →
    (t.paint p).1 = (s.paint p).1 ∧ (s.paint p).2.AgreeOn B (t.paint p).2 ∧
      s.AgreeOn Bᶜ (s.paint p).2

namespace Confined

variable {l : Layout} {B C : Set Nat} {p q : Paint α}

/-! ## Rules -/

theorem pure (a : α) : Confined (Pure.pure a) l B :=
  fun s _ _ h => ⟨rfl, h, .refl _ s⟩

theorem throw (e : Failure) : Confined (MonadExcept.throw e : Paint α) l B :=
  fun s _ _ h => ⟨rfl, h, .refl _ s⟩

/-- A computation goes on with what the first part can come to. -/
theorem bind_of_ok {k : α → Paint β} (hp : p.Confined l B)
    (hk : ∀ (s : Surface) (a : α), s.toLayout = l → (s.paint p).1 = .ok a → (k a).Confined l B) :
    (p >>= k).Confined l B := by
  intro s t hs hst
  obtain ⟨hout, hagree, hrest⟩ := hp s t hs hst
  have hnext := fun a => hk s a hs
  rw [Surface.paint_bind, Surface.paint_bind]
  cases hps : s.paint p with
  | mk out s' =>
      cases hpt : t.paint p with
      | mk out' t' =>
          rw [hps, hpt] at hout hagree
          rw [hps] at hrest hnext
          cases hout
          cases out with
          | ok a =>
              obtain ⟨hout', hagree', hrest'⟩ :=
                hnext a rfl s' t' (hrest.layout_eq.trans hs) hagree
              exact ⟨hout', hagree', hrest.trans hrest'⟩
          | error e => exact ⟨rfl, hagree, hrest⟩

theorem bind {k : α → Paint β} (hp : p.Confined l B) (hk : ∀ a, (k a).Confined l B) :
    (p >>= k).Confined l B :=
  hp.bind_of_ok fun _ a _ _ => hk a

/-- Only layouts that some surface has matter. -/
theorem of_surface (h : ∀ s : Surface, s.toLayout = l → p.Confined l B) : p.Confined l B :=
  fun s t hs => h s hs s t hs

/-- A computation may go by the layout. -/
theorem get_bind {k : Surface → Paint α} (hk : ∀ s : Surface, s.toLayout = l → (k s).Confined l B)
    (hlayout : ∀ s t : Surface, t.toLayout = s.toLayout → k t = k s) :
    (get >>= k).Confined l B := by
  intro s t hs hst
  rw [Surface.paint_get_bind, Surface.paint_get_bind, hlayout s t hst.layout_eq]
  exact hk s hs s t hs hst

theorem ofOption_bind {o : Option β} {k : β → Paint α}
    (hk : ∀ b, o = some b → (k b).Confined l B) : (ofOption o >>= k).Confined l B := by
  cases o with
  | none => exact throw .fault
  | some b => exact hk b rfl

theorem map_ofOption {o : Option β} {g : β → α} : (g <$> Paint.ofOption o).Confined l B := by
  cases o with
  | none => exact throw .fault
  | some b => exact pure (g b)

theorem ofExcept_bind {r : Except Failure β} {k : β → Paint α} (hk : ∀ b, (k b).Confined l B) :
    Confined (do k (← MonadExcept.ofExcept r)) l B := by
  cases r with
  | error e => exact throw e
  | ok b => exact hk b

theorem require_bind {P : Prop} [Decidable P] (hq : P → q.Confined l B) :
    Confined (do require P; q) l B := by
  rw [require]
  split
  case isTrue h => exact hq h
  case isFalse => exact throw .fault

theorem requireInside_bind {r : Rect} (hq : l.admits r = true → q.Confined l B) :
    Confined (do requireInside r; q) l B := by
  rw [requireInside, bind_assoc]
  refine get_bind (fun s hs => require_bind fun h => hq (hs ▸ h)) fun s t h => by rw [h]

theorem ite {c : Prop} [Decidable c] (hp : c → p.Confined l B) (hq : ¬ c → q.Confined l B) :
    Confined (if c then p else q) l B := by
  split
  · exact hp ‹_›
  · exact hq ‹_›

theorem forEach {step : Nat → Paint Unit} {start count : Nat}
    (h : ∀ i, start ≤ i → i < start + count → (step i).Confined l B) :
    (Paint.forEach step start count).Confined l B := by
  induction count generalizing start with
  | zero => exact pure ()
  | succ count ih =>
      refine bind (h start (Nat.le_refl _) (by omega)) fun _ => ih fun i hlow hhigh => ?_
      exact h i (by omega) (by omega)

theorem forM {step : β → Paint Unit} {as : List β} (h : ∀ a ∈ as, (step a).Confined l B) :
    (as.forM step).Confined l B := by
  induction as with
  | nil => exact pure ()
  | cons a as ih =>
      exact bind (h a List.mem_cons_self) fun _ => ih fun b hb => h b (List.mem_cons_of_mem a hb)

theorem mono (hp : p.Confined l B) (hBC : B ⊆ C) : p.Confined l C := by
  intro s t hs hst
  obtain ⟨hout, hagree, hrest⟩ := hp s t hs (hst.mono hBC)
  obtain ⟨-, -, hrest'⟩ := hp t t (hst.layout_eq.trans hs) (.refl B t)
  refine ⟨hout, ⟨hagree.layout_eq, hagree.size_eq, fun i hi => ?_⟩,
    hrest.mono (Set.compl_subset_compl.mpr hBC)⟩
  by_cases hiB : i ∈ B
  · exact hagree.getElem?_eq i hiB
  · rw [hrest'.getElem?_eq i hiB, hrest.getElem?_eq i hiB, hst.getElem?_eq i hi]

/-! ## What a confined computation leaves alone -/

variable {s : Surface}

theorem layout_eq (hp : p.Confined l B) (hs : s.toLayout = l) : (s.paint p).2.toLayout = l :=
  (hp s s hs (.refl B s)).2.2.layout_eq.trans hs

theorem agreeOn_compl (hp : p.Confined l B) (hs : s.toLayout = l) : s.AgreeOn Bᶜ (s.paint p).2 :=
  (hp s s hs (.refl B s)).2.2

/-! ## Trading places -/

variable {q : Paint β}

/-- What one of two computations finds is not changed by the other. -/
theorem agreeOn_of_disjoint (hq : q.Confined l C) (hBC : Disjoint B C) (hs : s.toLayout = l) :
    s.AgreeOn B (s.paint q).2 :=
  (hq.agreeOn_compl hs).mono (Set.subset_compl_iff_disjoint_right.mpr hBC)

theorem outcome_eq (hp : p.Confined l B) (hq : q.Confined l C) (hBC : Disjoint B C)
    (hs : s.toLayout = l) : ((s.paint q).2.paint p).1 = (s.paint p).1 :=
  (hp s _ hs (hq.agreeOn_of_disjoint hBC hs)).1

/-- Confined to disjoint sets, two computations leave the same surface in either order. -/
theorem paint_comm (hp : p.Confined l B) (hq : q.Confined l C) (hBC : Disjoint B C)
    (hs : s.toLayout = l) : ((s.paint q).2.paint p).2 = ((s.paint p).2.paint q).2 := by
  have hqp := hp s _ hs (hq.agreeOn_of_disjoint hBC hs)
  have hpq := hq s _ hs (hp.agreeOn_of_disjoint hBC.symm hs)
  have hafterP := hq.agreeOn_compl (hp.layout_eq hs)
  have hafterQ := hp.agreeOn_compl (hq.layout_eq hs)
  have hBC' := Set.subset_compl_iff_disjoint_right.mpr hBC
  have hB : ((s.paint p).2.paint q).2.AgreeOn B ((s.paint q).2.paint p).2 :=
    (hafterP.mono hBC').symm.trans hqp.2.1
  have hrest : ((s.paint p).2.paint q).2.AgreeOn Bᶜ (s.paint q).2 := by
    refine ⟨?_, hpq.2.1.size_eq.symm, fun i hi => ?_⟩
    · rw [hq.layout_eq hs, hq.layout_eq (hp.layout_eq hs)]
    · by_cases hiC : i ∈ C
      · exact (hpq.2.1.getElem?_eq i hiC).symm
      · rw [(hq.agreeOn_compl hs).getElem?_eq i hiC, hafterP.getElem?_eq i hiC,
          (hp.agreeOn_compl hs).getElem?_eq i hi]
  exact hB.eq (hrest.trans hafterQ)

end Confined

end Paint

/-- Both computations of a sequence succeed, one on what the other leaves. -/
theorem Surface.paint_seq_eq_ok_iff {s out : Surface} {p q : Paint Unit} :
    s.paint (do p; q) = (.ok (), out) ↔
      (s.paint p).1 = .ok () ∧ (s.paint p).2.paint q = (.ok (), out) := by
  rw [paint_bind]
  cases s.paint p with
  | mk end' t =>
      cases end' with
      | ok a => simp
      | error e => simp

namespace Paint

variable {l : Layout} {B C : Set Nat} {start : Nat}

/-- Confined to disjoint sets, two computations succeed in both orders or in none, and with the
same surface. -/
theorem Confined.paint_seq_comm {p q : Paint Unit} {s : Surface} (hp : p.Confined l B)
    (hq : q.Confined l C) (hBC : Disjoint B C) (hs : s.toLayout = l) (out : Surface) :
    s.paint (do p; q) = (.ok (), out) ↔ s.paint (do q; p) = (.ok (), out) := by
  have houtp := hp.outcome_eq hq hBC hs
  have houtq := hq.outcome_eq hp hBC.symm hs
  have hsame := hp.paint_comm hq hBC hs
  rw [Surface.paint_seq_eq_ok_iff, Surface.paint_seq_eq_ok_iff, Prod.ext_iff, Prod.ext_iff, houtp,
    houtq, hsame]
  exact and_left_comm

/-! ## Reading and writing -/

theorem overwrite_confined {bytes : List UInt8} (hB : ∀ k < bytes.length, start + k ∈ B) :
    (overwrite start bytes).Confined l B := by
  intro s t _ hst
  by_cases hfit : start + bytes.length ≤ s.data.size
  · rw [Surface.paint_overwrite hfit, Surface.paint_overwrite (hst.size_eq ▸ hfit)]
    exact ⟨rfl, hst.putBytes hfit, Surface.agreeOn_compl_putBytes hB hfit⟩
  · rw [Surface.paint_overwrite_of_not hfit, Surface.paint_overwrite_of_not (hst.size_eq ▸ hfit)]
    exact ⟨rfl, hst, .refl _ s⟩

/-- Looking something up in the bytes of the set. -/
theorem Confined.ofOption_get {α : Type} {g : Surface → Option α}
    (h : ∀ s t : Surface, s.toLayout = l → s.AgreeOn B t → g t = g s) :
    Confined (do ofOption (g (← get))) l B := by
  intro s t hs hst
  rw [Surface.paint_get_bind, Surface.paint_get_bind, h s t hs hst]
  cases g s with
  | none => exact ⟨rfl, hst, .refl _ s⟩
  | some a => exact ⟨rfl, hst, .refl _ s⟩

/-- Reading a pixel by its first byte. -/
theorem pixelFrom_bind_confined {α : Type} {k : Pixel → Paint α}
    (hB : ∀ k < l.pixelBytes, start + k ∈ B)
    (hk : ∀ p, p.format = l.format → (k p).Confined l B) :
    (pixelFrom start >>= k).Confined l B := by
  refine .bind_of_ok (.ofOption_get (g := fun s => Pixel.read? s.format s.data start) ?_) ?_
  · rintro s t rfl hst
    exact hst.read?_eq hB
  · rintro s p rfl hp
    exact hk p (Pixel.format_of_read? (Surface.eq_some_of_paint_ofOption hp))

/-- Reading the pixel at a point. -/
theorem pixel_bind_confined {α : Type} {x y : Nat} {k : Pixel → Paint α}
    (hB : x < l.width → y < l.height → ∀ o, l.offset? x y = some o → ∀ k < l.pixelBytes, o + k ∈ B)
    (hk : ∀ p, p.format = l.format → (k p).Confined l B) : (pixel x y >>= k).Confined l B := by
  refine .bind_of_ok (.ofOption_get (g := fun s => s.pixel? x y) ?_) ?_
  · rintro s t rfl hst
    simp only [Surface.pixel?, hst.layout_eq]
    split
    case isTrue hin =>
      cases ho : s.offset? x y with
      | none => rfl
      | some o =>
          have hread := hst.read?_eq (hB hin.1 hin.2 o ho)
          rwa [hst.layout_eq] at hread
    case isFalse => rfl
  · rintro s p rfl hp
    exact hk p (Surface.format_of_pixel? (Surface.eq_some_of_paint_ofOption hp))

theorem putPixel_confined {x y : Nat} {p : Pixel} (hp : p.format = l.format)
    (hB : x < l.width → y < l.height → ∀ o, l.offset? x y = some o →
      ∀ k < l.pixelBytes, o + k ∈ B) : (putPixel x y p).Confined l B := by
  refine .get_bind (fun s hs => ?_) fun s t h => by rw [h]
  subst hs
  refine .require_bind fun hin => .ofOption_bind fun o ho => overwrite_confined ?_
  rw [Pixel.length_toBytes, hp]
  exact hB hin.1 hin.2 o ho

theorem mapLine_confined {f : Pixel → Pixel} {n : Nat}
    (hf : ∀ p, p.format = l.format → (f p).format = l.format)
    (hB : ∀ k < n * l.pixelBytes, start + k ∈ B) : (mapLine f start n).Confined l B := by
  rintro s t rfl hst
  have hbytes : t.pixelBytes = s.pixelBytes := congrArg Layout.pixelBytes hst.layout_eq
  rw [mapLine, Surface.paint_get_bind, Surface.paint_get_bind]
  by_cases hfit : start + n * s.pixelBytes ≤ s.data.size
  · rw [s.paint_require_bind hfit, t.paint_require_bind (by rwa [hbytes, hst.size_eq])]
    obtain ⟨hagree, hrest⟩ := Surface.AgreeOn.mapPixels hf hB hfit hst
    exact ⟨rfl, hagree, hrest⟩
  · rw [s.paint_require_bind_of_not hfit,
      t.paint_require_bind_of_not (by rwa [hbytes, hst.size_eq])]
    exact ⟨rfl, hst, .refl _ s⟩

end Paint

end Raster
