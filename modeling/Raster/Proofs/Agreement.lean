import Raster.Proofs.Corner
import Raster.Proofs.Transfer

/-!
# Surfaces that show the same

Surfaces agree when they have one format and size and show the same pixels. Their rotations,
strides and the bytes between the pixels may differ. Every operator has one effect on surfaces of
one format and size, and so preserves agreement.
-/

namespace Raster

/-- Usable layouts of one format that are seen in one size. -/
structure Layout.Alike (l k : Layout) : Prop where
  left : l.Usable
  right : k.Usable
  format_eq : k.format = l.format
  width_eq : k.width = l.width
  height_eq : k.height = l.height

namespace Surface

structure Agrees (s t : Surface) : Prop extends Layout.Alike s.toLayout t.toLayout where
  pixel?_eq : ∀ x y, t.pixel? x y = s.pixel? x y

/-- The layout is the same, and so are the bytes that are not part of a pixel. -/
structure KeepsMargin (s t : Surface) : Prop where
  layout_eq : t.toLayout = s.toLayout
  size_eq : t.data.size = s.data.size
  margin_eq : ∀ i, (∀ x y, ¬ s.ByteOf x y i) → t.data[i]? = s.data[i]?

variable {s t u : Surface}

/-- Pixels have to agree only where there are any. -/
theorem agrees_of_points (h : s.toLayout.Alike t.toLayout)
    (hp : ∀ x < s.width, ∀ y < s.height, t.pixel? x y = s.pixel? x y) : s.Agrees t := by
  refine ⟨h, fun x y => ?_⟩
  by_cases hxy : x < s.width ∧ y < s.height
  · exact hp x hxy.1 y hxy.2
  · rw [pixel?_eq_none hxy, pixel?_eq_none (by rw [h.width_eq, h.height_eq]; exact hxy)]

theorem KeepsMargin.refl (s : Surface) : s.KeepsMargin s :=
  ⟨rfl, rfl, fun _ _ => rfl⟩

theorem KeepsMargin.trans (hst : s.KeepsMargin t) (htu : t.KeepsMargin u) : s.KeepsMargin u where
  layout_eq := htu.layout_eq.trans hst.layout_eq
  size_eq := htu.size_eq.trans hst.size_eq
  margin_eq i hi :=
    (htu.margin_eq i (by rw [hst.layout_eq]; exact hi)).trans (hst.margin_eq i hi)

theorem Rewrites.keepsMargin {g : Nat → Nat → Pixel → Pixel} (h : s.Rewrites t g) :
    s.KeepsMargin t :=
  ⟨h.layout_eq, h.size_eq, h.margin_eq⟩

end Surface

namespace Paint

/-- Both computations have one effect, each on its own layout. -/
def SameEffect (p q : Paint Unit) (l k : Layout) : Prop :=
  ∃ e, p.HasEffect l e ∧ q.HasEffect k e

namespace SameEffect

variable {α : Type} {l k : Layout} {p p' q q' : Paint Unit}

theorem skip : SameEffect (pure ()) (pure ()) l k := ⟨_, .skip, .skip⟩

theorem fail (e : Failure) : SameEffect (throw e) (throw e) l k := ⟨_, .fail e, .fail e⟩

theorem seq (hp : p.SameEffect p' l k) (hq : q.SameEffect q' l k) :
    SameEffect (do p; q) (do p'; q') l k := by
  obtain ⟨e, hpe, hpe'⟩ := hp
  obtain ⟨f, hqf, hqf'⟩ := hq
  exact ⟨e.andThen f, hpe.seq hqf, hpe'.seq hqf'⟩

theorem ite {c : Prop} [Decidable c] (hp : p.SameEffect p' l k) (hq : q.SameEffect q' l k) :
    SameEffect (if c then p else q) (if c then p' else q') l k := by
  split
  · exact hp
  · exact hq

theorem ofOption_bind {o : Option α} {m m' : α → Paint Unit}
    (hm : ∀ a, (m a).SameEffect (m' a) l k) :
    SameEffect (ofOption o >>= m) (ofOption o >>= m') l k := by
  cases o with
  | none => exact fail .fault
  | some a => exact hm a

theorem forEach {step step' : Nat → Paint Unit} (h : ∀ i, (step i).SameEffect (step' i) l k)
    (start count : Nat) :
    (Paint.forEach step start count).SameEffect (Paint.forEach step' start count) l k := by
  induction count generalizing start with
  | zero => exact skip
  | succ count ih => exact seq (h start) (ih (start + 1))

end SameEffect

end Paint

/-- What has one effect on surfaces that agree ends alike and leaves surfaces that agree. -/
theorem Surface.Agrees.paint {s t : Surface} (h : s.Agrees t) {p q : Paint Unit}
    (hpq : p.SameEffect q s.toLayout t.toLayout) :
    (t.paint q).1 = (s.paint p).1 ∧ (s.paint p).2.Agrees (t.paint q).2 ∧
      s.KeepsMargin (s.paint p).2 ∧ t.KeepsMargin (t.paint q).2 := by
  obtain ⟨e, hp, hq⟩ := hpq
  obtain ⟨hpout, hprw⟩ := hp s rfl
  obtain ⟨hqout, hqrw⟩ := hq t rfl
  refine ⟨hqout.trans hpout.symm, ⟨⟨hprw.usable h.left, hqrw.usable h.right, ?_, ?_, ?_⟩, ?_⟩,
    hprw.keepsMargin, hqrw.keepsMargin⟩
  · rw [hprw.layout_eq, hqrw.layout_eq, h.format_eq]
  · rw [hprw.layout_eq, hqrw.layout_eq, h.width_eq]
  · rw [hprw.layout_eq, hqrw.layout_eq, h.height_eq]
  · intro x y
    rw [hprw.pixel?_eq, hqrw.pixel?_eq, h.pixel?_eq]

/-! ## Effects on layouts that are alike -/

namespace Layout.Alike

open Effect

variable {l k : Layout} (h : l.Alike k) {src src' : Surface} (hsrc : src.Agrees src')

include h

theorem holds_eq (r : Rect) : k.Holds r = l.Holds r := by
  unfold Holds
  rw [h.width_eq, h.height_eq]

theorem bounds_eq : k.bounds = l.bounds := by
  unfold bounds
  rw [h.width_eq, h.height_eq]

theorem onRegion_eq (r : Rect) (f : Pixel → Pixel) : onRegion k r f = onRegion l r f := by
  simp only [onRegion, h.holds_eq]

include hsrc

theorem between_eq (r : Rect) (sx sy : Nat) (f : Pixel → Pixel → Nat → Nat → Option Pixel) :
    between k src' r sx sy f = between l src r sx sy f := by
  have htransferred : transferred src' r sx sy f = transferred src r sx sy f := by
    funext x y old
    simp only [transferred, hsrc.pixel?_eq]
  simp only [between, h.holds_eq, hsrc.holds_eq, transfer, htransferred]

theorem onRegions_eq (r : Rect) (sx sy : Nat) (f : Pixel → Pixel → Nat → Nat → Option Pixel) :
    onRegions k src' r sx sy f = onRegions l src r sx sy f := by
  simp only [onRegions, h.between_eq hsrc]

theorem combined_eq (r : Rect) (sx sy : Nat) (f : Pixel → Pixel → Nat → Nat → Option Pixel) :
    combined k src' r sx sy f = combined l src r sx sy f := by
  simp only [combined, h.between_eq hsrc]

end Layout.Alike

namespace Paint

variable {l k : Layout} (h : l.Alike k)

/-- A computation that has one effect on all surfaces of a format. -/
theorem Uniform.same {p : Paint Unit} (hp : p.Uniform l.format) (h : l.Alike k) :
    p.SameEffect p l k := by
  obtain ⟨e, he⟩ := hp
  exact ⟨e, he l h.left rfl, he k h.right h.format_eq⟩

/-! ## Operators on one surface -/

include h

theorem mapRegion_same {r : Rect} {f : Pixel → Pixel} (hr : l.Holds r)
    (hf : ∀ p, p.format = l.format → (f p).format = l.format) :
    (mapRegion r f).SameEffect (mapRegion r f) l k :=
  ⟨_, mapRegion_hasEffect h.left hr hf,
    mapRegion_hasEffect h.right (h.holds_eq r ▸ hr) fun p hp => by
      rw [h.format_eq] at hp ⊢
      exact hf p hp⟩

theorem fillRect_same (r : Rect) (v : UInt8) : (fillRect r v).SameEffect (fillRect r v) l k :=
  ⟨_, fillRect_hasEffect h.left r v, h.onRegion_eq r _ ▸ fillRect_hasEffect h.right r v⟩

theorem fill_same (v : UInt8) : (fill v).SameEffect (fill v) l k := by
  refine ⟨_, fill_hasEffect h.left v, ?_⟩
  simpa only [h.bounds_eq, h.onRegion_eq] using fill_hasEffect h.right v

theorem replaceRect_same (r : Rect) (c : Rgba) :
    (replaceRect r c).SameEffect (replaceRect r c) l k := by
  refine ⟨_, replaceRect_hasEffect h.left r c, ?_⟩
  simpa only [h.format_eq, h.onRegion_eq] using replaceRect_hasEffect h.right r c

theorem blendRect_same (r : Rect) (c : Rgba) :
    (blendRect r c).SameEffect (blendRect r c) l k := by
  refine ⟨_, blendRect_hasEffect h.left r c, ?_⟩
  simpa only [h.onRegion_eq] using blendRect_hasEffect h.right r c

theorem multiplyRect_same (r : Rect) (c : Rgb) :
    (multiplyRect r c).SameEffect (multiplyRect r c) l k :=
  ⟨_, multiplyRect_hasEffect h.left r c, h.onRegion_eq r _ ▸ multiplyRect_hasEffect h.right r c⟩

theorem multiplyBlendRect_same (r : Rect) (c : Rgba) :
    (multiplyBlendRect r c).SameEffect (multiplyBlendRect r c) l k := by
  refine ⟨_, multiplyBlendRect_hasEffect h.left r c, ?_⟩
  simpa only [h.onRegion_eq] using multiplyBlendRect_hasEffect h.right r c

theorem invertRect_same (r : Rect) : (invertRect r).SameEffect (invertRect r) l k :=
  ⟨_, invertRect_hasEffect h.left r, h.onRegion_eq r _ ▸ invertRect_hasEffect h.right r⟩

theorem hatchRect_same (r : Rect) (stripe : Nat) (v alpha : UInt8) :
    (hatchRect r stripe v alpha).SameEffect (hatchRect r stripe v alpha) l k := by
  refine ⟨_, hatchRect_hasEffect h.left r stripe v alpha, ?_⟩
  simpa only [h.holds_eq] using hatchRect_hasEffect h.right r stripe v alpha

theorem setPixel_same (x y : Nat) (c : Rgba) :
    (setPixel x y c).SameEffect (setPixel x y c) l k := by
  refine ⟨_, setPixel_hasEffect h.left x y c, ?_⟩
  simpa only [h.format_eq, h.width_eq, h.height_eq] using setPixel_hasEffect h.right x y c

/-! ## Operators between two surfaces -/

variable {src src' : Surface} (hsrc : src.Agrees src') (r : Rect) (sx sy : Nat)

include hsrc

theorem blit_same : (blit src r sx sy).SameEffect (blit src' r sx sy) l k := by
  refine ⟨_, blit_hasEffect h.left hsrc.left r sx sy, ?_⟩
  simpa only [h.format_eq, h.onRegions_eq hsrc] using
    blit_hasEffect h.right hsrc.right r sx sy

theorem ditherBlit_same : (ditherBlit src r sx sy).SameEffect (ditherBlit src' r sx sy) l k := by
  refine ⟨_, ditherBlit_hasEffect h.left hsrc.left r sx sy, ?_⟩
  simpa only [h.format_eq, h.onRegions_eq hsrc] using
    ditherBlit_hasEffect h.right hsrc.right r sx sy

theorem addBlit_same (alpha : UInt8) :
    (addBlit src r sx sy alpha).SameEffect (addBlit src' r sx sy alpha) l k := by
  refine ⟨_, addBlit_hasEffect h.left hsrc.left r sx sy alpha, ?_⟩
  simpa only [h.format_eq, hsrc.format_eq, h.onRegions_eq hsrc, h.combined_eq hsrc] using
    addBlit_hasEffect h.right hsrc.right r sx sy alpha

theorem invertBlit_same : (invertBlit src r sx sy).SameEffect (invertBlit src' r sx sy) l k := by
  refine ⟨_, invertBlit_hasEffect h.left hsrc.left r sx sy, ?_⟩
  simpa only [h.format_eq, hsrc.format_eq, h.combined_eq hsrc] using
    invertBlit_hasEffect h.right hsrc.right r sx sy

theorem compositeBlit_same (op : String) (mode : AlphaMode) (dither : Bool) :
    (compositeBlit op mode dither src r sx sy).SameEffect
      (compositeBlit op mode dither src' r sx sy) l k := by
  refine ⟨_, compositeBlit_hasEffect h.left hsrc.left op mode dither r sx sy, ?_⟩
  simpa only [compositeEffect, h.format_eq, hsrc.format_eq, h.onRegions_eq hsrc] using
    compositeBlit_hasEffect h.right hsrc.right op mode dither r sx sy

theorem maskBlit_same (c : Rgba) :
    (maskBlit src r sx sy c).SameEffect (maskBlit src' r sx sy c) l k := by
  refine ⟨_, maskBlit_hasEffect h.left hsrc.left r sx sy c, ?_⟩
  simpa only [h.onRegions_eq hsrc] using maskBlit_hasEffect h.right hsrc.right r sx sy c

end Paint

end Raster
