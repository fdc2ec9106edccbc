import Raster.Proofs.Copying
import Raster.Proofs.OpFootprint
import Raster.Proofs.Refusal

/-!
# How operations and scenes fail

Whether an operation is refused, and why, can be told from the operation and from the size and the
format of the canvas. A scene fails at the first operation that is refused, if there is one.
-/

namespace Raster

namespace Rect

/-- A far edge of the rectangle is greater than any word. -/
def Overflows (r : Rect) : Prop := Word.bound ≤ r.x + r.w ∨ Word.bound ≤ r.y + r.h

instance (r : Rect) : Decidable r.Overflows := inferInstanceAs (Decidable (_ ∨ _))

/-- The rectangle covers a point of a canvas of this size. -/
def Meets (r : Rect) (width height : Nat) : Prop := ∃ x y, x < width ∧ y < height ∧ r.Covers x y

variable {r : Rect} {width height : Nat}

theorem meets_iff : r.Meets width height ↔
    (r.x < width ∧ 0 < r.w) ∧ r.y < height ∧ 0 < r.h := by
  constructor
  · rintro ⟨x, y, hx, hy, hc⟩
    rw [Covers] at hc
    omega
  · intro h
    refine ⟨r.x, r.y, h.1.1, h.2.1, ?_⟩
    rw [Covers]
    omega

instance (r : Rect) (width height : Nat) : Decidable (r.Meets width height) :=
  decidable_of_iff' _ meets_iff

theorem overflows_iff : r.Overflows ↔ ¬ r.isAddressable = true := by
  rw [isAddressable_iff, Overflows]
  omega

/-- What is left of a rectangle on the canvas is something if the rectangle meets it. -/
theorem meets_iff_isSome {part : Option Rect} (h : r.intersect? (.sized width height) = some part) :
    r.Meets width height ↔ part.isSome = true := by
  have hpart := eq_of_intersect? h
  rw [meets_iff]
  split at hpart
  case isTrue hlt =>
    simp only [sized, Nat.zero_add] at hlt
    simp only [hpart, Option.isSome_some, iff_true]
    omega
  case isFalse hlt =>
    simp only [sized, Nat.zero_add] at hlt
    simp only [hpart, Option.isSome_none, Bool.false_eq_true, iff_false]
    omega

end Rect

/-! ## Layers -/

namespace Layer

/-- Paints the pattern onto a blank surface. -/
def painting (layer : Layer) : Paint Unit :=
  Paint.forEach (fun y =>
      Paint.forEach (fun x => do
          Paint.setPixel x y
            (← Paint.ofOption (layer.pattern.color? x y layer.width layer.height)))
        0 layer.width)
    0 layer.height

theorem render_eq (layer : Layer) :
    layer.render = (Surface.allocView layer.width layer.height layer.format layer.rotation).bind
      (·.painted layer.painting) :=
  rfl

theorem painting_unrefused (layer : Layer) : layer.painting.Unrefused :=
  .forEach (fun _ => .forEach (fun _ => .bind (.ofOption _) fun _ =>
    Paint.setPixel_unrefused ..) _ _) _ _

theorem painting_confined (layer : Layer) (l : Layout) : layer.painting.Confined l Set.univ := by
  refine .forEach fun y _ _ => .forEach fun x _ _ => .ofOption_bind fun c _ => ?_
  refine .get_bind (fun s hs => ?_) fun s t h => by rw [h]
  subst hs
  exact Paint.putPixel_confined (Pixel.format_ofRgba ..) fun _ _ _ _ _ _ => Set.mem_univ _

variable {layer : Layer}

theorem eq_fault_of_render {e : Failure} (h : layer.render = .error e) : e = .fault := by
  rw [render_eq] at h
  cases hblank : Surface.allocView layer.width layer.height layer.format layer.rotation with
  | error e' =>
      rw [hblank] at h
      cases h
      exact Surface.eq_fault_of_allocView hblank
  | ok blank =>
      rw [hblank] at h
      have hpaint := Surface.paint_of_painted_error h
      cases e with
      | fault => rfl
      | refused cause => exact absurd hpaint (layer.painting_unrefused.ne_refused blank cause)

theorem format_of_render {src : Surface} (h : layer.render = .ok src) :
    src.format = layer.format := by
  rw [render_eq] at h
  cases hblank : Surface.allocView layer.width layer.height layer.format layer.rotation with
  | error e =>
      rw [hblank] at h
      cases h
  | ok blank =>
      rw [hblank] at h
      rw [Surface.eq_of_painted h, (layer.painting_confined _).layout_eq rfl]
      exact Surface.format_of_allocView hblank

end Layer

/-! ## Operations -/

namespace Op

/-- Why the operation is refused for formats, if it is. A rectangle that misses the canvas does
not keep it from being refused, a layer that does is not even looked at. -/
def mismatch? (op : Op) (width height : Nat) (format : PixelFormat) : Option Refusal :=
  match op with
  | replaceRect .. =>
    if format.isGray then some (.unsupportedFormat "fill_rect_rgb32" format) else none
  | blit layer x y mode .. =>
    if (Rect.mk x y layer.width layer.height).Meets width height then
      mode.refusal? format layer.format
    else none
  | _ => none

/-- Why the operation is refused on a canvas of this size and format, if it is. -/
def refusal? (op : Op) (width height : Nat) (format : PixelFormat) : Option Refusal :=
  match op.rect? with
  | some r =>
    if r.Overflows then some (.invalidRect op.name r) else op.mismatch? width height format
  | none => op.mismatch? width height format

variable {l : Layout} {name : String} {r : Rect} {o : Option Refusal}

theorem requireAddressable_settles {q : Paint Unit} (hq : q.Settles l o) :
    Paint.Settles (do requireAddressable name r; q) l
      (if r.Overflows then some (.invalidRect name r) else o) := by
  simp only [Rect.overflows_iff, ite_not, requireAddressable]
  split
  · exact hq
  · exact .refuse _

theorem intersect_settles {k : Option Rect → Paint Unit}
    (hk : ∀ part, r.intersect? l.bounds = some part → (k part).Settles l o) :
    Paint.Settles (do
        requireAddressable name r
        let part ← Paint.ofOption (r.intersect? (← get).bounds)
        k part) l
      (if r.Overflows then some (.invalidRect name r) else o) := by
  refine requireAddressable_settles (.get_bind fun s hs => ?_)
  subst hs
  exact .ofOption_bind hk

theorem clip_settles {k : Rect → Paint Unit} (hk : ∀ part, (k part).Settles l o) :
    Paint.Settles (do k (← clip name r)) l
      (if r.Overflows then some (.invalidRect name r) else o) := by
  rw [clip]
  simp only [bind_assoc, pure_bind]
  exact intersect_settles (k := fun part => k (part.getD .empty)) fun part _ => hk _

theorem apply_settles (op : Op) : op.apply.Settles l (op.refusal? l.width l.height l.format) := by
  cases op with
  | fill v => exact .of_unrefused (Paint.fill_unrefused v)
  | fillRect r v => exact clip_settles fun part => .of_unrefused (Paint.fillRect_unrefused part v)
  | replaceRect r c => exact clip_settles fun part => Paint.replaceRect_settles part c
  | blendGray r c =>
      exact clip_settles fun part => .of_unrefused (Paint.blendRect_unrefused part c.toRgba)
  | blendColor r c =>
      exact clip_settles fun part => .of_unrefused (Paint.blendRect_unrefused part c)
  | multiplyRect r c =>
      exact clip_settles fun part => .of_unrefused (Paint.multiplyBlendRect_unrefused part c)
  | invertRect r => exact clip_settles fun part => .of_unrefused (Paint.invertRect_unrefused part)
  | hatchRect r stripe v alpha =>
      exact clip_settles fun part => .of_unrefused (Paint.hatchRect_unrefused part stripe v alpha)
  | roundedCorner r border radius v smooth =>
      refine requireAddressable_settles (.of_unrefused (.ite ?_ ?_))
      · exact Paint.smoothCorner_unrefused r border radius v
      · exact Paint.roundedCorner_unrefused r border radius v
  | blit layer x y mode alpha color =>
      refine intersect_settles fun part hpart => ?_
      have hmeets := Rect.meets_iff_isSome hpart
      cases part with
      | none =>
          rw [mismatch?, if_neg (by simpa using hmeets)]
          exact .of_unrefused (.pure ())
      | some q =>
          rw [mismatch?, if_pos (by simpa using hmeets)]
          refine .ofExcept_bind (fun e => Layer.eq_fault_of_render) fun src hsrc => ?_
          exact Layer.format_of_render hsrc ▸ mode.transfer_settles src q _ _ alpha color

end Op

/-! ## Scenes -/

namespace Scene

/-- The operation of this index is the first that is refused on a canvas of the scene's size and
format. -/
structure FirstRefused (s : Scene) (index : Nat) (op : Op) (cause : Refusal) : Prop where
  getElem?_eq : s.ops[index]? = some op
  refusal?_eq : op.refusal? s.width s.height s.format = some cause
  before : ∀ o ∈ s.ops.take index, o.refusal? s.width s.height s.format = none

variable {a : Surface} {index : Nat} {op : Op} {ops : List Op} {cause : Refusal}

/-- Faults aside, an operation that is not refused leaves the rest of a run to its successors. -/
theorem applyAll_cons (hfault : applyAll index a (op :: ops) ≠ .error .fault) :
    applyAll index a (op :: ops) = match op.refusal? a.width a.height a.format with
      | some cause => .error (.refused index op.name cause)
      | none => applyAll (index + 1) (a.paint op.apply).2 ops := by
  have hsettles := op.apply_settles (l := a.toLayout)
  rw [applyAll] at hfault ⊢
  split at hfault
  case h_1 b hpaint => rw [hsettles.of_ok a rfl (by rw [hpaint]), hpaint]
  case h_2 => exact absurd rfl hfault
  case h_3 cause b hpaint => rw [(hsettles.of_refused a cause rfl (by rw [hpaint])).1, hpaint]; rfl

theorem applyAll_of_refused {i : Nat} (hfault : applyAll index a ops ≠ .error .fault)
    (hop : ops[i]? = some op) (hrefused : op.refusal? a.width a.height a.format = some cause)
    (hbefore : ∀ o ∈ ops.take i, o.refusal? a.width a.height a.format = none) :
    applyAll index a ops = .error (.refused (index + i) op.name cause) := by
  induction ops generalizing index a i with
  | nil => simp at hop
  | cons first ops ih =>
      have hstep := applyAll_cons hfault
      cases i with
      | zero =>
          obtain rfl : first = op := by simpa using hop
          rw [hrefused] at hstep
          exact hstep
      | succ i =>
          have hlayout := first.layout_of_apply a
          rw [List.take_succ_cons] at hbefore
          rw [hbefore first List.mem_cons_self] at hstep
          rw [hstep] at hfault ⊢
          rw [← hlayout] at hrefused hbefore
          rw [← Nat.add_assoc, Nat.add_right_comm]
          exact ih hfault (by simpa using hop) hrefused fun o ho =>
            hbefore o (List.mem_cons_of_mem first ho)

theorem applyAll_of_accepted (hfault : applyAll index a ops ≠ .error .fault)
    (h : ∀ op ∈ ops, op.refusal? a.width a.height a.format = none) :
    ∃ b, applyAll index a ops = .ok b := by
  induction ops generalizing index a with
  | nil => exact ⟨a, rfl⟩
  | cons op ops ih =>
      have hstep := applyAll_cons hfault
      have hlayout := op.layout_of_apply a
      rw [h op List.mem_cons_self] at hstep
      rw [hstep] at hfault ⊢
      rw [← hlayout] at h
      exact ih hfault fun o ho => h o (List.mem_cons_of_mem op ho)

end Scene

namespace Op

/-- Refusals are exact, are settled by size and format alone, and change nothing: this holds of
every operation on every canvas, and of every scene, which fails at the first operation that is
refused and not otherwise. -/
theorem refused_exactly :
    (∀ (op : Op) (s : Surface),
      (∀ cause, (s.paint op.apply).1 = .error (.refused cause) → (s.paint op.apply).2 = s) ∧
      ((s.paint op.apply).1 ≠ .error .fault →
        (s.paint op.apply).1 = Refusal.verdict (op.refusal? s.width s.height s.format))) ∧
    ∀ s : Scene, s.render ≠ .error .fault →
      (∀ index op cause, s.FirstRefused index op cause →
        s.render = .error (.refused index op.name cause)) ∧
      ((∀ op ∈ s.ops, op.refusal? s.width s.height s.format = none) → ∃ a, s.render = .ok a) := by
  refine ⟨fun op s => ⟨fun cause h => ?_, fun h => ?_⟩, fun s hfault => ?_⟩
  · exact (op.apply_settles.of_refused s cause rfl h).2
  · exact op.apply_settles.outcome_eq rfl h
  · rw [Scene.render] at hfault ⊢
    cases hcanvas : s.canvas with
    | error e =>
        rw [hcanvas] at hfault
        exact absurd rfl hfault
    | ok a =>
        rw [hcanvas] at hfault
        obtain ⟨hwidth, hheight, hformat⟩ := Scene.shape_of_canvas hcanvas
        refine ⟨fun index op cause h => ?_, fun h => ?_⟩
        · obtain ⟨hop, hrefused, hbefore⟩ := h
          rw [← hwidth, ← hheight, ← hformat] at hrefused hbefore
          simpa using Scene.applyAll_of_refused hfault hop hrefused hbefore
        · rw [← hwidth, ← hheight, ← hformat] at h
          exact Scene.applyAll_of_accepted hfault h

/-- A gray scene that asks for a colour, after a layer of another format that misses the canvas. -/
def colored : Scene where
  name := "colored"
  width := 3
  height := 2
  format := .gray8a
  rotation := .clockwise
  background := 9
  ops := [.blit ⟨2, 2, .rgb24, .upright, .solid .black⟩ 3 0 .add 7 .black,
    .fillRect ⟨1, 1, 5, 5⟩ 7, .replaceRect ⟨9, 9, 1, 1⟩ .black,
    .invertRect ⟨0xffff_ffff_ffff_ffff, 0, 1, 1⟩]

theorem refused_exactly_colored :
    (Paint.graySource.paint (replaceRect ⟨9, 9, 1, 1⟩ .black).apply).1 =
        .error (.refused (.unsupportedFormat "fill_rect_rgb32" .gray8)) ∧
      (Paint.graySource.paint (replaceRect ⟨9, 9, 1, 1⟩ .black).apply).2 = Paint.graySource ∧
      colored.render =
        .error (.refused 2 "fill_rect_rgb" (.unsupportedFormat "fill_rect_rgb32" .gray8a)) := by
  have hop := refused_exactly.1 (replaceRect ⟨9, 9, 1, 1⟩ .black) Paint.graySource
  have hout := hop.2 (by decide)
  have hrender : colored.render ≠ .error .fault := by
    have hend : colored.render.map (fun _ => ()) ≠ .error .fault := by decide +kernel
    intro h
    rw [h] at hend
    exact hend rfl
  exact ⟨hout, hop.1 _ hout,
    (refused_exactly.2 colored hrender).1 2 (replaceRect ⟨9, 9, 1, 1⟩ .black) _
      ⟨rfl, rfl, by decide⟩⟩

end Op

end Raster
