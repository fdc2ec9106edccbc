import Raster.Proofs.Copying
import Raster.Proofs.OpFootprint

/-!
# Operations with footprints apart commute

Two operations that share no point of the canvas succeed in both orders or in none, and leave the
same canvas. In a scene such neighbours may be swapped.
-/

namespace Raster

namespace Op

/-- No point of a canvas of this size is in both footprints. -/
def Apart (a b : Op) (width height : Nat) : Prop :=
  ∀ x < width, ∀ y < height,
    (a.footprint width height).Covers x y → ¬ (b.footprint width height).Covers x y

instance (a b : Op) (width height : Nat) : Decidable (a.Apart b width height) :=
  inferInstanceAs (Decidable (∀ x < width, ∀ y < height, _ → ¬ _))

variable {a b : Op}

theorem Apart.paint_seq {s : Surface} (h : a.Apart b s.width s.height) (out : Surface) :
    s.paint (do a.apply; b.apply) = (.ok (), out) ↔
      s.paint (do b.apply; a.apply) = (.ok (), out) :=
  a.apply_confined.paint_seq_comm b.apply_confined (Surface.disjoint_bytesOf h) rfl out

end Op

namespace Scene

/-- The result is a fault, or the operation of this index or the next was refused. -/
def StopsAt (index : Nat) (result : Except RenderFailure Surface) : Prop :=
  result = .error .fault ∨ ∃ op cause,
    result = .error (.refused index op cause) ∨ result = .error (.refused (index + 1) op cause)

variable {a b : Op} {index : Nat} {s : Surface} {ops : List Op}
  {result : Except RenderFailure Surface}

theorem applyAll_cons_eq_iff (hfault : result ≠ .error .fault)
    (hrefused : ∀ cause, result ≠ .error (.refused index a.name cause)) :
    applyAll index s (a :: ops) = result ↔
      (s.paint a.apply).1 = .ok () ∧ applyAll (index + 1) (s.paint a.apply).2 ops = result := by
  rw [applyAll]
  split
  case h_1 t hpaint => simp [hpaint]
  case h_2 t hpaint => exact iff_of_false (Ne.symm hfault) (by simp [hpaint])
  case h_3 cause t hpaint => exact iff_of_false (Ne.symm (hrefused cause)) (by simp [hpaint])

theorem applyAll_pair_eq_iff (h : ¬ StopsAt index result) :
    applyAll index s (a :: b :: ops) = result ↔
      ∃ t, s.paint (do a.apply; b.apply) = (.ok (), t) ∧ applyAll (index + 2) t ops = result := by
  rw [StopsAt, not_or] at h
  obtain ⟨hfault, hrefused⟩ := h
  rw [applyAll_cons_eq_iff hfault fun cause he => hrefused ⟨_, cause, .inl he⟩,
    applyAll_cons_eq_iff hfault fun cause he => hrefused ⟨_, cause, .inr he⟩]
  simp only [Surface.paint_seq_eq_ok_iff]
  constructor
  · rintro ⟨ha, hb, hrest⟩
    exact ⟨_, ⟨ha, Prod.ext hb rfl⟩, hrest⟩
  · rintro ⟨t, ⟨ha, hb⟩, hrest⟩
    rw [hb]
    exact ⟨ha, rfl, hrest⟩

theorem applyAll_append (before : List Op) :
    applyAll index s (before ++ ops) =
      (applyAll index s before).bind fun t => applyAll (index + before.length) t ops := by
  induction before generalizing index s with
  | nil => rfl
  | cons op before ih =>
      rw [List.cons_append, applyAll, applyAll]
      split
      case h_1 t =>
        rw [ih, List.length_cons, Nat.add_assoc, Nat.add_comm 1]
      case h_2 => rfl
      case h_3 => rfl

theorem applyAll_swap (hab : a.Apart b s.width s.height) (before : List Op)
    (h : ¬ StopsAt (index + before.length) result) :
    applyAll index s (before ++ a :: b :: ops) = result ↔
      applyAll index s (before ++ b :: a :: ops) = result := by
  rw [applyAll_append, applyAll_append]
  cases hbefore : applyAll index s before with
  | error e => exact Iff.rfl
  | ok t =>
      have hlayout := layout_of_applyAll hbefore
      have habt : a.Apart b t.width t.height := hlayout ▸ hab
      show applyAll (index + before.length) t (a :: b :: ops) = result ↔
        applyAll (index + before.length) t (b :: a :: ops) = result
      rw [applyAll_pair_eq_iff h, applyAll_pair_eq_iff h]
      simp only [habt.paint_seq]

theorem render_withOps (s : Scene) (ops : List Op) :
    { s with ops := ops }.render = match s.canvas with
      | .ok canvas => applyAll 0 canvas ops
      | .error _ => throw .fault :=
  rfl

end Scene

namespace Op

/-- Operations whose footprints are apart may trade places: on every canvas both orders succeed or
neither does, with the same canvas, and the neighbours of a scene may be swapped without changing
what the scene renders to, or how it fails elsewhere. -/
theorem apply_swap (a b : Op) :
    (∀ s : Surface, a.Apart b s.width s.height → ∀ out,
      s.paint (do a.apply; b.apply) = (.ok (), out) ↔
        s.paint (do b.apply; a.apply) = (.ok (), out)) ∧
    ∀ (scene : Scene) (before after : List Op), a.Apart b scene.width scene.height →
      ∀ result, ¬ Scene.StopsAt before.length result →
        ({ scene with ops := before ++ a :: b :: after }.render = result ↔
          { scene with ops := before ++ b :: a :: after }.render = result) := by
  refine ⟨fun s h => h.paint_seq, fun scene before after h result hresult => ?_⟩
  rw [Scene.render_withOps, Scene.render_withOps]
  cases hcanvas : scene.canvas with
  | error e => exact Iff.rfl
  | ok canvas =>
      obtain ⟨hwidth, hheight, -⟩ := Scene.shape_of_canvas hcanvas
      rw [← hwidth, ← hheight] at h
      exact Scene.applyAll_swap h before (by rwa [Nat.zero_add])

/-- The corners of a box in a corner of the canvas. -/
def boxed : Op := .roundedCorner ⟨0, 0, 2, 2⟩ 1 1 200 true

/-- A layer next to the box, which hangs off a canvas of 3 × 2 points. -/
def stamped : Op :=
  .blit ⟨2, 3, .rgb32, .upsideDown, .gradient ⟨250, 10, 0, 40⟩ ⟨0, 90, 30, 255⟩ false⟩ 2 0
    .ditherPremultiplied 255 .black

/-- A turned canvas that is filled, painted and partly inverted. -/
def framed (ops : List Op) : Scene where
  name := "framed"
  width := 3
  height := 2
  format := .rgb565
  rotation := .clockwise
  background := 9
  ops := [.fill 7] ++ (ops ++ [.invertRect ⟨1, 0, 2, 2⟩])

theorem apply_swap_boxed_stamped :
    (∀ out, Paint.colorTarget.paint (do boxed.apply; stamped.apply) = (.ok (), out) ↔
      Paint.colorTarget.paint (do stamped.apply; boxed.apply) = (.ok (), out)) ∧
    ∃ out, (framed [boxed, stamped]).render = .ok out ∧
      (framed [stamped, boxed]).render = .ok out := by
  refine ⟨(apply_swap boxed stamped).1 Paint.colorTarget (by decide), ?_⟩
  have hok : (framed [boxed, stamped]).render.isOk = true := by decide +kernel
  cases hout : (framed [boxed, stamped]).render with
  | error e => simp [hout, Except.isOk, Except.toBool] at hok
  | ok out =>
      have hswap := (apply_swap boxed stamped).2 (framed []) [.fill 7] [.invertRect ⟨1, 0, 2, 2⟩]
        (by decide) (.ok out) (by simp [Scene.StopsAt])
      exact ⟨out, rfl, hswap.mp hout⟩

end Op

end Raster
