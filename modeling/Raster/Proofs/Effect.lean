import Raster.Proofs.Rewriting

/-!
# Effects of painting

No operator decides anything by looking at the pixels it paints. What a computation does on the
surfaces of one layout is therefore an `Effect` fixed in advance: how it ends, and what it has
made of every pixel by then. The rules below find the effect of a computation from its parts.
-/

namespace Raster

structure Effect where
  outcome : Except Failure Unit
  /-- What becomes of the pixel at a point. -/
  change : Nat → Nat → Pixel → Pixel

namespace Effect

/-- Succeeds, and changes every pixel by `g`. -/
def of (g : Nat → Nat → Pixel → Pixel) : Effect := ⟨.ok (), g⟩

def skip : Effect := of fun _ _ p => p

/-- Changes nothing and fails. -/
def fail (e : Failure) : Effect := ⟨.error e, fun _ _ p => p⟩

/-- The second effect on top of the first, unless that fails. -/
def andThen (a b : Effect) : Effect :=
  match a.outcome with
  | .ok () => ⟨b.outcome, fun x y p => b.change x y (a.change x y p)⟩
  | .error _ => a

def forEach (e : Nat → Effect) (start : Nat) : (count : Nat) → Effect
  | 0 => skip
  | count + 1 => (e start).andThen (forEach e (start + 1) count)

@[simp] theorem of_outcome (g : Nat → Nat → Pixel → Pixel) : (of g).outcome = .ok () := rfl

@[simp] theorem of_change (g : Nat → Nat → Pixel → Pixel) : (of g).change = g := rfl

@[simp] theorem of_andThen_of (g h : Nat → Nat → Pixel → Pixel) :
    (of g).andThen (of h) = of fun x y p => h x y (g x y p) :=
  rfl

/-- Steps that each change the pixels of one key change those of all the keys. -/
theorem forEach_of_key (key : Nat → Nat → Nat) (g : Nat → Nat → Pixel → Pixel)
    (base start count : Nat) :
    forEach (fun i => of fun x y p => if key x y = base + i then g x y p else p) start count =
      of fun x y p =>
        if base + start ≤ key x y ∧ key x y < base + start + count then g x y p else p := by
  induction count generalizing start with
  | zero =>
      rw [forEach, skip]
      congr
      funext x y p
      rw [if_neg (by omega)]
  | succ count ih =>
      rw [forEach, ih, of_andThen_of]
      congr
      funext x y p
      by_cases h : key x y = base + start
      · rw [if_pos h, if_neg (by omega), if_pos (by omega)]
      · rw [if_neg h]
        congr 1
        exact propext ⟨fun _ => by omega, fun _ => by omega⟩

end Effect

/-! ## Running a computation -/

namespace Surface

variable {α β : Type} (s : Surface)

theorem paint_get_bind (k : Surface → Paint β) : s.paint (get >>= k) = s.paint (k s) := rfl

theorem paint_require_bind {P : Prop} [Decidable P] (h : P) (k : Unit → Paint β) :
    s.paint (Paint.require P >>= k) = s.paint (k ()) := by
  rw [Paint.require, if_pos h]
  rfl

theorem paint_require_bind_of_not {P : Prop} [Decidable P] (h : ¬ P) (k : Unit → Paint β) :
    s.paint (Paint.require P >>= k) = (.error .fault, s) := by
  rw [Paint.require, if_neg h]
  rfl

theorem paint_ofOption_bind {o : Option α} {a : α} (h : o = some a) (k : α → Paint β) :
    s.paint (Paint.ofOption o >>= k) = s.paint (k a) := by
  subst h
  rfl

theorem paint_bind (p : Paint α) (k : α → Paint β) :
    s.paint (p >>= k) = match s.paint p with
      | (.ok a, t) => t.paint (k a)
      | (.error e, t) => (.error e, t) := by
  unfold paint
  rw [EStateM.run_bind]
  cases p.run s <;> rfl

end Surface

namespace Paint

/-- On every surface of this layout the computation ends as the effect does, and changes the
surface by it. -/
def HasEffect (p : Paint Unit) (l : Layout) (e : Effect) : Prop :=
  ∀ s : Surface, s.toLayout = l → (s.paint p).1 = e.outcome ∧ s.Rewrites (s.paint p).2 e.change

namespace HasEffect

variable {α : Type} {l : Layout} {p q : Paint Unit} {e f : Effect}

theorem congr (hp : p.HasEffect l e) (ho : f.outcome = e.outcome)
    (hc : ∀ x y q, x < l.width → y < l.height → q.format = l.format →
      f.change x y q = e.change x y q) : p.HasEffect l f := by
  intro s hs
  subst hs
  obtain ⟨hout, hrw⟩ := hp s rfl
  refine ⟨hout.trans ho.symm, hrw.congr ?_⟩
  intro x y q hq
  obtain ⟨hx, hy⟩ := Surface.lt_of_pixel? hq
  exact hc x y q hx hy (Surface.format_of_pixel? hq)

/-- Only layouts that some surface has matter. -/
theorem of_surface (h : ∀ s : Surface, s.toLayout = l → p.HasEffect l e) : p.HasEffect l e :=
  fun s hs => h s hs s hs

theorem skip : HasEffect (pure ()) l .skip :=
  fun s _ => ⟨rfl, .refl s⟩

theorem fail (e : Failure) : HasEffect (throw e) l (.fail e) :=
  fun s _ => ⟨rfl, .refl s⟩

theorem ite {c : Prop} [Decidable c] (hp : c → p.HasEffect l e) (hq : ¬ c → q.HasEffect l f) :
    HasEffect (if c then p else q) l (if c then e else f) := by
  split
  · exact hp ‹_›
  · exact hq ‹_›

theorem seq (hp : p.HasEffect l e) (hq : q.HasEffect l f) :
    HasEffect (do p; q) l (e.andThen f) := by
  intro s hs
  obtain ⟨hout, hrw⟩ := hp s hs
  rw [Surface.paint_bind]
  cases hpaint : s.paint p with
  | mk out t =>
      rw [hpaint] at hout hrw
      cases out with
      | ok a =>
          obtain ⟨hout', hrw'⟩ := hq t (hrw.layout_eq.trans hs)
          simp only [Effect.andThen, ← hout]
          exact ⟨hout', hrw.trans hrw'⟩
      | error cause =>
          have hand : e.andThen f = e := by simp only [Effect.andThen, ← hout]
          rw [hand]
          exact ⟨hout, hrw⟩

theorem get_bind {k : Surface → Paint Unit}
    (hk : ∀ s : Surface, s.toLayout = l → (k s).HasEffect l e) : HasEffect (get >>= k) l e := by
  intro s hs
  rw [Surface.paint_get_bind]
  exact hk s hs s hs

theorem ofOption_some {o : Option α} {a : α} {k : α → Paint Unit} (ho : o = some a)
    (hk : (k a).HasEffect l e) : HasEffect (ofOption o >>= k) l e := by
  subst ho
  exact hk

theorem ofOption_none {o : Option α} {k : α → Paint Unit} (ho : o = none) :
    HasEffect (ofOption o >>= k) l (.fail .fault) := by
  subst ho
  exact fail .fault

theorem require_pos {P : Prop} [Decidable P] (h : P) (hq : q.HasEffect l e) :
    HasEffect (do require P; q) l e := by
  rw [require, if_pos h]
  exact hq

theorem require_neg {P : Prop} [Decidable P] (h : ¬ P) :
    HasEffect (do require P; q) l (.fail .fault) := by
  rw [require, if_neg h]
  exact fail .fault

theorem require_ite {P Q : Prop} [Decidable P] [Decidable Q] (hPQ : P ↔ Q)
    (hq : Q → q.HasEffect l e) :
    HasEffect (do require P; q) l (if Q then e else .fail .fault) := by
  by_cases h : Q
  · rw [if_pos h]
    exact require_pos (hPQ.mpr h) (hq h)
  · rw [if_neg h]
    exact require_neg fun hP => h (hPQ.mp hP)

theorem forEach {step : Nat → Paint Unit} {e : Nat → Effect} {start count : Nat}
    (h : ∀ i, start ≤ i → i < start + count → (step i).HasEffect l (e i)) :
    HasEffect (Paint.forEach step start count) l (.forEach e start count) := by
  induction count generalizing start with
  | zero => exact skip
  | succ count ih =>
      refine seq (h start (Nat.le_refl _) (by omega)) (ih ?_)
      intro i hlow hhigh
      exact h i (by omega) (by omega)

theorem forEach_of_key (key : Nat → Nat → Nat) (g : Nat → Nat → Pixel → Pixel) (base : Nat)
    {step : Nat → Paint Unit} {start count : Nat}
    (h : ∀ i, start ≤ i → i < start + count →
      (step i).HasEffect l (.of fun x y p => if key x y = base + i then g x y p else p)) :
    HasEffect (Paint.forEach step start count) l (.of fun x y p =>
      if base + start ≤ key x y ∧ key x y < base + start + count then g x y p else p) :=
  Effect.forEach_of_key key g base start count ▸ forEach h

end HasEffect

end Paint

end Raster
