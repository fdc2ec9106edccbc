import Mathlib.Data.Option.Basic

/-!
# Optional results

Optional results over lists, and the order in which one result extends another: it gives the same
where the other gives anything.
-/

namespace Raster

variable {α β : Type}

/-! ### Lists of optional results -/

theorem some_mem_of_mapM_id {as : List (Option α)} {bs : List α} {b : α}
    (h : as.mapM id = some bs) (hb : b ∈ bs) : some b ∈ as := by
  induction as generalizing bs with
  | nil =>
      cases h
      cases hb
  | cons a as ih =>
      simp only [List.mapM_cons, id, Option.bind_eq_bind, Option.bind_eq_some_iff, Option.pure_def,
        Option.some.injEq] at h
      obtain ⟨_, rfl, _, hrest, rfl⟩ := h
      rcases List.mem_cons.mp hb with rfl | hb
      · exact List.mem_cons_self
      · exact List.mem_cons_of_mem _ (ih hrest hb)

theorem mapM_eq_some_map {f : α → Option β} {g : α → β} {as : List α}
    (h : ∀ a ∈ as, f a = some (g a)) : as.mapM f = some (as.map g) := by
  induction as with
  | nil => rfl
  | cons a as ih =>
      rw [List.mapM_cons, h a List.mem_cons_self, ih fun b hb => h b (List.mem_cons_of_mem a hb)]
      rfl

theorem isSome_mapM {f : α → Option β} {as : List α} :
    (as.mapM f).isSome = as.all fun a => (f a).isSome := by
  induction as with
  | nil => rfl
  | cons a as ih =>
      rw [List.mapM_cons, List.all_cons, ← ih]
      cases f a with
      | none => rfl
      | some b => cases as.mapM f <;> rfl

/-- One item that is refused refuses the list. -/
theorem mapM_guarded (p : α → Bool) (f : α → Option β) (as : List α) :
    (as.mapM fun a => if p a then f a else none) = if as.all p then as.mapM f else none := by
  induction as with
  | nil => rfl
  | cons a as ih =>
      rw [List.mapM_cons, List.mapM_cons, List.all_cons, ih]
      cases p a with
      | false => rfl
      | true => cases f a <;> cases as.all p <;> rfl

/-! ### Lookup -/

theorem mem_of_lookup {α β : Type} [BEq α] [LawfulBEq α] {entries : List (α × β)} {key : α} {b : β}
    (h : entries.lookup key = some b) : (key, b) ∈ entries := by
  obtain ⟨before, after, rfl, -⟩ := List.lookup_eq_some_iff.mp h
  simp

theorem lookup_map {β γ : Type} (f : β → γ) (entries : List (String × β)) (key : String) :
    (entries.map fun e => (e.1, f e.2)).lookup key = (entries.lookup key).map f := by
  induction entries with
  | nil => rfl
  | cons e entries ih =>
      rw [List.map_cons, List.lookup_cons, List.lookup_cons, ih]
      split <;> rfl

/-! ### Extension -/

/-- Whatever the first result gives, the second gives too. -/
def Extends (o o' : Option α) : Prop := ∀ a, o = some a → o' = some a

namespace Extends

variable {o o' : Option α}

theorem refl (o : Option α) : Extends o o := fun _ h => h

theorem bind {f f' : α → Option β} (h : Extends o o') (hf : ∀ a, Extends (f a) (f' a)) :
    Extends (o >>= f) (o' >>= f') := by
  intro b hb
  obtain ⟨a, ha, hfa⟩ := Option.bind_eq_some_iff.mp hb
  exact Option.bind_eq_some_iff.mpr ⟨a, h a ha, hf a b hfa⟩

/-- One item of a list is changed. -/
theorem mapM {f : α → Option β} {a a' : α} (h : Extends (f a) (f a')) (before after : List α) :
    Extends ((before ++ a :: after).mapM f) ((before ++ a' :: after).mapM f) := by
  simp only [List.mapM_append, List.mapM_cons]
  exact .bind (.refl _) fun _ => .bind (.bind h fun _ => .refl _) fun _ => .refl _

end Extends

end Raster
