import Raster.Proofs.AlphaEnds

/-!
# Mixtures of channels

Division by 255 is off by less than half a level. So a mixture lies between the channels that it is
made of, and mixing a channel with itself gives it back, whatever the proportions. The more there is
of the second channel the nearer the mixture is to it, and no rounding ever takes it back.
-/

namespace Raster

namespace Channel

/-- The quotient is rounded to the nearest. -/
theorem div255_near {n : Nat} (h : n ≤ 255 * 255) :
    255 * div255 n ≤ n + 127 ∧ n ≤ 255 * div255 n + 127 := by
  rw [div255]
  omega

theorem div255_between {lo hi n : Nat} (hlo : lo * 255 ≤ n) (hhi : n ≤ hi * 255) (h : hi ≤ 255) :
    lo ≤ div255 n ∧ div255 n ≤ hi := by
  have hnear := div255_near (Nat.le_trans hhi (Nat.mul_le_mul_right 255 h))
  omega

theorem proportions_mul (alpha : UInt8) (n : Nat) :
    n * (255 - alpha.toNat) + n * alpha.toNat = n * 255 := by
  have halpha := alpha.toNat_lt
  rw [← Nat.mul_add, Nat.sub_add_cancel (by omega)]

theorem mixture_le (alpha : UInt8) {old new n : Nat} (hold : old ≤ n) (hnew : new ≤ n) :
    old * (255 - alpha.toNat) + new * alpha.toNat ≤ n * 255 :=
  proportions_mul alpha n ▸
    Nat.add_le_add (Nat.mul_le_mul_right _ hold) (Nat.mul_le_mul_right _ hnew)

theorem le_mixture (alpha : UInt8) {old new n : Nat} (hold : n ≤ old) (hnew : n ≤ new) :
    n * 255 ≤ old * (255 - alpha.toNat) + new * alpha.toNat :=
  proportions_mul alpha n ▸
    Nat.add_le_add (Nat.mul_le_mul_right _ hold) (Nat.mul_le_mul_right _ hnew)

theorem toNat_mix (alpha old new : UInt8) : (mix alpha old new).toNat =
    div255 (old.toNat * (255 - alpha.toNat) + new.toNat * alpha.toNat) := by
  have hsum := mixture_le alpha (Nat.le_of_lt_succ old.toNat_lt) (Nat.le_of_lt_succ new.toNat_lt)
  have hnear := div255_near hsum
  rw [mix, UInt8.toNat_ofNat', Nat.mod_eq_of_lt (by omega)]

theorem mix_between (lo hi : Nat) (alpha old new : UInt8) (h : hi ≤ 255)
    (hold : lo ≤ old.toNat ∧ old.toNat ≤ hi) (hnew : lo ≤ new.toNat ∧ new.toNat ≤ hi) :
    lo ≤ (mix alpha old new).toNat ∧ (mix alpha old new).toNat ≤ hi := by
  rw [toNat_mix]
  exact div255_between (le_mixture alpha hold.1 hnew.1) (mixture_le alpha hold.2 hnew.2) h

theorem mix_self (alpha v : UInt8) : mix alpha v v = v := by
  have hv := v.toNat_lt
  have hrefl := Nat.le_refl v.toNat
  have h := mix_between v.toNat v.toNat alpha v v (by omega) ⟨hrefl, hrefl⟩ ⟨hrefl, hrefl⟩
  exact UInt8.toNat_inj.mp (by omega)

theorem mul_full (v : UInt8) : mul v 255 = v := by
  have hv := v.toNat_lt
  have hproduct : v.toNat * (255 : UInt8).toNat = v.toNat * 255 := rfl
  rw [mul, hproduct, div255_mul (by omega), UInt8.ofNat_toNat]

/-! ## Growing proportions -/

/-- On the way from `first` to `last`, `b` is not passed before `a`. -/
def InTurn (first a b last : Nat) : Prop :=
  (first ≤ a ∧ a ≤ b ∧ b ≤ last) ∨ (last ≤ b ∧ b ≤ a ∧ a ≤ first)

/-- Of four lists as long as each other, the levels at each place are in turn. -/
inductive EachInTurn : List Nat → List Nat → List Nat → List Nat → Prop
  | nil : EachInTurn [] [] [] []
  | cons {first a b last : Nat} {firsts as bs lasts : List Nat} (h : InTurn first a b last)
      (rest : EachInTurn firsts as bs lasts) :
      EachInTurn (first :: firsts) (a :: as) (b :: bs) (last :: lasts)

theorem InTurn.div {first a b last : Nat} (h : InTurn first a b last) (n : Nat) :
    InTurn (first / n) (a / n) (b / n) (last / n) :=
  h.imp
    (fun ⟨hfirst, hab, hlast⟩ => ⟨Nat.div_le_div_right hfirst, Nat.div_le_div_right hab,
      Nat.div_le_div_right hlast⟩)
    fun ⟨hlast, hba, hfirst⟩ => ⟨Nat.div_le_div_right hlast, Nat.div_le_div_right hba,
      Nat.div_le_div_right hfirst⟩

theorem div255_mono {m n : Nat} (h : m ≤ n) : div255 m ≤ div255 n := by
  rw [div255, div255]
  omega

theorem mixture_shift {t u : Nat} (h : t ≤ u) (hu : u ≤ 255) (old new : Nat) :
    old * (255 - t) + new * t + new * (u - t) = old * (255 - u) + new * u + old * (u - t) := by
  obtain ⟨d, rfl⟩ := Nat.exists_eq_add_of_le h
  rw [Nat.add_sub_cancel_left, show 255 - t = 255 - (t + d) + d by omega, Nat.mul_add, Nat.mul_add]
  omega

variable {alpha beta old new : UInt8} (h : alpha.toNat ≤ beta.toNat)

include h

theorem mix_mono (hle : old.toNat ≤ new.toNat) :
    (mix alpha old new).toNat ≤ (mix beta old new).toNat := by
  have hshift := mixture_shift h (Nat.le_of_lt_succ beta.toNat_lt) old.toNat new.toNat
  have hgain := Nat.mul_le_mul_right (beta.toNat - alpha.toNat) hle
  rw [toNat_mix, toNat_mix]
  exact div255_mono (by omega)

theorem mix_anti (hle : new.toNat ≤ old.toNat) :
    (mix beta old new).toNat ≤ (mix alpha old new).toNat := by
  have hshift := mixture_shift h (Nat.le_of_lt_succ beta.toNat_lt) old.toNat new.toNat
  have hloss := Nat.mul_le_mul_right (beta.toNat - alpha.toNat) hle
  rw [toNat_mix, toNat_mix]
  exact div255_mono (by omega)

theorem mix_inTurn (old new : UInt8) :
    InTurn old.toNat (mix alpha old new).toNat (mix beta old new).toNat new.toNat := by
  have hlow : (0 : UInt8).toNat ≤ alpha.toNat := Nat.zero_le _
  have hhigh : beta.toNat ≤ (255 : UInt8).toNat := Nat.le_of_lt_succ beta.toNat_lt
  rcases Nat.le_total old.toNat new.toNat with hle | hle
  · have hfirst := mix_mono hlow hle
    have hlast := mix_mono hhigh hle
    rw [mix_none] at hfirst
    rw [mix_all] at hlast
    exact .inl ⟨hfirst, mix_mono h hle, hlast⟩
  · have hfirst := mix_anti hlow hle
    have hlast := mix_anti hhigh hle
    rw [mix_none] at hfirst
    rw [mix_all] at hlast
    exact .inr ⟨hlast, mix_anti h hle, hfirst⟩

end Channel

end Raster
