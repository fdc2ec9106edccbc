/-!
# Machine words

Sizes and coordinates are natural numbers below `2 ^ 64`. Byte offsets are worked out with a
sign, from `-2 ^ 63` up to but not including `2 ^ 63`. Every operation answers `none` when its
exact result does not fit, so nothing ever wraps around.
-/

namespace Raster

namespace Word

/-- One more than the greatest word. -/
abbrev bound : Nat := 0x1_0000_0000_0000_0000

/-- The number itself when it fits a word. -/
def fit (n : Nat) : Option Nat :=
  if n < bound then some n else none

def add (a b : Nat) : Option Nat := fit (a + b)

def mul (a b : Nat) : Option Nat := fit (a * b)

def sub (a b : Nat) : Option Nat :=
  if b ≤ a then some (a - b) else none

/-- The number that the same sixty-four bits denote when the top one is a sign. -/
def signed (n : Nat) : Int :=
  if n < bound / 2 then n else (n : Int) - bound

theorem fit_eq_some_iff {n m : Nat} : fit n = some m ↔ n < bound ∧ n = m := by
  simp [fit]

theorem add_eq_some_iff {a b m : Nat} : add a b = some m ↔ a + b < bound ∧ a + b = m :=
  fit_eq_some_iff

theorem mul_eq_some_iff {a b m : Nat} : mul a b = some m ↔ a * b < bound ∧ a * b = m :=
  fit_eq_some_iff

end Word

namespace Offset

/-- One more than the greatest offset. -/
abbrev bound : Nat := 0x8000_0000_0000_0000

/-- The number itself when it fits a signed word. -/
def fit (i : Int) : Option Int :=
  if -bound ≤ i ∧ i < bound then some i else none

def add (i j : Int) : Option Int := fit (i + j)

def sub (i j : Int) : Option Int := fit (i - j)

def mul (i j : Int) : Option Int := fit (i * j)

def neg (i : Int) : Option Int := fit (-i)

/-- The number that the same sixty-four bits denote without a sign. -/
def unsigned (i : Int) : Nat := (i % Word.bound).toNat

theorem fit_eq_some_iff {i j : Int} : fit i = some j ↔ (-bound ≤ i ∧ i < bound) ∧ i = j := by
  unfold fit
  by_cases h : -bound ≤ i ∧ i < bound
  · rw [if_pos h]; exact ⟨fun e => ⟨h, Option.some.inj e⟩, fun e => congrArg some e.2⟩
  · rw [if_neg h]; exact ⟨nofun, fun hi => absurd hi.1 h⟩

end Offset

end Raster
