import Mathlib.Tactic.Common

/-!
# Counting the steps of one party

A stretch of a run counts the steps of the party one watches and lets all the others step in between. A
rank that every counted step lowers, and that nobody else raises, bounds their number.
-/

namespace Lib

/-- A run from `x` in which `own` steps are counted and `other` steps are not. -/
inductive Stretch {σ : Type*} (own other : σ → σ → Prop) (x : σ) : Nat → σ → Prop
  | refl : Stretch own other x 0 x
  | own {n : Nat} {y z : σ} : Stretch own other x n y → own y z → Stretch own other x (n + 1) z
  | other {n : Nat} {y z : σ} : Stretch own other x n y → other y z → Stretch own other x n z

namespace Stretch

variable {σ : Type*} {own other : σ → σ → Prop} {x y : σ} {n : Nat} {I : σ → Prop}

theorem trans {z : σ} {m : Nat} (hfirst : Stretch own other x n y) (hsecond : Stretch own other y m z) :
    Stretch own other x (n + m) z := by
  induction hsecond with
  | refl => exact hfirst
  | own _ hstep ih => exact ih.own hstep
  | other _ hstep ih => exact ih.other hstep

/-- What both kinds of steps keep holds to the end. -/
theorem preserves (hown : ∀ y z, I y → own y z → I z) (hother : ∀ y z, I y → other y z → I z)
    (hstretch : Stretch own other x n y) (hx : I x) : I y := by
  induction hstretch with
  | refl => exact hx
  | own _ hstep ih => exact hown _ _ ih hstep
  | other _ hstep ih => exact hother _ _ ih hstep

/-- **Descent.** The counted steps and the rank that is left come to no more than the rank at first. -/
theorem add_rank_le (rank : σ → Nat) (hown : ∀ y z, I y → own y z → I z ∧ rank z < rank y)
    (hother : ∀ y z, I y → other y z → I z ∧ rank z ≤ rank y) (hstretch : Stretch own other x n y)
    (hx : I x) : n + rank y ≤ rank x := by
  suffices I y ∧ n + rank y ≤ rank x from this.2
  induction hstretch with
  | refl => exact ⟨hx, Nat.le_of_eq (Nat.zero_add _)⟩
  | own _ hstep ih =>
      obtain ⟨hkept, hlt⟩ := hown _ _ ih.1 hstep
      exact ⟨hkept, by omega⟩
  | other _ hstep ih =>
      obtain ⟨hkept, hle⟩ := hother _ _ ih.1 hstep
      exact ⟨hkept, Nat.le_trans (Nat.add_le_add_left hle _) ih.2⟩

end Stretch

end Lib
