import Mathlib.Algebra.BigOperators.Group.List.Basic
import Mathlib.Algebra.GroupWithZero.Nat
import Mathlib.Order.Interval.Finset.Nat
import Mathlib.Tactic.Common

/-!
# Disjoint intervals

Intervals of numbers that are pairwise disjoint and lie between two bounds have lengths that add up to at
most the distance of the bounds.
-/

namespace Lib

variable {α : Type*} (base len : α → Nat)

/-- The numbers in some interval `[base x, base x + len x)` with `x` in the list. -/
def covered : List α → Finset Nat
  | [] => ∅
  | x :: xs => Finset.Ico (base x) (base x + len x) ∪ covered xs

variable {base len}

theorem mem_covered {n : Nat} {xs : List α} :
    n ∈ covered base len xs ↔ ∃ x ∈ xs, base x ≤ n ∧ n < base x + len x := by
  induction xs with
  | nil => simp [covered]
  | cons x xs ih => simp [covered, ih]

theorem card_covered {xs : List α}
    (hapart : xs.Pairwise fun x y => base x + len x ≤ base y ∨ base y + len y ≤ base x) :
    (covered base len xs).card = (xs.map len).sum := by
  induction xs with
  | nil => rfl
  | cons x xs ih =>
      obtain ⟨hfirst, hrest⟩ := List.pairwise_cons.mp hapart
      have hdisj : Disjoint (Finset.Ico (base x) (base x + len x)) (covered base len xs) := by
        rw [Finset.disjoint_left]
        intro n hn hmem
        obtain ⟨y, hy, hlow, hhigh⟩ := mem_covered.mp hmem
        have hxy := hfirst y hy
        rw [Finset.mem_Ico] at hn
        omega
      rw [covered, Finset.card_union_of_disjoint hdisj, ih hrest, Nat.card_Ico, List.map_cons,
        List.sum_cons, Nat.add_sub_cancel_left]

/-- **Disjoint intervals.** Their lengths add up to at most the length of an interval around them. -/
theorem sum_lengths_le {xs : List α} (lo hi : Nat)
    (hapart : xs.Pairwise fun x y => base x + len x ≤ base y ∨ base y + len y ≤ base x)
    (hbounds : ∀ x ∈ xs, lo ≤ base x ∧ base x + len x ≤ hi) : (xs.map len).sum ≤ hi - lo := by
  have hsub : covered base len xs ⊆ Finset.Ico lo hi := by
    intro n hn
    obtain ⟨x, hx, hlow, hhigh⟩ := mem_covered.mp hn
    have hx := hbounds x hx
    rw [Finset.mem_Ico]
    omega
  have hcard := Finset.card_le_card hsub
  rwa [card_covered hapart, Nat.card_Ico] at hcard

end Lib
