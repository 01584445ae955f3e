import Mathlib.Algebra.BigOperators.Group.Finset.Basic
import Mathlib.Algebra.Order.BigOperators.Group.Finset
import Mathlib.Data.Multiset.Count
import Mathlib.Tactic.Common

/-!
# Shares

What the members of a finite type hold, each its own share: how the total changes with one share, and what follows
for the shares if nothing is held twice.
-/

namespace Lib

variable {ι α M : Type*} [Fintype ι] [DecidableEq ι]

/-- Giving a member something adds it to the total. -/
theorem sum_update_gain [AddCommMonoid M] {f : ι → M} {i : ι} {x : M} (y : M) (hgain : x = f i + y) :
    ∑ j, Function.update f i x j = (∑ j, f j) + y := by
  have hothers : ∑ j ∈ Finset.univ.erase i, Function.update f i x j = ∑ j ∈ Finset.univ.erase i, f j :=
    Finset.sum_congr rfl fun j hj => Function.update_of_ne (Finset.ne_of_mem_erase hj) _ _
  calc ∑ j, Function.update f i x j
      = (∑ j ∈ Finset.univ.erase i, f j) + x := by
        rw [← Finset.sum_erase_add _ _ (Finset.mem_univ i), hothers, Function.update_self]
    _ = (∑ j, f j) + y := by
        rw [hgain, ← add_assoc, Finset.sum_erase_add _ _ (Finset.mem_univ i)]

/-- Taking something from a member takes it from the total. -/
theorem sum_update_loss [AddCommMonoid M] {f : ι → M} {i : ι} {x : M} (y : M) (hloss : f i = x + y) :
    ∑ j, f j = (∑ j, Function.update f i x j) + y := by
  have hback : Function.update (Function.update f i x) i (f i) = f := by
    rw [Function.update_idem, Function.update_eq_self]
  rw [← sum_update_gain y (f := Function.update f i x) (i := i) (x := f i) (by rwa [Function.update_self]), hback]

/-- A share that is as it was leaves the total as it was. -/
theorem sum_update_same [AddCommMonoid M] {f : ι → M} {i : ι} {x : M} (hsame : x = f i) :
    ∑ j, Function.update f i x j = ∑ j, f j := by
  rw [hsame, Function.update_eq_self]

section Measured

variable {β : Type*} [AddCommMonoid M] (g : ι → β → M) {f : ι → β} {i : ι} {x : β}

/-- What the members hold, measured by `g`. -/
theorem sum_measure_gain (y : M) (hgain : g i x = g i (f i) + y) :
    ∑ j, g j (Function.update f i x j) = (∑ j, g j (f j)) + y := by
  have hshares : (fun j => g j (Function.update f i x j)) = Function.update (fun j => g j (f j)) i (g i x) :=
    funext fun j => Function.apply_update g f i x j
  rw [hshares]
  exact sum_update_gain y hgain

theorem sum_measure_loss (y : M) (hloss : g i (f i) = g i x + y) :
    ∑ j, g j (f j) = (∑ j, g j (Function.update f i x j)) + y := by
  have hback : Function.update (Function.update f i x) i (f i) = f := by
    rw [Function.update_idem, Function.update_eq_self]
  have hgain := sum_measure_gain g (f := Function.update f i x) (x := f i) y (by rwa [Function.update_self])
  rwa [hback] at hgain

/-- What a member had, and what it has instead. -/
theorem sum_measure_swap : (∑ j, g j (Function.update f i x j)) + g i (f i) = (∑ j, g j (f j)) + g i x := by
  have hothers : ∑ j ∈ Finset.univ.erase i, g j (Function.update f i x j) = ∑ j ∈ Finset.univ.erase i, g j (f j) :=
    Finset.sum_congr rfl fun j hj => by rw [Function.update_of_ne (Finset.ne_of_mem_erase hj)]
  calc (∑ j, g j (Function.update f i x j)) + g i (f i)
      = g i x + ∑ j ∈ Finset.univ.erase i, g j (f j) + g i (f i) := by
        rw [← Finset.add_sum_erase _ _ (Finset.mem_univ i), Function.update_self, hothers]
    _ = g i (f i) + ∑ j ∈ Finset.univ.erase i, g j (f j) + g i x := by
        rw [add_right_comm, add_comm (g i x), add_right_comm]
    _ = (∑ j, g j (f j)) + g i x := by
        rw [Finset.add_sum_erase _ (fun j => g j (f j)) (Finset.mem_univ i)]

theorem sum_measure_same (hsame : g i x = g i (f i)) : ∑ j, g j (Function.update f i x j) = ∑ j, g j (f j) := by
  rw [sum_measure_gain g 0 (by rw [hsame, add_zero]), add_zero]

end Measured

/-- A change of one member by so much at most. -/
theorem sum_measure_le {β : Type*} (g : ι → β → Nat) {f : ι → β} {i : ι} {x : β} {c : Nat}
    (hle : g i x ≤ g i (f i) + c) : ∑ j, g j (Function.update f i x j) ≤ (∑ j, g j (f j)) + c := by
  have hothers : ∑ j ∈ Finset.univ.erase i, g j (Function.update f i x j) = ∑ j ∈ Finset.univ.erase i, g j (f j) :=
    Finset.sum_congr rfl fun j hj => by rw [Function.update_of_ne (Finset.ne_of_mem_erase hj)]
  calc ∑ j, g j (Function.update f i x j)
      = g i x + ∑ j ∈ Finset.univ.erase i, g j (f j) := by
        rw [← Finset.add_sum_erase _ _ (Finset.mem_univ i), Function.update_self, hothers]
    _ ≤ (g i (f i) + c) + ∑ j ∈ Finset.univ.erase i, g j (f j) := Nat.add_le_add_right hle _
    _ = (∑ j, g j (f j)) + c := by
        rw [← Finset.add_sum_erase _ (fun j => g j (f j)) (Finset.mem_univ i), Nat.add_right_comm]

omit [DecidableEq ι] in
theorem le_total (f : ι → Multiset α) (i : ι) : f i ≤ ∑ j, f j :=
  Finset.single_le_sum (fun _ _ => Multiset.zero_le _) (Finset.mem_univ i)

omit [DecidableEq ι] in
theorem mem_total {f : ι → Multiset α} {i : ι} {x : α} (hx : x ∈ f i) : x ∈ ∑ j, f j :=
  Multiset.mem_of_le (le_total f i) hx

/-- If nothing is held twice, two members hold nothing in common. -/
theorem eq_of_mem_shares {f : ι → Multiset α} (hnodup : (∑ j, f j).Nodup) {i j : ι} {x : α} (hi : x ∈ f i)
    (hj : x ∈ f j) : i = j := by
  by_contra hne
  have hsplit : f i + ∑ k ∈ Finset.univ.erase i, f k = ∑ k, f k := Finset.add_sum_erase _ _ (Finset.mem_univ i)
  have hother : x ∈ ∑ k ∈ Finset.univ.erase i, f k :=
    Multiset.mem_of_le
      (Finset.single_le_sum (fun _ _ => Multiset.zero_le _) (Finset.mem_erase.mpr ⟨Ne.symm hne, Finset.mem_univ j⟩)) hj
  rw [← hsplit] at hnodup
  exact Multiset.disjoint_left.mp (Multiset.nodup_add.mp hnodup).2.2 hi hother

/-- The same for the parts in a list. -/
theorem eq_of_mem_parts {parts : List (Multiset α)} (hnodup : parts.sum.Nodup) {i j : Nat} {s t : Multiset α} {x : α}
    (hi : parts[i]? = some s) (hj : parts[j]? = some t) (hs : x ∈ s) (ht : x ∈ t) : i = j := by
  induction parts generalizing i j with
  | nil => cases hi
  | cons first parts ih =>
      rw [List.sum_cons] at hnodup
      obtain ⟨-, hrest, hdisjoint⟩ := Multiset.nodup_add.mp hnodup
      have hapart {k : Nat} {u : Multiset α} (hk : parts[k]? = some u) (hfirst : x ∈ first) : x ∉ u := fun hu =>
        Multiset.disjoint_left.mp hdisjoint hfirst
          (Multiset.mem_of_le (List.le_sum_of_mem (List.mem_of_getElem? hk)) hu)
      cases i with
      | zero =>
          cases j with
          | zero => rfl
          | succ j =>
              cases Option.some.inj hi
              exact absurd ht (hapart hj hs)
      | succ i =>
          cases j with
          | zero =>
              cases Option.some.inj hj
              exact absurd hs (hapart hi ht)
          | succ j => rw [ih hrest hi hj]

end Lib
