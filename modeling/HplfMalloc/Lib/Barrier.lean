import Mathlib.Data.Fintype.Card
import Mathlib.Logic.Function.Basic
import Mathlib.Tactic.Common

/-!
# Barriers

A cyclic barrier for the members of a finite type: the last of them to arrive releases all others and opens the
next generation. Its counter is balanced if it is the number of those that are blocked in the current
generation.
-/

namespace Lib

variable {ι α : Type*} [Fintype ι]

/-! ### Head counts -/

/-- How many members satisfy `P`. -/
def headcount (P : α → Prop) [DecidablePred P] (f : ι → α) : Nat :=
  (Finset.univ.filter fun u => P (f u)).card

variable {P : α → Prop} [DecidablePred P] {f : ι → α} {u : ι} {x : α}

theorem headcount_eq_card_iff : headcount P f = Fintype.card ι ↔ ∀ u, P (f u) := by
  rw [headcount, ← Finset.card_univ, Finset.card_filter_eq_iff]
  simp

theorem headcount_eq_zero (hnone : ∀ u, ¬ P (f u)) : headcount P f = 0 := by
  rw [headcount, Finset.card_eq_zero, Finset.filter_eq_empty_iff]
  exact fun u _ => hnone u

variable [DecidableEq ι]

theorem headcount_update_same (hsame : P x ↔ P (f u)) : headcount P (Function.update f u x) = headcount P f := by
  unfold headcount
  congr 1
  ext v
  by_cases hv : v = u
  · subst hv
    simp [hsame]
  · simp [Function.update_of_ne hv]

theorem headcount_update_gain (hbefore : ¬ P (f u)) (hafter : P x) :
    headcount P (Function.update f u x) = headcount P f + 1 := by
  unfold headcount
  have hinsert : (Finset.univ.filter fun v => P (Function.update f u x v))
      = insert u (Finset.univ.filter fun v => P (f v)) := by
    ext v
    by_cases hv : v = u
    · subst hv
      simp [hafter]
    · simp [hv]
  rw [hinsert, Finset.card_insert_of_notMem]
  simpa using hbefore

/-- All but one are counted if the count is one short. -/
theorem headcount_all_but (hnot : ¬ P (f u)) (hcount : headcount P f + 1 = Fintype.card ι) {v : ι} (hv : v ≠ u) :
    P (f v) := by
  by_contra hnot'
  have hsub : (Finset.univ.filter fun v => P (f v)) ⊆ (Finset.univ.erase u).erase v := by
    intro w hw
    have hP := (Finset.mem_filter.mp hw).2
    refine Finset.mem_erase.mpr ⟨?_, Finset.mem_erase.mpr ⟨?_, Finset.mem_univ w⟩⟩
    · rintro rfl
      exact hnot' hP
    · rintro rfl
      exact hnot hP
  have hle : headcount P f ≤ Fintype.card ι - 1 - 1 := by
    have hle := Finset.card_le_card hsub
    rwa [Finset.card_erase_of_mem (Finset.mem_erase.mpr ⟨hv, Finset.mem_univ v⟩),
      Finset.card_erase_of_mem (Finset.mem_univ u), Finset.card_univ] at hle
  have hpos : 0 < Fintype.card ι - 1 := by
    rw [← Finset.card_univ, ← Finset.card_erase_of_mem (Finset.mem_univ u)]
    exact Finset.card_pos.mpr ⟨v, Finset.mem_erase.mpr ⟨hv, Finset.mem_univ v⟩⟩
  omega

/-! ### The barrier -/

/-- How many have arrived in the current generation, and the number of the generation. -/
structure Barrier where
  arrived : Nat
  generation : Nat
  deriving DecidableEq, Repr

namespace Barrier

/-- The effect of an arrival at a barrier for `parties`, and whether it was the last one. -/
def arrive (b : Barrier) (parties : Nat) : Barrier × Bool :=
  if b.arrived + 1 = parties then (⟨0, b.generation + 1⟩, true) else (⟨b.arrived + 1, b.generation⟩, false)

/-- `blocked u` is the generation in which `u` waits. The counter is the number of those that wait in the current
one, and it never reaches the number of all. -/
structure Balanced (b : Barrier) (blocked : ι → Option Nat) : Prop where
  arrived : b.arrived = headcount (· = some b.generation) blocked
  room : 0 < Fintype.card ι → b.arrived < Fintype.card ι

variable {b : Barrier} {blocked : ι → Option Nat}

/-- An arrival that is not the last one. -/
theorem Balanced.block (hbalanced : b.Balanced blocked) (hfree : blocked u ≠ some b.generation)
    (hnotLast : b.arrived + 1 ≠ Fintype.card ι) :
    Balanced ⟨b.arrived + 1, b.generation⟩ (Function.update blocked u (some b.generation)) where
  arrived := by
    rw [headcount_update_gain (P := (· = some b.generation)) hfree rfl, hbalanced.arrived]
  room hpos := Nat.lt_of_le_of_ne (hbalanced.room hpos) hnotLast

/-- The last arrival: all others are blocked in the generation that ends. -/
theorem Balanced.release (hbalanced : b.Balanced blocked) (hfree : blocked u ≠ some b.generation)
    (hlast : b.arrived + 1 = Fintype.card ι) : ∀ v, v ≠ u → blocked v = some b.generation := by
  intro v hv
  rw [hbalanced.arrived] at hlast
  exact headcount_all_but (P := (· = some b.generation)) hfree hlast hv

omit [DecidableEq ι] in
/-- In a new generation nobody is blocked. -/
theorem balanced_next (hpast : ∀ v, blocked v ≠ some (b.generation + 1)) :
    Balanced ⟨0, b.generation + 1⟩ blocked where
  arrived := (headcount_eq_zero hpast).symm
  room hpos := hpos

/-- Someone who is not blocked in the current generation moves on, and is not blocked in it afterwards. -/
theorem Balanced.move (hbalanced : b.Balanced blocked) (hfree : blocked u ≠ some b.generation) {g : Option Nat}
    (hfree' : g ≠ some b.generation) : b.Balanced (Function.update blocked u g) where
  arrived := by
    rw [headcount_update_same (P := (· = some b.generation)) (iff_of_false hfree' hfree), hbalanced.arrived]
  room := hbalanced.room

omit [DecidableEq ι] in
/-- Not everyone is blocked. -/
theorem Balanced.exists_free (hbalanced : b.Balanced blocked) (u : ι) : ∃ v, blocked v ≠ some b.generation := by
  by_contra hall
  have hcount := headcount_eq_card_iff (P := (· = some b.generation)).mpr fun v =>
    not_not.mp (not_exists.mp hall v)
  have hroom := hbalanced.room (Fintype.card_pos_iff.mpr ⟨u⟩)
  rw [hbalanced.arrived, hcount] at hroom
  exact Nat.lt_irrefl _ hroom

end Barrier

end Lib
