import Mathlib.Data.Fin.VecNotation
import Mathlib.Data.List.FinRange
import Mathlib.Tactic.Common
import Mathlib.Tactic.FinCases

/-!
# Size classes

The table of sixteen small-block capacities. A class index out of the table cannot be built: the lists
and counters the source keeps in arrays of length `HPLF_SIZE_CLASS_COUNT` are functions on `ClassIndex`.
-/

namespace Hplf

/-- `HPLF_SIZE_CLASS_COUNT`. -/
def sizeClassCount : Nat := 16

theorem sizeClassCount_pos : 0 < sizeClassCount := by decide

/-- `HPLF_MAX_SMALL_SIZE`. -/
def maxSmallSize : Nat := 4096

abbrev ClassIndex := Fin sizeClassCount

def sizeClassCapacities : ClassIndex → Nat :=
  ![16, 32, 48, 64, 96, 128, 192, 256, 384, 512, 768, 1024, 1536, 2048, 3072, 4096]

def classIndices : List ClassIndex := List.finRange sizeClassCount

def sizeClassFor (size : Nat) : Option (ClassIndex × Nat) :=
  if size = 0 ∨ size > maxSmallSize then
    none
  else
    (classIndices.find? fun index => size ≤ sizeClassCapacities index).map
      fun index => (index, sizeClassCapacities index)

def sizeClassCapacity (classIndex : Nat) : Option Nat :=
  if h : classIndex < sizeClassCount then some (sizeClassCapacities ⟨classIndex, h⟩) else none

@[simp]
theorem mem_classIndices (c : ClassIndex) : c ∈ classIndices := List.mem_finRange c

theorem nodup_classIndices : classIndices.Nodup := List.nodup_finRange _

theorem sizeClassCapacities_pos (c : ClassIndex) : 0 < sizeClassCapacities c := by
  revert c
  decide

theorem sizeClassCapacities_le (c : ClassIndex) : sizeClassCapacities c ≤ maxSmallSize := by
  revert c
  decide

theorem sizeClassCapacity_val (c : ClassIndex) :
    sizeClassCapacity c.val = some (sizeClassCapacities c) := by
  simp [sizeClassCapacity]

/-- A size served by a class fits its capacity, which is the table entry of the class. -/
theorem sizeClassFor_eq_some {size capacity : Nat} {c : ClassIndex}
    (hclass : sizeClassFor size = some (c, capacity)) :
    0 < size ∧ size ≤ capacity ∧ capacity = sizeClassCapacities c := by
  unfold sizeClassFor at hclass
  split at hclass
  · simp at hclass
  · rename_i hsize
    obtain ⟨index, hfind, hpair⟩ := Option.map_eq_some_iff.mp hclass
    obtain ⟨rfl, rfl⟩ := Prod.mk.inj hpair
    have hle := List.find?_some hfind
    simp only [decide_eq_true_eq] at hle
    exact ⟨by omega, hle, rfl⟩

theorem sizeClassFor_eq_none_iff {size : Nat} :
    sizeClassFor size = none ↔ size = 0 ∨ maxSmallSize < size := by
  unfold sizeClassFor
  split
  · rename_i hsize
    simpa using hsize
  · rename_i hsize
    simp only [Option.map_eq_none_iff, List.find?_eq_none, decide_eq_true_eq]
    constructor
    · intro hall
      refine absurd ?_ (hall (15 : Fin 16) (mem_classIndices _))
      change size ≤ 4096
      unfold maxSmallSize at hsize
      omega
    · intro h
      exact absurd h (by simpa using hsize)

end Hplf
