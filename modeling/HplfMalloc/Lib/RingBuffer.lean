import Mathlib.Data.List.Basic
import Mathlib.Data.Int.ModEq
import Mathlib.Logic.Function.Basic
import Mathlib.Tactic.Common

/-!
# Ring buffers

A bounded queue in an array: the oldest of `count` elements is at `head`, and the others follow it round the
end of the array. `contents` is the queue it stands for; `push` appends to it and `pop` takes its first element
off.
-/

namespace Lib

structure RingBuffer (α : Type*) where
  slots : Nat → α
  capacity : Nat
  head : Nat
  count : Nat

namespace RingBuffer

variable {α : Type*}

def index (q : RingBuffer α) (offset : Nat) : Nat :=
  (q.head + offset) % q.capacity

/-- The elements, the oldest first. -/
def contents (q : RingBuffer α) : List α :=
  (List.range q.count).map fun offset => q.slots (q.index offset)

def push (q : RingBuffer α) (x : α) : RingBuffer α :=
  { q with
    slots := Function.update q.slots (q.index q.count) x
    count := q.count + 1 }

def front (q : RingBuffer α) : α :=
  q.slots q.head

def pop (q : RingBuffer α) : RingBuffer α :=
  { q with
    head := (q.head + 1) % q.capacity
    count := q.count - 1 }

/-- Overwrites the slot at the head. -/
def setFront (q : RingBuffer α) (x : α) : RingBuffer α :=
  { q with slots := Function.update q.slots q.head x }

/-- The head is a slot, and there is a slot for each element. -/
structure Fits (q : RingBuffer α) : Prop where
  head_lt : q.head < q.capacity
  count_le : q.count ≤ q.capacity

variable {q : RingBuffer α} {x : α}

@[simp] theorem length_contents : q.contents.length = q.count := by
  simp [contents]

theorem contents_eq_nil (hempty : q.count = 0) : q.contents = [] := by
  rw [contents, hempty, List.range_zero, List.map_nil]

theorem contents_setFront_pop (hfits : q.Fits) (x : α) : ((q.setFront x).pop).contents = q.pop.contents := by
  apply List.map_congr_left
  intro offset hoffset
  have hlt : offset < q.count - 1 := List.mem_range.mp hoffset
  have hcount := hfits.count_le
  have hhead := hfits.head_lt
  -- The front slot comes round again only after `capacity` steps.
  have hne : ((q.head + 1) % q.capacity + offset) % q.capacity ≠ q.head := by
    rw [Nat.mod_add_mod]
    intro heq
    by_cases hwrap : q.head + 1 + offset < q.capacity
    · rw [Nat.mod_eq_of_lt hwrap] at heq
      omega
    · rw [Nat.mod_eq_sub_mod (by omega), Nat.mod_eq_of_lt (by omega)] at heq
      omega
  exact Function.update_of_ne hne _ _

/-- A buffer with an element holds its front first. -/
theorem contents_pop (hfits : q.Fits) (hsome : q.count ≠ 0) : q.contents = q.front :: q.pop.contents := by
  obtain ⟨n, hn⟩ := Nat.exists_eq_succ_of_ne_zero hsome
  have hhead : q.index 0 = q.head := Nat.mod_eq_of_lt hfits.head_lt
  have hnext (offset : Nat) : q.index (offset + 1) = q.pop.index offset := by
    simp only [index, pop, Nat.mod_add_mod]
    congr 1
    omega
  calc q.contents
      = q.slots (q.index 0) :: (List.range n).map fun offset => q.slots (q.index (offset + 1)) := by
        rw [contents, hn, Nat.succ_eq_add_one, List.range_succ_eq_map, List.map_cons, List.map_map]
        rfl
    _ = q.front :: q.pop.contents := by
        rw [hhead, contents, pop, hn]
        exact congrArg _ (List.map_congr_left fun offset _ => congrArg q.slots (hnext offset))

/-- A push with a free slot appends. -/
theorem contents_push (hfits : q.Fits) (hroom : q.count < q.capacity) : (q.push x).contents = q.contents ++ [x] := by
  have hlast : (q.push x).slots ((q.push x).index q.count) = x := Function.update_self _ _ _
  have hcontents : (q.push x).contents
      = (List.range (q.count + 1)).map fun offset => (q.push x).slots ((q.push x).index offset) := rfl
  rw [hcontents, List.range_succ, List.map_append]
  congr 1
  · apply List.map_congr_left
    intro offset hoffset
    have hlt : offset < q.count := List.mem_range.mp hoffset
    have hhead := hfits.head_lt
    -- Two offsets below the capacity are in the same slot only if they are the same.
    have hne : q.index offset ≠ q.index q.count := by
      simp only [index]
      intro heq
      have hcong : Nat.ModEq q.capacity offset q.count := Nat.ModEq.add_left_cancel' q.head heq
      exact hlt.ne (hcong.eq_of_lt_of_lt (hlt.trans hroom) hroom)
    exact Function.update_of_ne hne x q.slots
  · exact congrArg (fun y => [y]) hlast

theorem Fits.push (hfits : q.Fits) (hroom : q.count < q.capacity) (x : α) : (q.push x).Fits :=
  ⟨hfits.head_lt, hroom⟩

theorem Fits.pop (hfits : q.Fits) : q.pop.Fits :=
  ⟨Nat.mod_lt _ (Nat.zero_lt_of_lt hfits.head_lt), Nat.le_trans (Nat.sub_le _ _) hfits.count_le⟩

theorem Fits.setFront (hfits : q.Fits) (x : α) : (q.setFront x).Fits :=
  ⟨hfits.head_lt, hfits.count_le⟩

end RingBuffer

end Lib
