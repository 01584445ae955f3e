import HplfMalloc.Lib.Barrier
import HplfMalloc.Lib.Shares
import Mathlib.Data.Finset.Card

/-!
# Condition variables

Threads that wait on one condition variable, as the members of a finite type: a waiting member is blocked until
it is woken, and a woken one has yet to test its predicate again. A signal wakes one waiting member and a
broadcast all of them.

A signal for each new resource is enough, although it wakes a single member: as long as somebody waits, there is
a woken member for each resource that is left.
-/

namespace Lib

/-- The states of a member that matter to a condition variable. -/
structure Waiters (α : Type*) where
  waits : α → Bool
  awake : α → Bool
  wake : α → α
  not_waits_of_awake : ∀ x, awake x = true → waits x = false
  awake_wake : ∀ x, waits x = true → awake (wake x) = true

namespace Waiters

variable {ι α : Type*} (W : Waiters α)

theorem not_waits_wake {x : α} (hwaits : W.waits x = true) : W.waits (W.wake x) = false :=
  W.not_waits_of_awake _ (W.awake_wake x hwaits)

/-- `pthread_cond_broadcast`. -/
def broadcast (f : ι → α) : ι → α :=
  fun u => if W.waits (f u) then W.wake (f u) else f u

theorem broadcast_apply (f : ι → α) (u : ι) :
    W.broadcast f u = f u ∨ W.waits (f u) = true ∧ W.broadcast f u = W.wake (f u) := by
  unfold broadcast
  by_cases hwaits : W.waits (f u) = true
  · exact .inr ⟨hwaits, if_pos hwaits⟩
  · exact .inl (if_neg hwaits)

theorem not_waits_broadcast (f : ι → α) (u : ι) : W.waits (W.broadcast f u) = false := by
  unfold broadcast
  by_cases hwaits : W.waits (f u) = true
  · rw [if_pos hwaits]
    exact W.not_waits_wake hwaits
  · rw [if_neg hwaits]
    exact Bool.eq_false_iff.mpr hwaits

/-- The choice of a signal that wakes somebody if it can. -/
def Wakes (f : ι → α) (choice : Option ι) : Prop :=
  (∃ u, W.waits (f u) = true) → ∃ u, choice = some u ∧ W.waits (f u) = true

instance [Fintype ι] [DecidableEq ι] (f : ι → α) (choice : Option ι) : Decidable (W.Wakes f choice) :=
  inferInstanceAs (Decidable ((∃ u, W.waits (f u) = true) → ∃ u, choice = some u ∧ W.waits (f u) = true))

/-- `pthread_cond_signal`: wakes the chosen member if it waits. -/
def signal [DecidableEq ι] (f : ι → α) : Option ι → ι → α
  | none => f
  | some u => if W.waits (f u) then Function.update f u (W.wake (f u)) else f

theorem signal_apply [DecidableEq ι] (f : ι → α) (choice : Option ι) (u : ι) :
    W.signal f choice u = f u ∨ W.waits (f u) = true ∧ W.signal f choice u = W.wake (f u) := by
  rcases choice with _ | v
  · exact .inl rfl
  · by_cases hwaits : W.waits (f v) = true
    · rw [signal, if_pos hwaits]
      by_cases hu : u = v
      · subst hu
        exact .inr ⟨hwaits, Function.update_self _ _ _⟩
      · exact .inl (Function.update_of_ne hu _ _)
    · rw [signal, if_neg hwaits]
      exact .inl rfl

theorem exists_waits_of_update [DecidableEq ι] {f : ι → α} {u : ι} {x : α} (hx : W.waits x = false)
    (hsome : ∃ v, W.waits (Function.update f u x v) = true) : ∃ v, W.waits (f v) = true := by
  obtain ⟨v, hv⟩ := hsome
  by_cases hu : v = u
  · subst hu
    rw [Function.update_self, hx] at hv
    exact absurd hv Bool.false_ne_true
  · rw [Function.update_of_ne hu] at hv
    exact ⟨v, hv⟩

section Served

variable [Fintype ι]

def awakeCount (f : ι → α) : Nat :=
  headcount (fun x => W.awake x = true) f

/-- If somebody waits, each of the resources has a woken member to take it. -/
def Served (supply : Nat) (f : ι → α) : Prop :=
  (∃ u, W.waits (f u) = true) → supply ≤ W.awakeCount f

variable {W} {n : Nat} {f : ι → α} {u : ι} {x : α}

/-- Only who waits and who is awake matters. -/
theorem Served.congr (hserved : W.Served n f) {f' : ι → α} (hwaits : ∀ u, W.waits (f' u) = W.waits (f u))
    (hawake : ∀ u, W.awake (f' u) = W.awake (f u)) : W.Served n f' := by
  unfold Served awakeCount headcount at *
  simp only [hwaits, hawake]
  exact hserved

theorem served_zero : W.Served 0 f :=
  fun _ => Nat.zero_le _

theorem served_of_none (hnone : ∀ u, W.waits (f u) = false) : W.Served n f := by
  rintro ⟨u, hu⟩
  rw [hnone u] at hu
  exact absurd hu Bool.false_ne_true

/-- With a resource left and somebody waiting, somebody is awake. -/
theorem Served.exists_awake (hserved : W.Served n f) (hsupply : 0 < n) (hwaits : W.waits (f u) = true) :
    ∃ v, W.awake (f v) = true := by
  have hpos : 0 < headcount (fun x => W.awake x = true) f := Nat.lt_of_lt_of_le hsupply (hserved ⟨u, hwaits⟩)
  obtain ⟨v, hv⟩ := Finset.card_pos.mp hpos
  exact ⟨v, (Finset.mem_filter.mp hv).2⟩

variable [DecidableEq ι]

theorem awakeCount_le_update_succ : W.awakeCount f ≤ W.awakeCount (Function.update f u x) + 1 := by
  have hsubset : (Finset.univ.filter fun v => W.awake (f v) = true)
      ⊆ insert u (Finset.univ.filter fun v => W.awake (Function.update f u x v) = true) := by
    intro v hv
    by_cases hu : v = u
    · exact Finset.mem_insert.mpr (.inl hu)
    · refine Finset.mem_insert.mpr (.inr ?_)
      simpa [Function.update_of_ne hu] using hv
  exact (Finset.card_le_card hsubset).trans (Finset.card_insert_le _ _)

theorem awakeCount_le_update (hkeep : W.awake (f u) = true → W.awake x = true) :
    W.awakeCount f ≤ W.awakeCount (Function.update f u x) := by
  apply Finset.card_le_card
  intro v hv
  have hawake : W.awake (f v) = true := (Finset.mem_filter.mp hv).2
  refine Finset.mem_filter.mpr ⟨Finset.mem_univ v, ?_⟩
  by_cases hu : v = u
  · subst hu
    simpa using hkeep hawake
  · simpa [Function.update_of_ne hu] using hawake

theorem awakeCount_update_gain (hbefore : W.awake (f u) = false) (hafter : W.awake x = true) :
    W.awakeCount (Function.update f u x) = W.awakeCount f + 1 :=
  headcount_update_gain (Bool.eq_false_iff.mp hbefore) hafter

/-- A member that takes a resource was at most one of those awake. -/
theorem Served.take (hserved : W.Served (n + 1) f) (hx : W.waits x = false) :
    W.Served n (Function.update f u x) := by
  intro hsome
  have hle := hserved (W.exists_waits_of_update hx hsome)
  exact Nat.le_of_succ_le_succ (hle.trans awakeCount_le_update_succ)

/-- A member may go on, unless it was woken and does not test its predicate. -/
theorem Served.move (hserved : W.Served n f) (hx : W.waits x = false)
    (hkeep : W.awake (f u) = true → W.awake x = true) : W.Served n (Function.update f u x) :=
  fun hsome => (hserved (W.exists_waits_of_update hx hsome)).trans (awakeCount_le_update hkeep)

theorem Served.wake (hserved : W.Served n f) (hwaits : W.waits (f u) = true) :
    W.Served n (Function.update f u (W.wake (f u))) :=
  hserved.move (W.not_waits_wake hwaits) fun _ => W.awake_wake _ hwaits

/-- A signal for a new resource. -/
theorem Served.signal (hserved : W.Served n f) {choice : Option ι} (hwakes : W.Wakes f choice) :
    W.Served (n + 1) (W.signal f choice) := by
  by_cases hwaiting : ∃ u, W.waits (f u) = true
  · obtain ⟨u, rfl, hu⟩ := hwakes hwaiting
    have hasleep : W.awake (f u) = false := by
      rw [Bool.eq_false_iff]
      intro hawake
      rw [W.not_waits_of_awake _ hawake] at hu
      exact absurd hu Bool.false_ne_true
    rw [Waiters.signal, if_pos hu]
    intro _
    rw [awakeCount_update_gain hasleep (W.awake_wake _ hu)]
    exact Nat.succ_le_succ (hserved hwaiting)
  · apply served_of_none
    intro u
    rcases W.signal_apply f choice u with hsame | ⟨hwaits, -⟩
    · rw [hsame]
      exact Bool.eq_false_iff.mpr fun hwaits => hwaiting ⟨u, hwaits⟩
    · exact absurd ⟨u, hwaits⟩ hwaiting

end Served

/-! ### What wake-ups cost -/

section Weights

variable [Fintype ι] {W} {weight : α → Nat} (hwake : ∀ x, W.waits x = true → weight (W.wake x) ≤ weight x + 1)

include hwake

theorem sum_signal_le [DecidableEq ι] (f : ι → α) (choice : Option ι) :
    ∑ u, weight (W.signal f choice u) ≤ (∑ u, weight (f u)) + 1 := by
  cases choice with
  | none => exact Nat.le_succ _
  | some v =>
      by_cases hwaits : W.waits (f v) = true
      · rw [signal, if_pos hwaits]
        exact sum_measure_le (fun _ => weight) (hwake _ hwaits)
      · rw [signal, if_neg hwaits]
        exact Nat.le_succ _

theorem sum_broadcast_le (f : ι → α) :
    ∑ u, weight (W.broadcast f u) ≤ (∑ u, weight (f u)) + Fintype.card ι := by
  calc ∑ u, weight (W.broadcast f u)
      ≤ ∑ u, (weight (f u) + 1) := by
        refine Finset.sum_le_sum fun u _ => ?_
        rcases W.broadcast_apply f u with hsame | ⟨hwaits, hwoken⟩
        · rw [hsame]
          exact Nat.le_succ _
        · rw [hwoken]
          exact hwake _ hwaits
    _ = (∑ u, weight (f u)) + Fintype.card ι := by
        rw [Finset.sum_add_distrib, ← Finset.card_eq_sum_ones, Finset.card_univ]

end Weights

end Waiters

end Lib
