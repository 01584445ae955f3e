import HplfMalloc.Lib.Shares

/-!
# Custody

Objects in a store of which each is held once: the multiset of all that is held has no duplicates, and its members
are the live objects. Who holds what is left to the user: a transfer between holders leaves the multiset as it is.
-/

namespace Lib

variable {κ β : Type*}

/-- Each live object is held once, and nothing else is held. -/
structure Custody (held : Multiset κ) (store : κ → Option β) : Prop where
  nodup : held.Nodup
  live : ∀ k, k ∈ held ↔ (store k).isSome = true

namespace Custody

variable {held held' : Multiset κ} {store store' : κ → Option β} {k : κ}

theorem isSome_of_mem (h : Custody held store) (hmem : k ∈ held) : (store k).isSome = true :=
  (h.live k).mp hmem

theorem notMem_of_none (h : Custody held store) (hnone : store k = none) : k ∉ held := by
  intro hmem
  have hlive := h.isSome_of_mem hmem
  rw [hnone] at hlive
  exact Bool.false_ne_true hlive

/-- What is held changes hands. -/
theorem transfer (h : Custody held store) (hheld : held' = held) : Custody held' store :=
  hheld ▸ h

theorem empty_iff (h : Custody held store) : held = 0 ↔ ∀ k, store k = none := by
  constructor
  · rintro rfl k
    exact Option.not_isSome_iff_eq_none.mp fun hsome => absurd ((h.live k).mpr hsome) (Multiset.notMem_zero k)
  · intro hnone
    exact Multiset.eq_zero_of_forall_notMem fun k => h.notMem_of_none (hnone k)

section Update

variable [DecidableEq κ]

/-- An update of something else. -/
theorem update_outside {part : Multiset κ} {x : Option β} {other : κ} (hnotMem : k ∉ part) (hmem : other ∈ part) :
    Function.update store k x other = store other := by
  apply Function.update_of_ne
  rintro rfl
  exact hnotMem hmem

/-- A new object. -/
theorem gain (h : Custody held store) (x : β) (hfresh : store k = none) (hheld : held' = k ::ₘ held) :
    Custody held' (Function.update store k (some x)) := by
  subst hheld
  refine ⟨Multiset.nodup_cons.mpr ⟨h.notMem_of_none hfresh, h.nodup⟩, fun other => ?_⟩
  rw [Multiset.mem_cons, h.live]
  by_cases heq : other = k
  · subst heq
    simp
  · simp [heq]

/-- An object that is given up. -/
theorem lose (h : Custody held store) (hheld : held = k ::ₘ held') : Custody held' (Function.update store k none) := by
  subst hheld
  obtain ⟨hnotMem, hnodup⟩ := Multiset.nodup_cons.mp h.nodup
  refine ⟨hnodup, fun other => ?_⟩
  have hlive := h.live other
  rw [Multiset.mem_cons] at hlive
  by_cases heq : other = k
  · subst heq
    simp [hnotMem]
  · rw [Function.update_of_ne heq, ← hlive]
    simp [heq]

/-- An object that is written to. -/
theorem write (h : Custody held store) (x : β) (hmem : k ∈ held) : Custody held (Function.update store k (some x)) := by
  refine ⟨h.nodup, fun other => ?_⟩
  by_cases heq : other = k
  · subst heq
    simp [hmem]
  · rw [Function.update_of_ne heq]
    exact h.live other

end Update

end Custody

end Lib
