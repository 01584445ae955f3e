import HplfMalloc.Proof.Safety
import HplfMalloc.Proof.Transitions
import HplfMalloc.Schedule

/-!
# Slab creation under contention

An allocation that misses rechecks the shared list under the registry mutex before it maps a slab. What an
earlier allocation obtained and will not keep it publishes after it has released the mutex, or without
ever having held it, so a recheck can find the list empty while the blocks for it are on their way. If the
mutex is taken for a class only when no other thread has blocks of it to publish, and no list of a class is
detached outside the mutex while a recheck of that class is due, a slab is mapped only when it is needed.
-/

namespace Hplf

open Lib

variable {Tid : Type} [DecidableEq Tid]

/-- The list an allocating thread is about to republish: what is left after it has refilled its cache and
taken a block for the client. -/
def Config.surplus (k : Config Tid) (t : Tid) (c : ClassIndex) : Option TransferList :=
  match k.pc t with
  | .unlockRegistry _ c' capacity cache available | .refill _ c' capacity cache available =>
      if c' = c then
        (refillAndTake k.state cache c capacity available).map fun (_, rest, _) => rest
      else
        none
  | .publishRest _ c' available _ => if c' = c then some available else none
  | _ => none

/-- Thread `t` holds free blocks of class `c` that it is about to republish. -/
def Config.HoldsSurplus (k : Config Tid) (t : Tid) (c : ClassIndex) : Prop :=
  ((k.surplus t c).bind TransferList.first).isSome = true

instance (k : Config Tid) (t : Tid) (c : ClassIndex) : Decidable (k.HoldsSurplus t c) :=
  inferInstanceAs (Decidable (_ = true))

/-- Whenever a recheck comes back empty, so that a slab is mapped next, no other thread holds surplus
blocks of the class. -/
def Config.MapsOnlyIfNeeded (w : World) (k : Config Tid) : Prop :=
  ∀ t r c capacity cache k', k.pc t = .recheck r c capacity cache → advance .cached w k t = some k' →
    k'.pc t = .createSlab r c capacity cache → ∀ u, u ≠ t → ¬ k.HoldsSurplus u c

namespace Pc

/-- The class for which the registry mutex is to be taken. -/
def locks : Pc → Option ClassIndex
  | .lockRegistry _ c _ _ => some c
  | _ => none

/-- The class of the recheck that is due. -/
def rechecks : Pc → Option ClassIndex
  | .recheck _ c _ _ => some c
  | _ => none

/-- The class of the list that is to be detached outside the mutex. -/
def detaches : Pc → Option ClassIndex
  | .detach _ c _ _ => some c
  | _ => none

/-- The class of the blocks that an allocation has obtained, by a detach or from a new slab, and has not
published since. -/
def obtained : Pc → Option ClassIndex
  | .unlockRegistry _ c _ _ _ | .refill _ c _ _ _ => some c
  | .publishRest _ c available _ => if available.first = none then none else some c
  | _ => none

end Pc

omit [DecidableEq Tid] in
theorem Config.HoldsSurplus.obtained {k : Config Tid} {t : Tid} {c : ClassIndex}
    (hsurplus : k.HoldsSurplus t c) : (k.pc t).obtained = some c := by
  unfold HoldsSurplus surplus at hsurplus
  split at hsurplus
  · rename_i hpc
    split at hsurplus
    · rename_i hclass
      rw [hpc, ← hclass]
      rfl
    · simp at hsurplus
  · rename_i hpc
    split at hsurplus
    · rename_i hclass
      rw [hpc, ← hclass]
      rfl
    · simp at hsurplus
  · rename_i available _ hpc
    split at hsurplus
    · rename_i hclass
      rw [hpc, Pc.obtained, ← hclass, if_neg]
      rintro hnone
      simp [hnone] at hsurplus
    · simp at hsurplus
  · simp at hsurplus

/-- A step of the system that does not reach into a recheck: the mutex is taken for a class only when no
other thread has unpublished blocks of it, and a nonempty list is not detached outside the mutex while the
recheck of another thread for its class is due. -/
structure Serialized (k k' : Config Tid) : Prop where
  lock : ∀ t c, (k.pc t).locks = some c → (k'.pc t).rechecks = some c →
    ∀ u, u ≠ t → (k.pc u).obtained ≠ some c
  detach : ∀ t c, (k.pc t).detaches = some c → (k'.pc t).obtained = some c →
    ∀ u, u ≠ t → (k.pc u).rechecks ≠ some c

/-- The runs of the cached build all of whose steps are serialized. -/
def serializedMachine (Tid : Type) [DecidableEq Tid] (w : World) :
    System (Config Tid) (Tid × Option Call) where
  init k := k = .initial
  step k e k' := Step .cached w k e k' ∧ Serialized k k'

/-- No other thread has unpublished blocks of the class of a recheck that is due. -/
def Config.RecheckClear (k : Config Tid) : Prop :=
  ∀ t c, (k.pc t).rechecks = some c → ∀ u, u ≠ t → (k.pc u).obtained ≠ some c

variable {v : Variant} {w : World} {k k' : Config Tid} {t : Tid} {c : ClassIndex}

theorem Pc.Starts.rechecks {pc : Pc} (hstarts : pc.Starts) : pc.rechecks = none := by
  cases hstarts <;> rfl

theorem Pc.Starts.obtained {pc : Pc} (hstarts : pc.Starts) : pc.obtained = none := by
  cases hstarts <;> rfl

/-- A recheck is due only after the mutex has been taken. -/
theorem Transition.locks_of_rechecks (htransition : Transition v w k t k')
    (hrechecks : (k'.pc t).rechecks = some c) : (k.pc t).locks = some c := by
  cases htransition with
  | registryLocked hpc _ =>
      rw [hpc]
      simpa [Config.goto, Pc.rechecks, Pc.locks] using hrechecks
  | delivered _ hdeliver =>
      obtain ⟨s, pc, rfl, rfl | ⟨_, -, rfl⟩⟩ := deliver_cases hdeliver
      all_goals simp [Config.goto, Pc.rechecks] at hrechecks
  | released _ hrelease =>
      obtain ⟨s, pc, leaked, rfl, rfl | ⟨_, _, _, rfl⟩ | ⟨_, _, _, rfl⟩⟩ := release_cases hrelease
      all_goals simp [Config.goto, Pc.rechecks] at hrechecks
  | @flushDone d teardown hpc =>
      cases teardown <;> simp [Config.goto, Pc.rechecks] at hrechecks
  | _ => simp [Config.goto, Pc.rechecks] at hrechecks

/-- Blocks are obtained by the first detach or under the mutex. -/
theorem Transition.obtained_cases (htransition : Transition v w k t k')
    (hobtained : (k'.pc t).obtained = some c) :
    (k.pc t).obtained = some c ∨ (k.pc t).detaches = some c ∨ (k.pc t).InRegistry := by
  cases htransition with
  | detached hpc _ _ =>
      rw [hpc]
      exact Or.inr (Or.inl (by simpa [Config.goto, Pc.obtained, Pc.detaches] using hobtained))
  | rechecked hpc _ _ => exact Or.inr (Or.inr (by rw [hpc]; trivial))
  | slabCreated hpc _ => exact Or.inr (Or.inr (by rw [hpc]; trivial))
  | registryUnlocked hpc => exact Or.inr (Or.inr (by rw [hpc]; trivial))
  | refilled hpc _ =>
      rw [hpc]
      apply Or.inl
      simp only [Config.goto, Function.update_self, Pc.obtained] at hobtained
      split at hobtained
      · simp at hobtained
      · exact hobtained
  | delivered _ hdeliver =>
      obtain ⟨s, pc, rfl, rfl | ⟨_, -, rfl⟩⟩ := deliver_cases hdeliver
      all_goals simp [Config.goto, Pc.obtained] at hobtained
  | released _ hrelease =>
      obtain ⟨s, pc, leaked, rfl, rfl | ⟨_, _, _, rfl⟩ | ⟨_, _, _, rfl⟩⟩ := release_cases hrelease
      all_goals simp [Config.goto, Pc.obtained] at hobtained
  | @flushDone d teardown hpc =>
      cases teardown <;> simp [Config.goto, Pc.obtained] at hobtained
  | _ => simp [Config.goto, Pc.obtained] at hobtained

omit [DecidableEq Tid] in
/-- At most one thread is in the registry-locked section. -/
theorem Safe.inRegistry_unique (hsafe : Safe k) {t u : Tid} (ht : (k.pc t).InRegistry)
    (hu : (k.pc u).InRegistry) : u = t := by
  obtain ⟨bases, larges, g, hinv⟩ := hsafe
  have htwo : some u = some t := by
    rw [← (hinv.registry u).mp hu, (hinv.registry t).mp ht]
  exact Option.some.inj htwo

/-- **One step.** A serialized step keeps the rechecks clear. -/
theorem Config.RecheckClear.step {e : Option (Tid × Option Call)} (hclear : k.RecheckClear)
    (hsafe : Safe k) (hstep : Step .cached w k e k') (hserialized : Serialized k k') :
    k'.RecheckClear := by
  intro t c hrechecks u hne hobtained
  cases hstep with
  | @call x _ _ _ hidle hallowed henter =>
      have hstarts := enter_starts henter
      by_cases ht : t = x
      · subst ht
        simp [Config.goto, hstarts.rechecks] at hrechecks
      by_cases hu : u = x
      · subst hu
        simp [Config.goto, hstarts.obtained] at hobtained
      simp only [Config.goto, Function.update_of_ne ht] at hrechecks
      simp only [Config.goto, Function.update_of_ne hu] at hobtained
      exact hclear t c hrechecks u hne hobtained
  | @advance _ x hadvance =>
      have htransition := transition_of_advance hadvance
      by_cases ht : t = x
      · subst ht
        have hlocks := htransition.locks_of_rechecks hrechecks
        rw [htransition.pc_of_ne hne] at hobtained
        exact hserialized.lock t c hlocks hrechecks u hne hobtained
      rw [htransition.pc_of_ne ht] at hrechecks
      by_cases hu : u = x
      · subst hu
        rcases htransition.obtained_cases hobtained with hheld | hdetaches | hregistry
        · exact hclear t c hrechecks u hne hheld
        · exact hserialized.detach u c hdetaches hobtained t hne.symm hrechecks
        · have hrecheck : (k.pc t).InRegistry := by
            cases hpc : k.pc t with
            | recheck => trivial
            | _ => simp [hpc, Pc.rechecks] at hrechecks
          exact hne (hsafe.inRegistry_unique hrecheck hregistry)
      rw [htransition.pc_of_ne hu] at hobtained
      exact hclear t c hrechecks u hne hobtained
  | write => exact hclear t c hrechecks u hne hobtained
  | trim hquiescent _ => simp [hquiescent t, Pc.rechecks] at hrechecks

/-- **No excess maps in a serialized run.** For any number of threads and any interleaving of calls whose
steps are all serialized, in every configuration reached a recheck that comes back empty finds no other
thread with surplus blocks of its class. -/
theorem maps_only_if_needed (w : World) (k : Config Tid)
    (hreach : (serializedMachine Tid w).Reachable k) : k.MapsOnlyIfNeeded w := by
  have hinv : Safe k ∧ k.RecheckClear := by
    refine hreach.invariant (I := fun k => Safe k ∧ k.RecheckClear) ?_ ?_
    · rintro k (rfl : k = Config.initial)
      exact ⟨⟨_, _, _, Inv.initial⟩, fun t c hrechecks => by simp [Config.initial, Pc.rechecks] at hrechecks⟩
    · rintro k e k' ⟨hsafe, hclear⟩ ⟨hstep, hserialized⟩
      exact ⟨hsafe.step hstep, hclear.step hsafe hstep hserialized⟩
  intro t r c capacity cache k' hpc _ _ u hne hsurplus
  exact hinv.2 t c (by rw [hpc]; rfl) u hne hsurplus.obtained

/-- The world of the runs below. -/
def contendedWorld : World := bumpWorld fun _ => none

/-- Thread 0 has created a slab and is about to publish what it does not keep; thread 1, which has found
the list empty, is about to recheck it. -/
def contendedMapMoves : List (Move (Fin 2)) :=
  callMoves 0 (.malloc 2048) 7 ++ callMoves 1 (.malloc 2048) 3

/-- Thread 1 is about to recheck, thread 0 holds surplus blocks of the class, and the next two actions of
thread 1 end with a second slab mapped. -/
def showsExcessMap (k : Config (Fin 2)) : Bool :=
  match k.pc 1, advance .cached contendedWorld k 1 with
  | .recheck r c capacity cache, some k₁ =>
      decide (k₁.pc 1 = .createSlab r c capacity cache) && decide (k.HoldsSurplus 0 c) &&
        (advance .cached contendedWorld k₁ 1).any fun k₂ => k₂.state.mapped.length == 2
  | _, _ => false

/-- **An excess map.** Two threads miss in the same class one after the other; the second maps a slab while
the first is about to republish blocks of that class. -/
theorem maps_while_surplus_held : ∃ k k₁ k₂ : Config (Fin 2),
    (machine (Fin 2) .cached contendedWorld).Reachable k ∧
      advance .cached contendedWorld k 1 = some k₁ ∧ advance .cached contendedWorld k₁ 1 = some k₂ ∧
      k₂.state.mapped.length = 2 ∧ ¬ k.MapsOnlyIfNeeded contendedWorld := by
  obtain ⟨k, hreach, hcheck⟩ := exists_makeMoves .cached contendedWorld contendedMapMoves showsExcessMap
    (by decide +kernel)
  unfold showsExcessMap at hcheck
  split at hcheck
  · rename_i r c capacity cache k₁ hpc hadvance
    simp only [Bool.and_eq_true, decide_eq_true_eq, Option.any_eq_true, beq_iff_eq] at hcheck
    obtain ⟨⟨hcreate, hsurplus⟩, k₂, hadvance₂, hmapped⟩ := hcheck
    refine ⟨k, k₁, k₂, hreach, hadvance, hadvance₂, hmapped, fun hneeded => ?_⟩
    exact hneeded 1 r c capacity cache k₁ hpc hadvance hcreate 0 (by decide) hsurplus
  · simp at hcheck

instance [Fintype Tid] (k k' : Config Tid) : Decidable (Serialized k k') :=
  decidable_of_iff
    ((∀ t c, (k.pc t).locks = some c → (k'.pc t).rechecks = some c →
        ∀ u, u ≠ t → (k.pc u).obtained ≠ some c) ∧
      ∀ t c, (k.pc t).detaches = some c → (k'.pc t).obtained = some c →
        ∀ u, u ≠ t → (k.pc u).rechecks ≠ some c)
    ⟨fun h => ⟨h.1, h.2⟩, fun h => ⟨h.lock, h.detach⟩⟩

/-- Makes moves as long as their steps are serialized. -/
def makeSerializedMoves [Fintype Tid] (w : World) :
    List (Move Tid) → Config Tid → Option (Config Tid)
  | [], k => some k
  | m :: rest, k => do
      let k' ← makeMove .cached w k m
      if Serialized k k' then makeSerializedMoves w rest k' else none

theorem reachable_makeSerializedMoves [Fintype Tid] {moves : List (Move Tid)} :
    ∀ {k k' : Config Tid}, (serializedMachine Tid w).Reachable k →
      makeSerializedMoves w moves k = some k' → (serializedMachine Tid w).Reachable k' := by
  induction moves with
  | nil =>
      intro k k' hreach hmoves
      obtain rfl := Option.some.inj hmoves
      exact hreach
  | cons m rest ih =>
      intro k k' hreach hmoves
      obtain ⟨k₁, hfirst, hrest⟩ := Option.bind_eq_some_iff.mp hmoves
      obtain ⟨e, hstep⟩ := makeMove_step hfirst
      split at hrest
      · rename_i hserialized
        exact ih (hreach.step ⟨hstep, hserialized⟩) hrest
      · simp at hrest

/-- Thread 0 has allocated a block of the largest class and published the rest of its slab; thread 1 is
about to recheck the empty list of the smallest class. -/
theorem maps_only_if_needed_two_threads : ∃ k : Config (Fin 2),
    (serializedMachine (Fin 2) contendedWorld).Reachable k ∧
      (k.pc 1).rechecks = some ⟨0, by decide⟩ ∧ k.live.length = 1 ∧
      k.MapsOnlyIfNeeded contendedWorld := by
  have hcheck : (makeSerializedMoves contendedWorld (mallocMoves (0 : Fin 2) ++
      callMoves 1 (.malloc 1) 3) .initial).any (fun k =>
        decide ((k.pc 1).rechecks = some ⟨0, by decide⟩) && k.live.length == 1) = true := by
    decide +kernel
  obtain ⟨k, hmoves, hk⟩ := (Option.any_eq_true _ _).mp hcheck
  simp only [Bool.and_eq_true, decide_eq_true_eq, beq_iff_eq] at hk
  have hreach : (serializedMachine (Fin 2) contendedWorld).Reachable k :=
    reachable_makeSerializedMoves (System.Reachable.init rfl) hmoves
  exact ⟨k, hreach, hk.1, hk.2, maps_only_if_needed contendedWorld k hreach⟩

end Hplf
