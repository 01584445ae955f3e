import HplfMalloc.Proof.LifecycleInv

/-!
# What unmaps

Of all actions only the release of a large block calls `hplf_os_unmap`, with the mapping its prefix
records, and only a failure there adds to the leaked mappings. Everything else leaves the record of unmaps
alone.
-/

namespace Hplf

open Lib Memory

variable {Tid : Type} [DecidableEq Tid] {s s' : State Tid} {w : World} {t : Tid}

theorem cacheAcquire_unmapCalls {cache : Ptr} (h : cacheAcquire w s t = some (s', cache)) :
    s'.unmapCalls = s.unmapCalls := by
  cases hstate : s.currentState t with
  | active | uncached =>
      simp only [cacheAcquire, hstate, Option.some.injEq, Prod.mk.injEq] at h
      rw [h.1]
  | uninitialized =>
      obtain ⟨s₁, cache₁, h₁, hacquired⟩ := cacheAcquire_uninitialized w hstate
      obtain ⟨rfl, rfl⟩ := Prod.mk.inj (Option.some.inj (h₁.symm.trans h))
      exact hacquired.sameStorage.unmapCalls

theorem unmapDescriptor_unmapCalls {d : Nat} (h : unmapDescriptor w s t d = some s') :
    s'.unmapCalls = s.unmapCalls := by
  obtain ⟨descriptor, -, h⟩ := Option.bind_eq_some_iff.mp h
  dsimp only at h
  split at h
  · obtain rfl := Option.some.inj h
    rfl
  · obtain rfl := Option.some.inj h
    rfl

/-! ### Actions -/

variable {k k' : Config Tid} {v : Variant}

/-- What an action of thread `t` does to the record of unmaps and to the leaked mappings. -/
inductive UnmapMove (w : World) (k k' : Config Tid) (t : Tid) : Prop
  | same (hcalls : k'.state.unmapCalls = k.state.unmapCalls) (hleaked : k'.leaked = k.leaked)
  /-- It releases a large block: the mapping goes away, or is leaked. -/
  | large {a : Nat} {b : Block} (hpc : k.pc t = .release a) (hblock : k.state.memory.block a = some b)
      (hkind : b.kind = .large) (hcalls : k'.state.unmapCalls = k.state.unmapCalls ++ [b.mapping])
      (hanswer : (w.munmap k.state.unmapCalls.length = none ∧
          k'.state.mapped = k.state.mapped.erase b.mapping ∧ k'.leaked = k.leaked) ∨
        (w.munmap k.state.unmapCalls.length ≠ none ∧ k'.state.mapped = k.state.mapped ∧
          k'.leaked = b.mapping :: k.leaked))

theorem release_unmapMove {a : Nat} (hpc : k.pc t = .release a) (hrelease : release v w k t a = some k')
    (hvalid : ∀ b, k.state.memory.block a = some b → b.kind = .large → b.mapping.Valid) :
    UnmapMove w k k' t := by
  cases releaseStep_of_release hrelease with
  | @unmapped header s length hheader hkind hunmap =>
      rcases osUnmap_valid w k.state t (hvalid header hheader hkind) with ⟨e, hfailed, -⟩ | ⟨hdone, hanswer⟩
      · cases hfailed.symm.trans hunmap
      · obtain ⟨rfl, -⟩ := Prod.mk.inj (hdone.symm.trans hunmap)
        exact .large hpc hheader hkind rfl (Or.inl ⟨hanswer, rfl, rfl⟩)
  | @leaked header s hheader hkind hunmap =>
      rcases osUnmap_valid w k.state t (hvalid header hheader hkind) with ⟨e, hfailed, hanswer⟩ | ⟨hdone, -⟩
      · obtain ⟨rfl, -⟩ := Prod.mk.inj (hfailed.symm.trans hunmap)
        exact .large hpc hheader hkind rfl (Or.inr ⟨hanswer, rfl, rfl⟩)
      · cases hdone.symm.trans hunmap
  | locked _ _ _ _ hfree =>
      have hwork : ListWork none k.state _ := freeSmallLocked_work hfree
      exact .same hwork.unmapCalls rfl
  | uncached _ _ _ _ hacquire hstore =>
      exact .same ((storeFreed_work hstore).unmapCalls.trans (cacheAcquire_unmapCalls hacquire)) rfl
  | stored _ _ _ _ hacquire hstore =>
      exact .same ((storeFreed_work hstore).unmapCalls.trans (cacheAcquire_unmapCalls hacquire)) rfl

theorem deliver_unmapMove {r : Request} {a : Nat} (hdeliver : deliver k t r a = some k') :
    UnmapMove w k k' t := by
  cases deliverStep_of_deliver hdeliver with
  | malloc _ => exact .same rfl rfl
  | calloc _ _ => exact .same rfl rfl
  | realloc _ _ _ _ => exact .same rfl rfl

theorem advance_unmapMove (hadvance : advance v w k t = some k')
    (hvalid : ∀ a b, k.pc t = .release a → k.state.memory.block a = some b → b.kind = .large →
      b.mapping.Valid) :
    UnmapMove w k k' t := by
  have hpublish : ∀ {s : State Tid} {c : ClassIndex} {list : TransferList},
      transferMutexPublish k.state c list = some s → s.unmapCalls = k.state.unmapCalls := by
    intro s c list h
    have hwork : ListWork none k.state s := transferMutexPublish_work h
    exact hwork.unmapCalls
  have hdetach : ∀ {s : State Tid} {c : ClassIndex} {list : TransferList},
      transferMutexDetach k.state c = some (s, list) → s.unmapCalls = k.state.unmapCalls := by
    intro s c list h
    have hwork : ListWork none k.state s := transferMutexDetach_work h
    exact hwork.unmapCalls
  have hsized : ∀ {s s' : State Tid} {a n : Nat}, setRequestedSize s a n = some s' →
      s'.unmapCalls = s.unmapCalls := by
    intro s s' a n h
    have hwork : ListWork none s s' := setRequestedSize_work h
    exact hwork.unmapCalls
  cases transition_of_advance hadvance with
  | lockedFailed _ _ hallocate _ => exact .same (allocateSmallLocked_work hallocate).unmapCalls rfl
  | lockedServed _ _ hallocate _ => exact .same (allocateSmallLocked_work hallocate).unmapCalls rfl
  | localMiss _ _ hacquire htake =>
      exact .same ((takeLocal_work htake).unmapCalls.trans (cacheAcquire_unmapCalls hacquire)) rfl
  | localHit _ _ hacquire htake hset =>
      have hcalls := (takeLocal_work htake).unmapCalls.trans (cacheAcquire_unmapCalls hacquire)
      exact .same ((hsized hset).trans hcalls) rfl
  | detached _ htaken _ => exact .same (hdetach htaken) rfl
  | detachedNothing _ htaken _ => exact .same (hdetach htaken) rfl
  | registryLocked _ _ => exact .same rfl rfl
  | rechecked _ htaken _ => exact .same (hdetach htaken) rfl
  | recheckedNothing _ htaken _ => exact .same (hdetach htaken) rfl
  | slabFailed _ hcreate =>
      have hcalls := (createRegisteredSlab_work hcreate).unmapCalls
      exact .same hcalls rfl
  | slabCreated _ hcreate => exact .same (createRegisteredSlab_work hcreate).unmapCalls rfl
  | registryUnlocked _ => exact .same rfl rfl
  | refilled _ hrefill => exact .same (refillAndTake_work hrefill).unmapCalls rfl
  | gaveUp _ hpublished =>
      have hcalls := hpublish hpublished
      exact .same hcalls rfl
  | handedOut _ hpublished hset => exact .same ((hsized hset).trans (hpublish hpublished)) rfl
  | largeFailed _ hallocate _ => exact .same (allocateLarge_work hallocate).unmapCalls rfl
  | largeServed _ hallocate _ => exact .same (allocateLarge_work hallocate).unmapCalls rfl
  | delivered _ hdeliver => exact deliver_unmapMove hdeliver
  | @released a k' hpc hrelease => exact release_unmapMove hpc hrelease fun b => hvalid a b hpc
  | freed _ hpublished =>
      have hcalls := hpublish hpublished
      exact .same hcalls rfl
  | evictionDone _ hevict => exact .same (withCache_work hevict).unmapCalls rfl
  | evicted _ hevict => exact .same (withCache_work hevict).unmapCalls rfl
  | evictionPublished _ hpublished => exact .same (hpublish hpublished) rfl
  | flushDone _ => exact .same rfl rfl
  | flushedNothing _ hextract => exact .same (withCache_work hextract).unmapCalls rfl
  | flushed _ hextract => exact .same (withCache_work hextract).unmapCalls rfl
  | flushPublished _ hpublished => exact .same (hpublish hpublished) rfl
  | descriptorUnmapped _ hunmap => exact .same (unmapDescriptor_unmapCalls hunmap) rfl

end Hplf
