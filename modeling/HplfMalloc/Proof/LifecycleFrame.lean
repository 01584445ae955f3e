import HplfMalloc.Proof.Advance
import HplfMalloc.Proof.Transitions

/-!
# What an action does to the lifecycle data

Most actions leave the thread-local lifecycle data, the key values and the set of mapped descriptors alone,
and write at most the cache inside the acting thread's own descriptor. The exceptions are the first use of
a cache, which may map a descriptor, and the end of a teardown, which may unmap one.
-/

namespace Hplf

open Lib Memory

variable {Tid : Type}

/-- The mapping a descriptor records. -/
def CacheDescriptor.region (descriptor : CacheDescriptor) : Mapping :=
  ⟨descriptor.mappingBase, descriptor.mappingLength⟩

/-- The lifecycle data is the same, and so is every descriptor except for the cache inside `own`. -/
structure SameLifecycle (own : Ptr) (s s' : State Tid) : Prop where
  descriptorMapped : s'.descriptorMapped = s.descriptorMapped
  currentState : s'.currentState = s.currentState
  currentDescriptor : s'.currentDescriptor = s.currentDescriptor
  keyValue : s'.keyValue = s.keyValue
  descriptorsMappedBy : s'.descriptorsMappedBy = s.descriptorsMappedBy
  handedToRelease : s'.handedToRelease = s.handedToRelease
  region : ∀ d, (s'.descriptor d).map CacheDescriptor.region
    = (s.descriptor d).map CacheDescriptor.region
  others : ∀ d, own ≠ some d → s'.descriptor d = s.descriptor d

section SameLifecycle

variable {own : Ptr} {s s' : State Tid}

theorem SameLifecycle.refl (own : Ptr) (s : State Tid) : SameLifecycle own s s :=
  ⟨rfl, rfl, rfl, rfl, rfl, rfl, fun _ => rfl, fun _ _ => rfl⟩

theorem SameLifecycle.trans {s₁ s₂ s₃ : State Tid} (h₁ : SameLifecycle own s₁ s₂)
    (h₂ : SameLifecycle own s₂ s₃) : SameLifecycle own s₁ s₃ where
  descriptorMapped := h₂.descriptorMapped.trans h₁.descriptorMapped
  currentState := h₂.currentState.trans h₁.currentState
  currentDescriptor := h₂.currentDescriptor.trans h₁.currentDescriptor
  keyValue := h₂.keyValue.trans h₁.keyValue
  descriptorsMappedBy := h₂.descriptorsMappedBy.trans h₁.descriptorsMappedBy
  handedToRelease := h₂.handedToRelease.trans h₁.handedToRelease
  region d := (h₂.region d).trans (h₁.region d)
  others d hd := (h₂.others d hd).trans (h₁.others d hd)

/-- Storage, lists and counters are not lifecycle data. -/
theorem SameLifecycle.of_storage (memory : Memory) (mapped : List Mapping) (slabs : Ptr)
    (sharedHeads : ClassIndex → Ptr) (errno : Tid → Errno) (pageQueries : Nat)
    (mapOutcomes : List Bool) (unmapCalls : List Mapping) :
    SameLifecycle own s { s with
      memory := memory
      mapped := mapped
      slabs := slabs
      sharedHeads := sharedHeads
      errno := errno
      pageQueries := pageQueries
      mapOutcomes := mapOutcomes
      unmapCalls := unmapCalls } :=
  ⟨rfl, rfl, rfl, rfl, rfl, rfl, fun _ => rfl, fun _ _ => rfl⟩


/-- Only lists differ: storage, shared heads, the error number, and the cache inside `own`. -/
structure ListWork (own : Ptr) (s s' : State Tid) : Prop where
  lists : ListsOnly s s'
  region : ∀ d, (s'.descriptor d).map CacheDescriptor.region
    = (s.descriptor d).map CacheDescriptor.region
  others : ∀ d, own ≠ some d → s'.descriptor d = s.descriptor d

theorem ListWork.sameLifecycle (hwork : ListWork own s s') : SameLifecycle own s s' := by
  have hregion := hwork.region
  have hothers := hwork.others
  obtain ⟨_, _, _, _, rfl⟩ := hwork.lists
  exact ⟨rfl, rfl, rfl, rfl, rfl, rfl, hregion, hothers⟩

theorem ListWork.unmapCalls (hwork : ListWork own s s') : s'.unmapCalls = s.unmapCalls := by
  obtain ⟨_, _, _, _, rfl⟩ := hwork.lists
  rfl


theorem ListWork.refl (own : Ptr) (s : State Tid) : ListWork own s s :=
  ⟨ListsOnly.refl s, fun _ => rfl, fun _ _ => rfl⟩

theorem ListWork.trans {s₁ s₂ s₃ : State Tid} (h₁ : ListWork own s₁ s₂) (h₂ : ListWork own s₂ s₃) :
    ListWork own s₁ s₃ := by
  refine ⟨?_, fun d => (h₂.region d).trans (h₁.region d),
    fun d hd => (h₂.others d hd).trans (h₁.others d hd)⟩
  obtain ⟨_, _, _, _, rfl⟩ := h₁.lists
  obtain ⟨_, _, _, _, rfl⟩ := h₂.lists
  exact ⟨_, _, _, _, rfl⟩

theorem ListWork.of_lists (memory : Memory) (sharedHeads : ClassIndex → Ptr) (errno : Tid → Errno) :
    ListWork own s { s with memory := memory, sharedHeads := sharedHeads, errno := errno } :=
  ⟨⟨_, _, _, _, rfl⟩, fun _ => rfl, fun _ _ => rfl⟩

theorem setRequestedSize_work {a n : Nat} (h : setRequestedSize s a n = some s') :
    ListWork own s s' := by
  obtain ⟨m, -, heq⟩ := Option.bind_eq_some_iff.mp h
  obtain rfl := Option.some.inj heq
  exact .of_lists ..

theorem popShared_work {n a : Nat} {c : ClassIndex} {p : Ptr}
    (h : popShared s n c a = some (s', p)) : ListWork own s s' := by
  obtain ⟨rest, -, h⟩ := Option.bind_eq_some_iff.mp h
  obtain ⟨m₁, -, h⟩ := Option.bind_eq_some_iff.mp h
  obtain ⟨m₂, -, h⟩ := Option.bind_eq_some_iff.mp h
  obtain ⟨rfl, -⟩ := Prod.mk.inj (Option.some.inj h)
  exact .of_lists ..

theorem freeSmallLocked_work {a : Nat} {c : ClassIndex}
    (h : freeSmallLocked s a c = some s') : ListWork own s s' := by
  obtain ⟨m₁, -, h⟩ := Option.bind_eq_some_iff.mp h
  obtain ⟨m₂, -, h⟩ := Option.bind_eq_some_iff.mp h
  obtain rfl := Option.some.inj h
  exact .of_lists ..

theorem transferMutexPublish_work {c : ClassIndex} {list : TransferList}
    (h : transferMutexPublish s c list = some s') : ListWork own s s' := by
  unfold transferMutexPublish at h
  split at h
  · obtain rfl := Option.some.inj h
    exact .refl _ _
  · obtain ⟨last, -, h⟩ := Option.bind_eq_some_iff.mp h
    obtain ⟨m, -, h⟩ := Option.bind_eq_some_iff.mp h
    obtain rfl := Option.some.inj h
    exact .of_lists ..

theorem transferMutexDetach_work {c : ClassIndex} {list : TransferList}
    (h : transferMutexDetach s c = some (s', list)) : ListWork own s s' := by
  obtain ⟨list', -, h⟩ := Option.bind_eq_some_iff.mp h
  obtain ⟨rfl, -⟩ := Prod.mk.inj (Option.some.inj h)
  exact .of_lists ..

theorem withCache_work {α : Type} {d : Nat} {result : α}
    {operation : Memory → ThreadCache → Option (Memory × ThreadCache × α)}
    (h : withCache s d operation = some (s', result)) : ListWork (some d) s s' := by
  obtain ⟨descriptor, hd, h⟩ := Option.bind_eq_some_iff.mp h
  obtain ⟨⟨m, cache, result'⟩, -, h⟩ := Option.bind_eq_some_iff.mp h
  obtain ⟨rfl, -⟩ := Prod.mk.inj (Option.some.inj h)
  refine ⟨⟨_, _, _, _, rfl⟩, fun e => ?_, fun e he => ?_⟩
  · by_cases hed : e = d
    · subst hed
      simp [hd, CacheDescriptor.region]
    · simp [hed]
  · have hne : e ≠ d := fun heq => he (by rw [heq])
    exact Function.update_of_ne hne _ _

theorem takeLocal_work {cache result : Ptr} {c : ClassIndex} {capacity : Nat}
    (h : takeLocal s cache c capacity = some (s', result)) : ListWork cache s s' := by
  cases cache with
  | none =>
      obtain ⟨rfl, -⟩ := Prod.mk.inj (Option.some.inj h)
      exact .refl _ _
  | some d =>
      rw [takeLocal] at h
      exact withCache_work h

theorem refillAndTake_work {cache block : Ptr} {c : ClassIndex} {capacity : Nat}
    {available available' : TransferList}
    (h : refillAndTake s cache c capacity available = some (s', available', block)) :
    ListWork cache s s' := by
  unfold refillAndTake at h
  cases cache with
  | none =>
      simp only [Option.bind_eq_bind, Option.bind_some] at h
      obtain ⟨⟨m, available₂, direct⟩, -, h⟩ := Option.bind_eq_some_iff.mp h
      obtain ⟨rfl, -⟩ := Prod.mk.inj (Option.some.inj h)
      exact .of_lists ..
  | some d =>
      obtain ⟨⟨s₁, available₁⟩, hrefill, h⟩ := Option.bind_eq_some_iff.mp h
      obtain ⟨⟨s₂, block₂⟩, htake, h⟩ := Option.bind_eq_some_iff.mp h
      apply ((withCache_work hrefill).trans (takeLocal_work htake)).trans
      cases block₂ with
      | none =>
          simp only [Option.bind_eq_bind, Option.bind_some] at h
          obtain ⟨⟨m, available₂, direct⟩, -, h⟩ := Option.bind_eq_some_iff.mp h
          obtain ⟨rfl, -⟩ := Prod.mk.inj (Option.some.inj h)
          exact .of_lists ..
      | some a =>
          obtain ⟨rfl, -⟩ := Prod.mk.inj (Option.some.inj h)
          exact .refl _ _

theorem storeFreed_work {cache : Ptr} {a : Nat} {c : ClassIndex} {capacity : Nat}
    {list : Option TransferList} (h : storeFreed s cache a c capacity = some (s', list)) :
    ListWork cache s s' := by
  obtain ⟨s₁, hset, h⟩ := Option.bind_eq_some_iff.mp h
  apply (setRequestedSize_work hset).trans
  cases cache with
  | none =>
      obtain ⟨m, -, h⟩ := Option.bind_eq_some_iff.mp h
      obtain ⟨rfl, -⟩ := Prod.mk.inj (Option.some.inj h)
      exact .of_lists ..
  | some d =>
      obtain ⟨⟨s₂, u⟩, hstore, h⟩ := Option.bind_eq_some_iff.mp h
      obtain ⟨rfl, -⟩ := Prod.mk.inj (Option.some.inj h)
      exact withCache_work hstore

/-- Only storage differs: the mappings, the slab registry, the shared heads, the error number, and the
counters of system calls other than unmapping. -/
def StorageWork (s s' : State Tid) : Prop :=
  ∃ memory mapped slabs sharedHeads errno pageQueries mapOutcomes, s' = { s with
    memory := memory
    mapped := mapped
    slabs := slabs
    sharedHeads := sharedHeads
    errno := errno
    pageQueries := pageQueries
    mapOutcomes := mapOutcomes }

theorem StorageWork.sameLifecycle (hwork : StorageWork s s') : SameLifecycle own s s' := by
  obtain ⟨_, _, _, _, _, _, _, rfl⟩ := hwork
  exact .of_storage ..

theorem StorageWork.unmapCalls (hwork : StorageWork s s') : s'.unmapCalls = s.unmapCalls := by
  obtain ⟨_, _, _, _, _, _, _, rfl⟩ := hwork
  rfl

theorem StorageWork.trans {s₁ s₂ s₃ : State Tid} (h₁ : StorageWork s₁ s₂) (h₂ : StorageWork s₂ s₃) :
    StorageWork s₁ s₃ := by
  obtain ⟨_, _, _, _, _, _, _, rfl⟩ := h₁
  obtain ⟨_, _, _, _, _, _, _, rfl⟩ := h₂
  exact ⟨_, _, _, _, _, _, _, rfl⟩

variable [DecidableEq Tid]

theorem StorageWork.setErrno (hwork : StorageWork s s') (t : Tid) (e : Errno) :
    StorageWork s (s'.setErrno t e) :=
  hwork.trans ⟨_, _, _, _, _, _, _, rfl⟩

section

omit [DecidableEq Tid]

theorem StorageWork.setHeads (hwork : StorageWork s s') (heads : ClassIndex → Ptr) :
    StorageWork s { s' with sharedHeads := heads } :=
  hwork.trans ⟨_, _, _, _, _, _, _, rfl⟩

theorem StorageWork.of_noise (hnoise : OsNoise s s') : StorageWork s s' := by
  obtain ⟨_, _, _, rfl⟩ := hnoise
  exact ⟨_, _, _, _, _, _, _, rfl⟩

theorem StorageWork.of_lists (hwork : ListWork none s s') : StorageWork s s' := by
  have hothers := hwork.others
  obtain ⟨_, _, descriptor, _, rfl⟩ := hwork.lists
  obtain rfl : descriptor = s.descriptor := funext fun d => hothers d (by simp)
  exact ⟨_, _, _, _, _, _, _, rfl⟩

theorem registerSlab_work {slab : Nat} (h : registerSlab s slab = some s') : StorageWork s s' := by
  obtain ⟨m, -, heq⟩ := Option.bind_eq_some_iff.mp h
  obtain rfl := Option.some.inj heq
  exact ⟨_, _, _, _, _, _, _, rfl⟩

end

theorem osMap_work {w : World} {t : Tid} {n : Nat} {result : Option Mapping}
    (h : osMap w s t n = (s', result)) : StorageWork s s' := by
  have hnoise := StorageWork.of_noise (osPageSize_noise w s t)
  unfold osMap at h
  split at h
  · obtain ⟨rfl, -⟩ := Prod.mk.inj h
    exact ⟨_, _, _, _, _, _, _, rfl⟩
  split at h
  · rename_i hpage
    rw [hpage] at hnoise
    obtain ⟨rfl, -⟩ := Prod.mk.inj h
    exact hnoise
  rename_i hpage
  rw [hpage] at hnoise
  apply hnoise.trans
  split at h
  · obtain ⟨rfl, -⟩ := Prod.mk.inj h
    exact ⟨_, _, _, _, _, _, _, rfl⟩
  dsimp only at h
  split at h
  · obtain ⟨rfl, -⟩ := Prod.mk.inj h
    exact ⟨_, _, _, _, _, _, _, rfl⟩
  · obtain ⟨rfl, -⟩ := Prod.mk.inj h
    exact ⟨_, _, _, _, _, _, _, rfl⟩

theorem slabCreate_work {w : World} {t : Tid} {c : ClassIndex} {capacity : Nat}
    {result : Option (Nat × Ptr)} (h : slabCreate w s t c capacity = (s', result)) :
    StorageWork s s' := by
  have hnoise := StorageWork.of_noise (osPageSize_noise w s t)
  unfold slabCreate at h
  split at h
  · rename_i hpage
    rw [hpage] at hnoise
    obtain ⟨rfl, -⟩ := Prod.mk.inj h
    exact hnoise
  rename_i hpage
  rw [hpage] at hnoise
  apply hnoise.trans
  split at h
  · obtain ⟨rfl, -⟩ := Prod.mk.inj h
    exact ⟨_, _, _, _, _, _, _, rfl⟩
  split at h
  · rename_i hmap
    obtain ⟨rfl, -⟩ := Prod.mk.inj h
    exact osMap_work hmap
  · rename_i hmap
    obtain ⟨rfl, -⟩ := Prod.mk.inj h
    exact (osMap_work hmap).trans ⟨_, _, _, _, _, _, _, rfl⟩

theorem createRegisteredSlab_work {w : World} {t : Tid} {c : ClassIndex} {capacity : Nat}
    {created : Option TransferList} (h : createRegisteredSlab w s t c capacity = some (s', created)) :
    StorageWork s s' := by
  cases created with
  | none => exact slabCreate_work (createRegisteredSlab_none h)
  | some list =>
      obtain ⟨s₁, slab, hcreate, hregister⟩ := createRegisteredSlab_some h
      exact (slabCreate_work hcreate).trans (registerSlab_work hregister)

theorem allocateLarge_work {w : World} {t : Tid} {n : Nat} {p : Ptr}
    (h : allocateLarge w s t n = (s', p)) : StorageWork s s' := by
  have hnoise := StorageWork.of_noise (osPageSize_noise w s t)
  unfold allocateLarge at h
  split at h
  · rename_i hpage
    rw [hpage] at hnoise
    obtain ⟨rfl, -⟩ := Prod.mk.inj h
    exact hnoise.setErrno t _
  rename_i hpage
  rw [hpage] at hnoise
  apply hnoise.trans
  split at h
  · obtain ⟨rfl, -⟩ := Prod.mk.inj h
    exact ⟨_, _, _, _, _, _, _, rfl⟩
  split at h
  · rename_i hmap
    obtain ⟨rfl, -⟩ := Prod.mk.inj h
    exact (osMap_work hmap).setErrno t _
  · rename_i hmap
    obtain ⟨rfl, -⟩ := Prod.mk.inj h
    exact (osMap_work hmap).trans ⟨_, _, _, _, _, _, _, rfl⟩

theorem allocateSmallLocked_work {w : World} {t : Tid} {n : Nat} {c : ClassIndex} {capacity : Nat}
    {p : Ptr} (h : allocateSmallLocked w s t n c capacity = some (s', p)) : StorageWork s s' := by
  unfold allocateSmallLocked at h
  split at h
  · exact .of_lists (popShared_work h)
  · split at h
    · rename_i hcreate
      obtain ⟨rfl, -⟩ := Prod.mk.inj (Option.some.inj h)
      exact (slabCreate_work hcreate).setErrno t _
    · rename_i hcreate
      obtain ⟨s₂, hregister, h⟩ := Option.bind_eq_some_iff.mp h
      obtain ⟨a, -, h⟩ := Option.bind_eq_some_iff.mp h
      have hregistered := (slabCreate_work hcreate).trans (registerSlab_work hregister)
      exact (hregistered.setHeads _).trans (.of_lists (popShared_work h))

theorem setErrno_lifecycle (t : Tid) (e : Errno) : SameLifecycle own s (s.setErrno t e) :=
  .of_storage ..

theorem osUnmap_lifecycle {w : World} {t : Tid} {r : Mapping} :
    SameLifecycle own s (osUnmap w s t r).1 := by
  unfold osUnmap
  split
  · exact setErrno_lifecycle ..
  · simp only
    split
    · exact SameLifecycle.of_storage ..
    · exact SameLifecycle.of_storage ..

end SameLifecycle

/-! ### Actions -/

variable [DecidableEq Tid]
variable {k k' : Config Tid} {t : Tid} {bases larges : List Nat} {g : Place Tid → List Nat}
variable {v : Variant} {w : World}

/-- What an action of thread `t` that leads to state `s'` and program counter `pc` does to the lifecycle
data. -/
inductive LifecycleMove (w : World) (k : Config Tid) (t : Tid) (s' : State Tid) (pc : Pc) : Prop
  /-- Nothing, apart from the cache in the thread's own descriptor. -/
  | same (hsame : SameLifecycle (k.cacheOf t) k.state s') (hteardown : pc.teardown = (k.pc t).teardown)
  /-- It asks for the thread's cache and then works on it. -/
  | acquire {s : State Tid} {cache : Ptr} (hbefore : (k.pc t).teardown = none)
      (hacquire : cacheAcquire w k.state t = some (s, cache)) (hsame : SameLifecycle cache s s')
      (hafter : pc.teardown = none)
  /-- It unmaps the descriptor the thread is tearing down. -/
  | unmap {d : Nat} (hpc : k.pc t = .unmapDescriptor d)
      (hunmap : unmapDescriptor w k.state t d = some s') (hidle : pc = .idle)

/-- Thread `t` has moved on, and did to the lifecycle data what a move may do. -/
def Moved (w : World) (k k' : Config Tid) (t : Tid) : Prop :=
  ∃ pc, k'.pc = Function.update k.pc t pc ∧ LifecycleMove w k t k'.state pc

theorem release_moved {a : Nat} (hpc : k.pc t = .release a) (hrelease : release v w k t a = some k') :
    Moved w k k' t := by
  have hteardown : (k.pc t).teardown = none := by rw [hpc]; rfl
  have hunmapped : ∀ {s : State Tid} {r : Mapping} {length : Option Nat},
      osUnmap w k.state t r = (s, length) → SameLifecycle (k.cacheOf t) k.state s := by
    intro s r length hunmap
    have hsame : SameLifecycle (k.cacheOf t) k.state (osUnmap w k.state t r).1 := osUnmap_lifecycle
    rwa [hunmap] at hsame
  cases releaseStep_of_release hrelease with
  | unmapped _ _ hunmap =>
      exact ⟨.idle, rfl, .same ((hunmapped hunmap).trans (setErrno_lifecycle ..)) hteardown.symm⟩
  | leaked _ _ hunmap =>
      exact ⟨.idle, rfl, .same ((hunmapped hunmap).trans (setErrno_lifecycle ..)) hteardown.symm⟩
  | @locked _ _ s _ _ _ _ hfree =>
      have hsame : SameLifecycle (k.cacheOf t) k.state s := (freeSmallLocked_work hfree).sameLifecycle
      exact ⟨.idle, rfl, .same (hsame.trans (setErrno_lifecycle ..)) hteardown.symm⟩
  | uncached _ _ _ _ hacquire hstore =>
      exact ⟨_, rfl, .acquire hteardown hacquire (storeFreed_work hstore).sameLifecycle rfl⟩
  | stored _ _ _ _ hacquire hstore =>
      exact ⟨_, rfl, .acquire hteardown hacquire (storeFreed_work hstore).sameLifecycle rfl⟩

theorem deliver_moved {r : Request} {a : Nat} (hpc : k.pc t = .deliver r a)
    (hdeliver : deliver k t r a = some k') : Moved w k k' t := by
  have hteardown : (k.pc t).teardown = none := by rw [hpc]; rfl
  cases deliverStep_of_deliver hdeliver with
  | malloc _ => exact ⟨_, rfl, .same (SameLifecycle.refl ..) hteardown.symm⟩
  | calloc _ _ => exact ⟨_, rfl, .same (SameLifecycle.of_storage ..) hteardown.symm⟩
  | realloc _ _ _ _ => exact ⟨_, rfl, .same (SameLifecycle.of_storage ..) hteardown.symm⟩

/-- **Actions.** What the action of a thread does to the lifecycle data, in a configuration that satisfies
the invariant. -/
theorem Inv.moved (hinv : Inv k bases larges g) (hadvance : advance v w k t = some k') :
    Moved w k k' t := by
  have hteardown : ∀ {pc : Pc}, k.pc t = pc → pc.teardown = none → (k.pc t).teardown = none :=
    fun hpc hnone => by rwa [hpc]
  have hdetached : ∀ {s : State Tid} {c : ClassIndex} {list : TransferList},
      transferMutexDetach k.state c = some (s, list) → SameLifecycle (k.cacheOf t) k.state s :=
    fun h => (transferMutexDetach_work h).sameLifecycle
  have hpublished : ∀ {s : State Tid} {c : ClassIndex} {list : TransferList},
      transferMutexPublish k.state c list = some s → SameLifecycle (k.cacheOf t) k.state s :=
    fun h => (transferMutexPublish_work h).sameLifecycle
  cases transition_of_advance hadvance with
  | lockedFailed hpc _ hallocate _ =>
      exact ⟨_, rfl, .same (allocateSmallLocked_work hallocate).sameLifecycle (hteardown hpc rfl).symm⟩
  | lockedServed hpc _ hallocate _ =>
      exact ⟨_, rfl, .same (allocateSmallLocked_work hallocate).sameLifecycle (hteardown hpc rfl).symm⟩
  | localMiss hpc _ hacquire htake =>
      exact ⟨_, rfl, .acquire (hteardown hpc rfl) hacquire (takeLocal_work htake).sameLifecycle rfl⟩
  | localHit hpc _ hacquire htake hset =>
      have hsame := (takeLocal_work htake).sameLifecycle.trans (setRequestedSize_work hset).sameLifecycle
      exact ⟨_, rfl, .acquire (hteardown hpc rfl) hacquire hsame rfl⟩
  | detached hpc hdetach _ => exact ⟨_, rfl, .same (hdetached hdetach) (hteardown hpc rfl).symm⟩
  | detachedNothing hpc hdetach _ => exact ⟨_, rfl, .same (hdetached hdetach) (hteardown hpc rfl).symm⟩
  | registryLocked hpc _ => exact ⟨_, rfl, .same (SameLifecycle.refl ..) (hteardown hpc rfl).symm⟩
  | rechecked hpc hdetach _ => exact ⟨_, rfl, .same (hdetached hdetach) (hteardown hpc rfl).symm⟩
  | recheckedNothing hpc hdetach _ => exact ⟨_, rfl, .same (hdetached hdetach) (hteardown hpc rfl).symm⟩
  | slabFailed hpc hcreate =>
      exact ⟨_, rfl, .same ((createRegisteredSlab_work hcreate).sameLifecycle.trans (setErrno_lifecycle ..))
        (hteardown hpc rfl).symm⟩
  | slabCreated hpc hcreate =>
      exact ⟨_, rfl, .same (createRegisteredSlab_work hcreate).sameLifecycle (hteardown hpc rfl).symm⟩
  | registryUnlocked hpc => exact ⟨_, rfl, .same (SameLifecycle.refl ..) (hteardown hpc rfl).symm⟩
  | refilled hpc hrefill =>
      have hsame := (refillAndTake_work hrefill).sameLifecycle
      rw [← hinv.refills_own hpc] at hsame
      exact ⟨_, rfl, .same hsame (hteardown hpc rfl).symm⟩
  | gaveUp hpc hpublish =>
      exact ⟨_, rfl, .same ((hpublished hpublish).trans (setErrno_lifecycle ..)) (hteardown hpc rfl).symm⟩
  | handedOut hpc hpublish hset =>
      have hsame := (hpublished hpublish).trans (setRequestedSize_work hset).sameLifecycle
      exact ⟨_, rfl, .same hsame (hteardown hpc rfl).symm⟩
  | largeFailed hpc hallocate _ => exact ⟨_, rfl, .same (allocateLarge_work hallocate).sameLifecycle (hteardown hpc rfl).symm⟩
  | largeServed hpc hallocate _ => exact ⟨_, rfl, .same (allocateLarge_work hallocate).sameLifecycle (hteardown hpc rfl).symm⟩
  | delivered hpc hdeliver => exact deliver_moved hpc hdeliver
  | released hpc hrelease => exact release_moved hpc hrelease
  | freed hpc hpublish =>
      exact ⟨_, rfl, .same ((hpublished hpublish).trans (setErrno_lifecycle ..)) (hteardown hpc rfl).symm⟩
  | evictionDone hpc hevict =>
      have hsame := (withCache_work hevict).sameLifecycle
      rw [← hinv.evicts_own hpc] at hsame
      exact ⟨_, rfl, .same (hsame.trans (setErrno_lifecycle ..)) (hteardown hpc rfl).symm⟩
  | evicted hpc hevict =>
      have hsame := (withCache_work hevict).sameLifecycle
      rw [← hinv.evicts_own hpc] at hsame
      exact ⟨_, rfl, .same hsame (hteardown hpc rfl).symm⟩
  | evictionPublished hpc hpublish => exact ⟨_, rfl, .same (hpublished hpublish) (hteardown hpc rfl).symm⟩
  | @flushDone d teardown hpc =>
      refine ⟨_, rfl, .same (SameLifecycle.refl ..) ?_⟩
      cases teardown <;> (rw [hpc]; rfl)
  | @flushedNothing d c rest teardown s hpc hextract =>
      have hsame := (withCache_work hextract).sameLifecycle
      rw [← hinv.flushes_own hpc] at hsame
      exact ⟨_, rfl, .same hsame (by rw [hpc]; cases teardown <;> rfl)⟩
  | @flushed d c rest teardown s list hpc hextract =>
      have hsame := (withCache_work hextract).sameLifecycle
      rw [← hinv.flushes_own hpc] at hsame
      exact ⟨_, rfl, .same hsame (by rw [hpc]; cases teardown <;> rfl)⟩
  | @flushPublished d c rest teardown s list hpc hpublish =>
      exact ⟨_, rfl, .same (hpublished hpublish) (by rw [hpc]; cases teardown <;> rfl)⟩
  | descriptorUnmapped hpc hunmap => exact ⟨.idle, rfl, .unmap hpc hunmap rfl⟩

end Hplf
