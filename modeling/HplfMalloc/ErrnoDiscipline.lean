import HplfMalloc.Linearizability
import HplfMalloc.Schedule
import HplfMalloc.Proof.ErrnoSteps

/-!
# The discipline of `errno`

What a client finds in `errno` when a call returns, in any interleaving with the calls of other threads.
-/

namespace Hplf

open Lib

variable {Tid : Type} [DecidableEq Tid]
variable {k k' : Config Tid} {t u : Tid} {v : Variant} {w : World} {s s' : State Tid}

/-! ### Actions -/

/-- The error number a call leaves unless something fails from here on: a release puts back the one it
found. -/
def Config.heldErrno (k : Config Tid) (t : Tid) : Errno :=
  match k.pc t with
  | .publishFreed _ _ e | .evict _ _ e | .publishEviction _ _ _ _ e => e
  | _ => k.state.errno t

/-- The thread set up its cache for the first time and got none. -/
def SetupFailed (s s' : State Tid) (t : Tid) : Prop :=
  s.currentState t = .uninitialized ∧ s'.currentState t = .uncached

/-- What an action does to the error number of the acting thread. -/
inductive ErrnoMove (w : World) (k k' : Config Tid) (t : Tid) : Prop
  | held (heq : k'.heldErrno t = k.heldErrno t)
  /-- An allocation sets up the thread's cache in vain. -/
  | setup {r : Request} {c : ClassIndex} {capacity : Nat} (hpc : k.pc t = .allocateSmall r c capacity)
      (hfailed : SetupFailed k.state k'.state t)
  /-- An allocation fails. -/
  | failed {r : Request} (hrequest : (k.pc t).request = some r) (hidle : k'.pc t = .idle)
  /-- An exiting thread cannot unmap its descriptor. -/
  | unmap {d call : Nat} {e : Errno} (hpc : k.pc t = .unmapDescriptor d) (hidle : k'.pc t = .idle)
      (hanswer : w.descriptorMunmap call = some e) (herrno : k'.state.errno t = e)

/-- Setting up the thread's cache keeps its error number, or fails. -/
theorem acquired_errno {s₁ : State Tid} {cache : Ptr} (hacquire : cacheAcquire w s t = some (s₁, cache))
    (herrno : s'.errno = s₁.errno) (hstate : s'.currentState = s₁.currentState) :
    s'.errno t = s.errno t ∨ SetupFailed s s' t := by
  by_cases hkept : s.currentState t = .uninitialized → cache ≠ none
  · exact Or.inl ((congrFun herrno t).trans (cacheAcquire_errno hacquire t (Or.inr hkept)))
  · obtain ⟨hbefore, hnone⟩ := Classical.not_imp.mp hkept
    obtain ⟨s₂, cache', hacquire', hacquired⟩ := cacheAcquire_uninitialized w hbefore
    obtain ⟨rfl, rfl⟩ := Prod.mk.inj (Option.some.inj (hacquire'.symm.trans hacquire))
    rw [not_not.mp hnone] at hacquired
    exact Or.inr ⟨hbefore, (congrFun hstate t).trans hacquired.uncached⟩

theorem Transition.errno_of_ne (htransition : Transition v w k t k') (hne : u ≠ t) :
    k'.state.errno u = k.state.errno u := by
  have hset : ∀ (s : State Tid) (e : Errno), (s.setErrno t e).errno u = s.errno u := fun s e =>
    Function.update_of_ne hne _ _
  cases htransition with
  | lockedFailed _ _ hallocate _ | lockedServed _ _ hallocate _ =>
      exact (allocateSmallLocked_kept hallocate).1 u (Or.inl hne)
  | localMiss _ _ hacquire htake =>
      exact (congrFun (takeLocal_errno htake) u).trans (cacheAcquire_errno hacquire u (Or.inl hne))
  | localHit _ _ hacquire htake hset =>
      rw [Config.goto_state, setRequestedSize_errno hset, takeLocal_errno htake]
      exact cacheAcquire_errno hacquire u (Or.inl hne)
  | detached _ hdetach _ | detachedNothing _ hdetach _ | rechecked _ hdetach _ | recheckedNothing _ hdetach _ =>
      exact congrFun (transferMutexDetach_errno hdetach) u
  | registryLocked _ _ | registryUnlocked _ => rfl
  | slabFailed _ hcreate => exact (hset _ _).trans (createRegisteredSlab_errno hcreate u (Or.inl hne))
  | slabCreated _ hcreate => exact createRegisteredSlab_errno hcreate u (Or.inl hne)
  | refilled _ hrefill => exact congrFun (refillAndTake_errno hrefill) u
  | gaveUp _ hpublish | freed _ hpublish => exact (hset _ _).trans (congrFun (transferMutexPublish_errno hpublish) u)
  | handedOut _ hpublish hset =>
      rw [Config.goto_state, setRequestedSize_errno hset, transferMutexPublish_errno hpublish]
  | largeFailed _ hallocate _ | largeServed _ hallocate _ =>
      exact (allocateLarge_kept hallocate).1 u (Or.inl hne)
  | delivered _ hdeliver =>
      cases deliverStep_of_deliver hdeliver with
      | malloc _ | calloc _ _ | realloc _ _ _ _ => rfl
  | released _ hrelease =>
      cases releaseStep_of_release hrelease with
      | unmapped _ _ hunmap | leaked _ _ hunmap => exact (hset _ _).trans (osUnmap_errno hunmap u (Or.inl hne))
      | locked _ _ _ _ hfree => exact (hset _ _).trans (congrFun (freeSmallLocked_errno hfree) u)
      | uncached _ _ _ _ hacquire hstore | stored _ _ _ _ hacquire hstore =>
          exact (congrFun (storeFreed_errno hstore) u).trans (cacheAcquire_errno hacquire u (Or.inl hne))
  | evictionDone _ hevict => exact (hset _ _).trans (congrFun (withCache_errno hevict) u)
  | evicted _ hevict => exact congrFun (withCache_errno hevict) u
  | evictionPublished _ hpublish | flushPublished _ hpublish =>
      exact congrFun (transferMutexPublish_errno hpublish) u
  | flushDone _ => rfl
  | flushedNothing _ hextract | flushed _ hextract => exact congrFun (withCache_errno hextract) u
  | descriptorUnmapped _ hunmap =>
      rcases unmapDescriptor_errno hunmap with heq | ⟨call, e, -, heq⟩
      · exact congrFun heq u
      · rw [Config.goto_state, heq, Function.update_of_ne hne]

omit [DecidableEq Tid] in
theorem heldErrno_of_request {r : Request} (hrequest : (k.pc t).request = some r) :
    k.heldErrno t = k.state.errno t := by
  unfold Config.heldErrno
  cases hpc : k.pc t with
  | publishFreed | evict | publishEviction => simp [hpc, Pc.request] at hrequest
  | _ => rfl

/-- **Inversion.** Every action moves the thread's error number in one of these ways. -/
theorem Transition.errnoMove (htransition : Transition v w k t k') : ErrnoMove w k k' t := by
  have hheld : ∀ {k : Config Tid} {s : State Tid} {pc : Pc}, (k.goto t s pc).heldErrno t
      = match pc with
        | .publishFreed _ _ e | .evict _ _ e | .publishEviction _ _ _ _ e => e
        | _ => s.errno t := by
    intro k s pc
    rw [Config.heldErrno, Config.goto_pc]
    rfl
  have hset : ∀ (s : State Tid) (e : Errno), (s.setErrno t e).errno t = e := fun s e =>
    Function.update_self ..
  have hserved : ∀ {pointer : Ptr} {a : Nat}, blockFromPayload pointer = some a → pointer ≠ none := by
    intro pointer a hblock hnone
    rw [blockFromPayload_eq_none_iff.mpr hnone] at hblock
    simp at hblock
  have htaken : ∀ {s s' : State Tid} {cache block : Ptr} {c : ClassIndex} {capacity : Nat},
      takeLocal s cache c capacity = some (s', block) → s'.currentState = s.currentState := fun h =>
    (takeLocal_work h).sameLifecycle.currentState
  cases htransition with
  | @lockedFailed r c capacity s pointer hpc _ hallocate hnull =>
      exact .failed (r := r) (by rw [hpc]; rfl) (Config.goto_pc ..)
  | lockedServed hpc _ hallocate hblock =>
      refine .held ?_
      rw [hheld, Config.heldErrno, hpc]
      refine (allocateSmallLocked_kept hallocate).1 t (Or.inr ?_)
      exact hserved hblock
  | localMiss hpc _ hacquire htake =>
      rcases acquired_errno hacquire (takeLocal_errno htake) (htaken htake) with heq | hfailed
      · refine .held ?_
        rwa [hheld, Config.heldErrno, hpc]
      · exact .setup hpc hfailed
  | localHit hpc _ hacquire htake hset =>
      have herrno := (setRequestedSize_errno hset).trans (takeLocal_errno htake)
      have hwork : ListWork none _ _ := setRequestedSize_work hset
      have hstate := hwork.sameLifecycle.currentState.trans (htaken htake)
      rcases acquired_errno hacquire herrno hstate with heq | hfailed
      · refine .held ?_
        rwa [hheld, Config.heldErrno, hpc]
      · exact .setup hpc hfailed
  | detached hpc hdetach _ | detachedNothing hpc hdetach _ | rechecked hpc hdetach _
  | recheckedNothing hpc hdetach _ =>
      refine .held ?_
      rw [hheld, Config.heldErrno, hpc]
      exact congrFun (transferMutexDetach_errno hdetach) t
  | registryLocked hpc _ | registryUnlocked hpc =>
      refine .held ?_
      simp only [Config.heldErrno, Config.goto_pc, hpc]
      rfl
  | @slabFailed r c capacity cache s hpc hcreate =>
      exact .failed (r := r) (by rw [hpc]; rfl) (Function.update_self ..)
  | slabCreated hpc hcreate =>
      refine .held ?_
      rw [hheld, Config.heldErrno, hpc]
      exact createRegisteredSlab_errno hcreate t (Or.inr (by simp))
  | refilled hpc hrefill =>
      refine .held ?_
      rw [hheld, Config.heldErrno, hpc]
      exact congrFun (refillAndTake_errno hrefill) t
  | @gaveUp r c s list hpc hpublish =>
      exact .failed (r := r) (by rw [hpc]; rfl) (Config.goto_pc ..)
  | handedOut hpc hpublish hset =>
      refine .held ?_
      rw [hheld, Config.heldErrno, hpc]
      exact congrFun ((setRequestedSize_errno hset).trans (transferMutexPublish_errno hpublish)) t
  | @largeFailed r s pointer hpc hallocate hnull =>
      exact .failed (r := r) (by rw [hpc]; rfl) (Config.goto_pc ..)
  | largeServed hpc hallocate hblock =>
      refine .held ?_
      rw [hheld, Config.heldErrno, hpc]
      exact (allocateLarge_kept hallocate).1 t (Or.inr (hserved hblock))
  | delivered hpc hdeliver =>
      cases deliverStep_of_deliver hdeliver with
      | malloc _ | calloc _ _ | realloc _ _ _ _ =>
          refine .held ?_
          simp only [Config.heldErrno, Config.goto_pc, hpc]
          rfl
  | released hpc hrelease =>
      cases releaseStep_of_release hrelease with
      | unmapped _ _ _ | leaked _ _ _ | locked _ _ _ _ _ =>
          refine .held ?_
          simp only [Config.heldErrno, Config.goto_pc, hpc]
          exact hset _ _
      | uncached _ _ _ _ _ _ | stored _ _ _ _ _ _ =>
          refine .held ?_
          simp only [Config.heldErrno, Config.goto_pc, hpc]
  | freed hpc _ | evictionDone hpc _ =>
      refine .held ?_
      rw [hheld, Config.heldErrno, hpc]
      exact hset _ _
  | evicted hpc _ | evictionPublished hpc _ =>
      refine .held ?_
      rw [hheld, Config.heldErrno, hpc]
  | @flushDone d teardown hpc =>
      refine .held ?_
      rw [hheld, Config.heldErrno, hpc]
      cases teardown <;> rfl
  | flushedNothing hpc hextract | flushed hpc hextract =>
      refine .held ?_
      rw [hheld, Config.heldErrno, hpc]
      exact congrFun (withCache_errno hextract) t
  | flushPublished hpc hpublish =>
      refine .held ?_
      rw [hheld, Config.heldErrno, hpc]
      exact congrFun (transferMutexPublish_errno hpublish) t
  | descriptorUnmapped hpc hunmap =>
      rcases unmapDescriptor_errno hunmap with heq | ⟨call, e, hanswer, heq⟩
      · refine .held ?_
        rw [hheld, Config.heldErrno, hpc]
        exact congrFun heq t
      · refine .unmap hpc (Config.goto_pc ..) hanswer ?_
        rw [Config.goto_state, heq, Function.update_self]

/-- An allocation that ends without a block leaves `ENOMEM`. -/
theorem Transition.errno_failed (htransition : Transition v w k t k') {r : Request}
    (hrequest : (k.pc t).request = some r) (hdeliver : ∀ r a, k.pc t ≠ .deliver r a)
    (hidle : k'.pc t = .idle) : k'.state.errno t = .ENOMEM := by
  cases htransition with
  | lockedFailed _ _ hallocate hnull =>
      exact (allocateSmallLocked_kept hallocate).2 (blockFromPayload_eq_none_iff.mp hnull)
  | slabFailed _ _ | gaveUp _ _ => exact Function.update_self ..
  | largeFailed _ hallocate hnull =>
      exact (allocateLarge_kept hallocate).2 (blockFromPayload_eq_none_iff.mp hnull)
  | delivered hpc _ => exact absurd hpc (hdeliver _ _)
  | released hpc _ | freed hpc _ | evictionDone hpc _ | evicted hpc _ | evictionPublished hpc _ | flushDone hpc
  | flushedNothing hpc _ | flushed hpc _ | flushPublished hpc _ | descriptorUnmapped hpc _ =>
      simp [hpc, Pc.request] at hrequest
  | registryLocked _ _ | registryUnlocked _ => simp at hidle
  | _ => simp at hidle

/-! ### What a call leaves -/

/-- The call asks for a block. -/
def Call.Asks : Call → Prop
  | .malloc size => size ≠ 0
  | .calloc count size => count ≠ 0 ∧ size ≠ 0
  | .realloc _ size => size ≠ 0
  | _ => False

/-- What a thread finds in `errno` after a call that returned `result`, if `before` was there when it called
and its cache could (not) be set up. -/
structure ErrnoAfter (w : World) (call : Call) (result : Ptr) (before : Errno) (setupFailed : Prop)
    (after : Errno) : Prop where
  kept : ¬ call.Asks → after = before ∨ call = .threadExit ∧ ∃ n, w.descriptorMunmap n = some after
  refused : call.Asks → result = none → after = .ENOMEM
  served : call.Asks → result ≠ none → after = before ∨ setupFailed

theorem ErrnoAfter.mono {call : Call} {result : Ptr} {before after : Errno} {p q : Prop}
    (hafter : ErrnoAfter w call result before p after) (himp : p → q) :
    ErrnoAfter w call result before q after :=
  ⟨hafter.kept, hafter.refused, fun hasks hsome => (hafter.served hasks hsome).imp_right himp⟩

theorem Request.Serves.asks {r : Request} {call : Call} (hserves : r.Serves call) : call.Asks := by
  obtain ⟨hpos, hpurpose⟩ := hserves
  split at hpurpose
  · rcases hpurpose with rfl | rfl
    · exact hpos.ne'
    · exact hpos.ne'
  · obtain ⟨count, size, rfl, hproduct⟩ := hpurpose
    constructor
    · rintro rfl
      omega
    · rintro rfl
      omega
  · subst hpurpose
    exact hpos.ne'

/-- How `errno` stands when a call has started. -/
inductive ErrnoStart (s : State Tid) (t : Tid) (call : Call) : State Tid → Pc → Prop
  | kept {s' : State Tid} {pc : Pc} (herrno : s'.errno = s.errno)
      (hserved : pc = .idle → call.Asks → call.immediate ≠ none) : ErrnoStart s t call s' pc
  | refused (hasks : call.Asks) (hnull : call.immediate = none) :
      ErrnoStart s t call (s.setErrno t .ENOMEM) .idle

theorem enterMalloc_errno {r : Request} {call : Call} {pc : Pc} (henter : enterMalloc s t r = (s', pc))
    (hasks : call.Asks ↔ r.size ≠ 0) (hnull : r.size > ptrdiffMax → call.immediate = none) :
    ErrnoStart s t call s' pc := by
  unfold enterMalloc at henter
  split at henter
  · rename_i hzero
    obtain ⟨rfl, rfl⟩ := Prod.mk.inj henter
    exact .kept rfl fun _ h => absurd hzero (hasks.mp h)
  rename_i hzero
  split at henter
  · rename_i hlarge
    obtain ⟨rfl, rfl⟩ := Prod.mk.inj henter
    exact .refused (hasks.mpr hzero) (hnull hlarge)
  split at henter
  all_goals
    obtain ⟨rfl, rfl⟩ := Prod.mk.inj henter
    exact .kept rfl (by simp)

theorem enter_errno {call : Call} {pc : Pc} (henter : enter v s t call = some (s', pc)) :
    ErrnoStart s t call s' pc := by
  cases call with
  | malloc size => exact enterMalloc_errno (Option.some.inj henter) Iff.rfl fun _ => rfl
  | calloc count size =>
      simp only [enter] at henter
      split at henter
      · rename_i hzero
        obtain ⟨rfl, rfl⟩ := Prod.mk.inj (Option.some.inj henter)
        refine .kept rfl fun _ h => ?_
        rcases hzero with hzero | hzero
        · exact absurd hzero h.1
        · exact absurd hzero h.2
      rename_i hpos
      have hasks : (Call.calloc count size).Asks := not_or.mp hpos
      split at henter
      · obtain ⟨rfl, rfl⟩ := Prod.mk.inj (Option.some.inj henter)
        exact .refused hasks rfl
      · rename_i total hproduct
        obtain ⟨rfl, -⟩ := sizeMultiply_eq_some hproduct
        refine enterMalloc_errno (Option.some.inj henter) ?_ fun _ => rfl
        exact iff_of_true hasks (Nat.mul_ne_zero hasks.1 hasks.2)
  | realloc pointer size =>
      simp only [enter] at henter
      split at henter
      · refine enterMalloc_errno (Option.some.inj henter) Iff.rfl fun hlarge => ?_
        exact if_pos (Or.inr hlarge)
      rename_i old hblock
      split at henter
      · rename_i hzero
        obtain ⟨rfl, rfl⟩ := Prod.mk.inj (Option.some.inj henter)
        exact .kept rfl (by simp)
      rename_i hzero
      split at henter
      · rename_i hlarge
        obtain ⟨rfl, rfl⟩ := Prod.mk.inj (Option.some.inj henter)
        exact .refused hzero (if_pos (Or.inr hlarge))
      rename_i hlarge
      obtain ⟨header, -, h⟩ := Option.bind_eq_some_iff.mp henter
      obtain ⟨retain, -, h⟩ := Option.bind_eq_some_iff.mp h
      split at h
      · obtain ⟨s₁, hset, h⟩ := Option.bind_eq_some_iff.mp h
        obtain ⟨rfl, rfl⟩ := Prod.mk.inj (Option.some.inj h)
        refine .kept (setRequestedSize_errno hset) fun _ _ hnull => ?_
        rw [Call.immediate, if_neg (by omega)] at hnull
        rw [hnull, blockFromPayload_none] at hblock
        simp at hblock
      · exact enterMalloc_errno (Option.some.inj h) Iff.rfl fun hlarge' => absurd hlarge' hlarge
  | free pointer =>
      simp only [enter] at henter
      split at henter
      all_goals
        obtain ⟨rfl, rfl⟩ := Prod.mk.inj (Option.some.inj henter)
        exact .kept rfl fun _ h => h.elim
  | threadFlush =>
      simp only [enter] at henter
      split at henter
      · obtain ⟨rfl, rfl⟩ := Prod.mk.inj (Option.some.inj henter)
        exact .kept rfl fun _ h => h.elim
      split at henter
      all_goals
        obtain ⟨rfl, rfl⟩ := Prod.mk.inj (Option.some.inj henter)
        exact .kept rfl fun _ h => h.elim
  | threadExit =>
      simp only [enter] at henter
      split at henter
      all_goals
        obtain ⟨rfl, rfl⟩ := Prod.mk.inj (Option.some.inj henter)
        exact .kept rfl fun _ h => h.elim

/-! ### The way of a call -/

/-- How `errno` stands while thread `t` is in a call it began in state `s₀`. -/
inductive ErrnoCourse (w : World) (call : Call) (s₀ : State Tid) (t : Tid) (x : Observation Tid) : Prop
  /-- The allocation it makes has not ended. -/
  | allocating {r : Request} (hrequest : (x.config.pc t).request = some r) (hserves : r.Serves call)
      (hresult : x.result t = none)
      (hfirst : x.config.state.currentState t = .uninitialized → s₀.currentState t = .uninitialized)
      (hkept : x.config.heldErrno t = s₀.errno t ∨ SetupFailed s₀ x.config.state t)
  /-- Its result is known. -/
  | finishing (hrequest : (x.config.pc t).request = none)
      (hbusy : x.config.pc t = .idle → x.result t ≠ none)
      (hteardown : (x.config.pc t).teardown ≠ none → call = .threadExit)
      (hafter : ErrnoAfter w call ((x.result t).getD none) (s₀.errno t)
        (SetupFailed s₀ x.config.state t) (x.config.heldErrno t))

variable {x y : Observation Tid} {call : Call} {s₀ : State Tid}

omit [DecidableEq Tid] in
theorem heldErrno_congr (hpc : k'.pc t = k.pc t) (herrno : k'.state.errno t = k.state.errno t) :
    k'.heldErrno t = k.heldErrno t := by
  unfold Config.heldErrno
  rw [hpc]
  split
  · rfl
  · rfl
  · rfl
  · exact herrno

theorem uncached_of_moves {a b : LifecycleState} (hmoves : a.Moves b) (ha : a = .uncached) : b = .uncached := by
  subst ha
  cases hmoves
  rfl

omit [DecidableEq Tid] in
theorem SetupFailed.moves (hfailed : SetupFailed s₀ s t)
    (hmoves : (s.currentState t).Moves (s'.currentState t)) : SetupFailed s₀ s' t :=
  ⟨hfailed.1, uncached_of_moves hmoves hfailed.2⟩

theorem uninitialized_of_moves {a b : LifecycleState} (hmoves : a.Moves b) (hb : b = .uninitialized) :
    a = .uninitialized := by
  subst hb
  cases hmoves
  rfl

omit [DecidableEq Tid] in
/-- Whatever leaves the thread's place in its call and its error number alone. -/
theorem ErrnoCourse.standsBy (hcourse : ErrnoCourse w call s₀ t x)
    (hpc : y.config.pc t = x.config.pc t) (hresult : y.result t = x.result t)
    (herrno : y.config.state.errno t = x.config.state.errno t)
    (hmoves : (x.config.state.currentState t).Moves (y.config.state.currentState t)) :
    ErrnoCourse w call s₀ t y := by
  have hheld := heldErrno_congr hpc herrno
  cases hcourse with
  | allocating hrequest hserves hnone hfirst hkept =>
      refine .allocating (hpc ▸ hrequest) hserves (hresult.trans hnone)
        (fun h => hfirst (uninitialized_of_moves hmoves h)) ?_
      rw [hheld]
      exact hkept.imp_right fun hfailed => hfailed.moves hmoves
  | finishing hrequest hbusy hteardown hafter =>
      refine .finishing (hpc ▸ hrequest) (hpc ▸ hresult ▸ hbusy) (hpc ▸ hteardown) ?_
      rw [hheld, hresult]
      exact hafter.mono fun hfailed => hfailed.moves hmoves

/-- A flush tears no descriptor down. -/
theorem enter_threadFlush {pc : Pc} (henter : enter v s t .threadFlush = some (s', pc)) :
    pc.teardown = none := by
  simp only [enter] at henter
  split at henter
  · obtain ⟨-, rfl⟩ := Prod.mk.inj (Option.some.inj henter)
    rfl
  split at henter
  all_goals
    obtain ⟨-, rfl⟩ := Prod.mk.inj (Option.some.inj henter)
    rfl

/-- The first moment of a call. -/
theorem ErrnoCourse.begin {k : Config Tid} {result : Tid → Option Ptr} (hsafe : Safe k)
    (hidle : k.pc t = .idle) (hallowed : k.Allowed call) {pc : Pc}
    (henter : enter v k.state t call = some (s, pc)) :
    ErrnoCourse w call k.state t
      ⟨{ k.goto t s pc with lastCall := Function.update k.lastCall t (some call) },
        Function.update result t (if pc = .idle then some call.immediate else none)⟩ := by
  obtain ⟨bases, larges, g, hinv⟩ := hsafe
  cases enter_errno henter with
  | refused hasks hnull =>
      refine .finishing (by simp [Pc.request]) (by simp) (by simp [Pc.teardown]) ?_
      simp only [Function.update_self, if_pos, Option.getD_some, hnull, Config.heldErrno, Config.goto_pc]
      exact ⟨fun h => absurd hasks h, fun _ _ => Function.update_self .., fun _ h => absurd rfl h⟩
  | kept herrno hserved =>
      have hsame : s.errno t = k.state.errno t := congrFun herrno t
      cases entry_of_enter hinv hidle hallowed henter with
      | declined _ _ _ | retained _ _ _ _ _ =>
          refine .finishing (by simp [Pc.request]) (by simp) (by simp [Pc.teardown]) ?_
          simp only [Function.update_self, if_pos, Option.getD_some, Config.heldErrno, Config.goto_pc]
          exact ⟨fun _ => Or.inl hsame, fun hasks hnull => absurd hnull (hserved rfl hasks),
            fun _ _ => Or.inl hsame⟩
      | allocates hrequest hserves =>
          have hbusy : pc ≠ .idle := by
            rintro rfl
            simp [Pc.request] at hrequest
          have hrequest' := (congrArg Pc.request (Config.goto_pc (k := k) (t := t) k.state pc)).trans hrequest
          exact .allocating hrequest' hserves (by simp [hbusy]) id (Or.inl (heldErrno_of_request hrequest'))
      | releases _ _ hcall =>
          have hnot : ¬ call.Asks := by
            rcases hcall with rfl | rfl
            · exact id
            · exact fun h => h rfl
          refine .finishing (by simp [Pc.request]) (by simp) (by simp [Pc.teardown]) ?_
          simp only [Config.heldErrno, Config.goto_pc]
          exact ⟨fun _ => Or.inl hsame, fun h => absurd h hnot, fun h => absurd h hnot⟩
      | flushes _ hcall =>
          have hnot : ¬ call.Asks := by
            rcases hcall with rfl | rfl
            · exact id
            · exact id
          refine .finishing (by simp [Pc.request]) (by simp) ?_ ?_
          · intro hteardown
            rcases hcall with rfl | rfl
            · simp only [Config.goto_pc] at hteardown
              exact absurd (enter_threadFlush henter) hteardown
            · rfl
          · simp only [Config.heldErrno, Config.goto_pc]
            exact ⟨fun _ => Or.inl hsame, fun h => absurd h hnot, fun h => absurd h hnot⟩

/-- The action of a thread that delivers a block. -/
theorem heldErrno_deliver {r : Request} {a : Nat} (hpc : k.pc t = .deliver r a)
    (hdeliver : DeliverStep k t r a k') : k'.heldErrno t = k.heldErrno t ∧ (k'.pc t).request = none ∧
      (k'.pc t).teardown = none ∧ k'.state.currentState = k.state.currentState := by
  cases hdeliver with
  | malloc _ | calloc _ _ | realloc _ _ _ _ =>
      simp only [Config.heldErrno, Config.goto_pc, hpc]
      exact ⟨rfl, rfl, rfl, rfl⟩

/-- An action of the thread itself. -/
theorem ErrnoCourse.advance (hcourse : ErrnoCourse w call s₀ t x) (hsafe : Safe x.config)
    (hadvance : advance v w x.config t = some k) :
    ErrnoCourse w call s₀ t
      ⟨k, Function.update x.result t (settle (x.config.pc t) (k.pc t) (x.result t))⟩ := by
  obtain ⟨bases, larges, g, hinv⟩ := hsafe
  have htransition := transition_of_advance hadvance
  have hmoves := (hinv.lifecycleStep (Step.advance hadvance)).moves hinv t
  by_cases hdelivers : ∃ r a, x.config.pc t = .deliver r a
  · obtain ⟨r, a, hpc⟩ := hdelivers
    have hstep : DeliverStep x.config t r a k := by
      cases htransition with
      | delivered hpc' hdeliver =>
          obtain ⟨rfl, rfl⟩ := Pc.deliver.inj (hpc'.symm.trans hpc)
          exact deliverStep_of_deliver hdeliver
      | _ hpc' => simp [hpc'] at hpc
    obtain ⟨hheld, hrequest, hteardown, -⟩ := heldErrno_deliver hpc hstep
    cases hcourse with
    | finishing hrequest' _ _ _ => simp [hpc, Pc.request] at hrequest'
    | allocating _ hserves hnone hfirst hkept =>
        refine .finishing hrequest ?_ (fun h => absurd hteardown h) ?_
        · simp [hpc, settle]
        · simp only [Function.update_self, hpc, settle, Option.getD_some]
          have hkept' := hkept.imp_right fun hfailed => hfailed.moves hmoves
          rw [← hheld] at hkept'
          exact ⟨fun h => absurd hserves.asks h, fun _ h => by simp [blockPayload_some] at h, fun _ _ => hkept'⟩
  have hdeliver : ∀ r a, x.config.pc t ≠ .deliver r a := fun r a h => hdelivers ⟨r, a, h⟩
  obtain ⟨hbusy, -, hgoes⟩ := htransition.course hdeliver
  have hsettle : settle (x.config.pc t) (k.pc t) (x.result t)
      = if k.pc t = .idle then some ((x.result t).getD none) else x.result t := by
    unfold settle
    split
    · rename_i r' a hpc
      exact absurd hpc (hdeliver r' a)
    · rfl
  rw [hsettle]
  cases hcourse with
  | @allocating r hrequest hserves hnone hfirst hkept =>
      rw [hnone]
      by_cases hidle : k.pc t = .idle
      · rw [if_pos hidle]
        refine .finishing (by simp [hidle, Pc.request]) (by simp) (by simp [hidle, Pc.teardown]) ?_
        simp only [Function.update_self, Option.getD_some, Config.heldErrno, hidle]
        exact ⟨fun h => absurd hserves.asks h, fun _ _ => htransition.errno_failed hrequest hdeliver hidle,
          fun _ h => absurd rfl h⟩
      · rw [if_neg hidle]
        refine .allocating (r := r) ((hgoes.resolve_right hidle).trans hrequest) hserves (by simp)
          (fun h => hfirst (uninitialized_of_moves hmoves h)) ?_
        cases htransition.errnoMove with
        | held heq =>
            have hkept' := hkept.imp_right fun hfailed => hfailed.moves hmoves
            rwa [← heq] at hkept'
        | setup _ hfailed => exact Or.inr ⟨hfirst hfailed.1, hfailed.2⟩
        | failed _ hidle' => exact absurd hidle' hidle
        | unmap _ hidle' _ _ => exact absurd hidle' hidle
  | finishing hrequest _ hteardown hafter =>
      have hafter' : ErrnoAfter w call ((x.result t).getD none) (s₀.errno t) (SetupFailed s₀ k.state t)
          (k.heldErrno t) := by
        cases htransition.errnoMove with
        | held heq =>
            rw [heq]
            exact hafter.mono fun hfailed => hfailed.moves hmoves
        | setup hpc _ => simp [hpc, Pc.request] at hrequest
        | failed hrequest' _ => simp [hrequest] at hrequest'
        | @unmap d n e hpc hidle hanswer herrno =>
            obtain rfl := hteardown (by simp [hpc, Pc.teardown])
            refine ⟨fun _ => Or.inr ⟨rfl, n, ?_⟩, fun h => h.elim, fun h => h.elim⟩
            simp only [Config.heldErrno, hidle, herrno]
            exact hanswer
      refine .finishing ?_ ?_ ?_ ?_
      · rcases hgoes with h | h
        · exact h.trans hrequest
        · simp [h, Pc.request]
      · intro hidle
        have hidle' : k.pc t = .idle := hidle
        simp [hidle']
      · intro hafter
        obtain ⟨pc, hpc, hmove⟩ := hinv.moved hadvance
        have hpc' : k.pc t = pc := by rw [hpc, Function.update_self]
        rw [hpc'] at hafter
        cases hmove with
        | same _ hsame => exact hteardown (hsame ▸ hafter)
        | acquire _ _ _ hnone => exact absurd hnone hafter
        | unmap _ _ hidle => simp [hidle, Pc.teardown] at hafter
      · simp only [Function.update_self]
        split
        · exact hafter'
        · exact hafter'

/-! ### Runs -/

/-- The event is a call or a return of thread `t`. -/
def IsBy (t : Tid) : Event Tid Call Ptr ClientAccess → Prop
  | .invoke u _ | .respond u _ => u = t
  | .access _ => False

/-- A step of another thread or of a client moves nothing of a thread, unless it is a trim. -/
theorem ObservedStep.others {e : Option (Event Tid Call Ptr ClientAccess)} (hstep : ObservedStep v w x e y)
    (hother : ∀ a, e = some a → ¬ IsBy t a) (hcalm : e ≠ some (.access .trim)) :
    (∃ k, Hplf.advance v w x.config t = some k ∧
      y = ⟨k, Function.update x.result t (settle (x.config.pc t) (k.pc t) (x.result t))⟩) ∨
    y.config.pc t = x.config.pc t ∧ y.result t = x.result t ∧
      y.config.state.errno t = x.config.state.errno t := by
  cases hstep with
  | @invoke u call s pc hidle hreturned hallowed henter =>
      have hne : t ≠ u := fun heq => hother _ rfl heq.symm
      refine Or.inr ⟨Function.update_of_ne hne _ _, Function.update_of_ne hne _ _, ?_⟩
      cases enter_errno henter with
      | kept herrno _ => exact congrFun herrno t
      | refused _ _ => exact Function.update_of_ne hne _ _
  | @advance k u hadvance =>
      by_cases hu : t = u
      · subst hu
        exact Or.inl ⟨k, hadvance, rfl⟩
      · have htransition := transition_of_advance hadvance
        exact Or.inr ⟨htransition.pc_of_ne hu, Function.update_of_ne hu _ _, htransition.errno_of_ne hu⟩
  | @respond u result hidle hresult =>
      have hne : t ≠ u := fun heq => hother _ rfl heq.symm
      exact Or.inr ⟨rfl, Function.update_of_ne hne _ _, rfl⟩
  | write _ _ _ _ _ => exact Or.inr ⟨rfl, rfl, rfl⟩
  | read _ _ _ _ _ => exact Or.inr ⟨rfl, rfl, rfl⟩
  | trim _ _ _ => exact absurd rfl hcalm

theorem ObservedStep.moves {e : Option (Event Tid Call Ptr ClientAccess)} (hstep : ObservedStep v w x e y)
    (hsafe : Safe x.config) (t : Tid) :
    (x.config.state.currentState t).Moves (y.config.state.currentState t) := by
  obtain ⟨bases, larges, g, hinv⟩ := hsafe
  rcases hstep.machine with ⟨e', hmachine⟩ | heq
  · exact (hinv.lifecycleStep hmachine).moves hinv t
  · rw [heq]
    exact .stay _

/-- No trim runs while a call is in progress. -/
theorem ErrnoCourse.calm (hcourse : ErrnoCourse w call s₀ t x) {e : Option (Event Tid Call Ptr ClientAccess)}
    (hstep : ObservedStep v w x e y) : e ≠ some (.access .trim) := by
  rintro rfl
  cases hstep with
  | trim hquiescent hreturned _ =>
      cases hcourse with
      | allocating hrequest _ _ _ _ => simp [hquiescent t, Pc.request] at hrequest
      | finishing _ hbusy _ _ => exact hbusy (hquiescent t) (hreturned t)

theorem ErrnoCourse.step (hcourse : ErrnoCourse w call s₀ t x) (hsafe : Safe x.config)
    {e : Option (Event Tid Call Ptr ClientAccess)} (hstep : ObservedStep v w x e y)
    (hother : ∀ a, e = some a → ¬ IsBy t a) : ErrnoCourse w call s₀ t y := by
  rcases hstep.others hother (hcourse.calm hstep) with ⟨k, hadvance, rfl⟩ | ⟨hpc, hresult, herrno⟩
  · exact hcourse.advance hsafe hadvance
  · exact hcourse.standsBy hpc hresult herrno (hstep.moves hsafe t)

theorem ErrnoCourse.run {trace : List (Event Tid Call Ptr ClientAccess)}
    (hrun : (clients Tid v w).Run x trace y) (hcourse : ErrnoCourse w call s₀ t x) (hsafe : Safe x.config)
    (hothers : ∀ a ∈ trace, ¬ IsBy t a) : ErrnoCourse w call s₀ t y := by
  suffices Safe y.config ∧ ErrnoCourse w call s₀ t y from this.2
  induction hrun with
  | refl => exact ⟨hsafe, hcourse⟩
  | internal _ hstep ih =>
      obtain ⟨hsafe', hcourse'⟩ := ih hothers
      exact ⟨hstep.safe hsafe', hcourse'.step hsafe' hstep (by simp)⟩
  | @observe trace y z e _ hstep ih =>
      obtain ⟨hsafe', hcourse'⟩ := ih fun a ha => hothers a (List.mem_append_left _ ha)
      refine ⟨hstep.safe hsafe', hcourse'.step hsafe' hstep fun a ha => ?_⟩
      obtain rfl := Option.some.inj ha
      exact hothers _ (by simp)

theorem safe_of_observation (hreach : (clients Tid v w).Reachable x) : Safe x.config := by
  refine hreach.invariant (I := fun x => Safe x.config) ?_ fun _ _ _ hsafe hstep => ObservedStep.safe hstep hsafe
  rintro x rfl
  exact ⟨_, _, _, Inv.initial⟩

/-- Between its calls, and while nobody trims, a thread's error number stays as it is. -/
theorem errno_between {trace : List (Event Tid Call Ptr ClientAccess)}
    (hrun : (clients Tid v w).Run x trace y) (hidle : x.config.pc t = .idle)
    (hothers : ∀ a ∈ trace, ¬ IsBy t a ∧ a ≠ .access .trim) :
    y.config.pc t = .idle ∧ y.config.state.errno t = x.config.state.errno t := by
  have hstep : ∀ {y z : Observation Tid} {e : Option (Event Tid Call Ptr ClientAccess)},
      ObservedStep v w y e z → (∀ a, e = some a → ¬ IsBy t a ∧ a ≠ .access .trim) →
      y.config.pc t = .idle → z.config.pc t = .idle ∧ z.config.state.errno t = y.config.state.errno t := by
    intro y z e hstep he hidle
    have hcalm : e ≠ some (.access .trim) := fun heq => (he _ heq).2 rfl
    rcases hstep.others (fun a ha => (he a ha).1) hcalm with ⟨k, hadvance, -⟩ | ⟨hpc, -, herrno⟩
    · simp [Hplf.advance, hidle] at hadvance
    · exact ⟨hpc.trans hidle, herrno⟩
  induction hrun with
  | refl => exact ⟨hidle, rfl⟩
  | internal _ hlast ih =>
      obtain ⟨hidle', herrno⟩ := ih hothers
      obtain ⟨hidle'', herrno'⟩ := hstep hlast (by simp) hidle'
      exact ⟨hidle'', herrno'.trans herrno⟩
  | @observe trace y z e _ hlast ih =>
      obtain ⟨hidle', herrno⟩ := ih fun a ha => hothers a (List.mem_append_left _ ha)
      obtain ⟨hidle'', herrno'⟩ := hstep hlast (fun a ha => hothers a (by simp [Option.some.inj ha])) hidle'
      exact ⟨hidle'', herrno'.trans herrno⟩

/-- What a thread may rely on about its error number. -/
structure ErrnoContract (v : Variant) (w : World) (t : Tid) : Prop where
  /-- When a call of the thread returns, with whatever the other threads did meanwhile. -/
  call : ∀ {x y z : Observation Tid} {trace call result}, (clients Tid v w).Reachable x →
    (clients Tid v w).step x (some (.invoke t call)) y → (clients Tid v w).Run y trace z →
    (∀ a ∈ trace, ¬ IsBy t a) → z.config.pc t = .idle → z.result t = some result →
      ErrnoAfter w call result (x.config.state.errno t) (SetupFailed x.config.state z.config.state t)
        (z.config.state.errno t)
  /-- Between its calls, while nobody trims. -/
  between : ∀ {x y : Observation Tid} {trace}, x.config.pc t = .idle → (clients Tid v w).Run x trace y →
    (∀ a ∈ trace, ¬ IsBy t a ∧ a ≠ .access .trim) → y.config.state.errno t = x.config.state.errno t
  /-- When another thread trims. -/
  trim : ∀ {s s' : State Tid} {u : Tid} {released : Nat}, t ≠ u → trimQuiescent v w s u = some (s', released) →
    s'.errno t = s.errno t

/-- **Error numbers.** In every interleaved run of any number of threads in which the locks are taken and given
back, with whatever the operating system answers otherwise: a free, a flush and a resize to zero return with
`errno` as it was when they were called, an allocation that fails leaves `ENOMEM`, and one that succeeds leaves
`errno` alone unless it was the one that tried to set up the thread's cache in vain; an exit may leave the error
of a failed unmapping. Between the calls of a thread neither a call nor a trim of another thread changes its
`errno`. -/
theorem errno_discipline (v : Variant) (w : World) (t : Tid) : ErrnoContract v w t where
  call := by
    intro x y z trace call result hreach hinvoke hrun hothers hidle hresult
    have hsafe := safe_of_observation hreach
    have hsafe' := ObservedStep.safe hinvoke hsafe
    cases hinvoke with
    | invoke hbefore _ hallowed henter =>
        have hcourse := (ErrnoCourse.begin (w := w) hsafe hbefore hallowed henter).run hrun hsafe' hothers
        cases hcourse with
        | allocating hrequest _ _ _ _ => simp [hidle, Pc.request] at hrequest
        | finishing _ _ _ hafter =>
            rw [hresult, Option.getD_some] at hafter
            simpa only [Config.heldErrno, hidle] using hafter
  between := fun hidle hrun hothers => (errno_between hrun hidle hothers).2
  trim := fun hne htrim => trimQuiescent_errno htrim t (Or.inl hne)

/-! ### An allocation that fails -/

/-- A client calls or takes a result, or a thread takes its next action. -/
inductive ClientMove (Tid : Type)
  | invoke (t : Tid) (call : Call)
  | advance (t : Tid)
  | respond (t : Tid)

def clientMove [Fintype Tid] (v : Variant) (w : World) (x : Observation Tid) :
    ClientMove Tid → Option (Option (Event Tid Call Ptr ClientAccess) × Observation Tid)
  | .invoke t call =>
      if (x.config.pc t = .idle ∧ x.result t = none) ∧ x.config.Allowed call then
        (enter v x.config.state t call).map fun (s, pc) => (some (.invoke t call),
          ⟨{ x.config.goto t s pc with lastCall := Function.update x.config.lastCall t (some call) },
            Function.update x.result t (if pc = .idle then some call.immediate else none)⟩)
      else
        none
  | .advance t =>
      (advance v w x.config t).map fun k =>
        (none, ⟨k, Function.update x.result t (settle (x.config.pc t) (k.pc t) (x.result t))⟩)
  | .respond t =>
      if x.config.pc t = .idle then
        (x.result t).map fun result => (some (.respond t result),
          { x with result := Function.update x.result t none })
      else
        none

theorem clientMove_step [Fintype Tid] (x : Observation Tid) (m : ClientMove Tid)
    (e : Option (Event Tid Call Ptr ClientAccess)) (y : Observation Tid)
    (hmove : clientMove v w x m = some (e, y)) : (clients Tid v w).step x e y := by
  cases m with
  | invoke t call =>
      rw [clientMove] at hmove
      split at hmove
      · rename_i hready
        obtain ⟨⟨s, pc⟩, henter, hsame⟩ := Option.map_eq_some_iff.mp hmove
        cases hsame
        exact .invoke hready.1.1 hready.1.2 hready.2 henter
      · simp at hmove
  | advance t =>
      obtain ⟨k, hadvance, hsame⟩ := Option.map_eq_some_iff.mp hmove
      cases hsame
      exact .advance hadvance
  | respond t =>
      rw [clientMove] at hmove
      split at hmove
      · rename_i hidle
        obtain ⟨result, hresult, hsame⟩ := Option.map_eq_some_iff.mp hmove
        cases hsame
        exact .respond hidle hresult
      · simp at hmove

theorem clientMove_invoke [Fintype Tid] {x y : Observation Tid} {e : Option (Event Tid Call Ptr ClientAccess)}
    {call : Call} (hmove : clientMove v w x (.invoke t call) = some (e, y)) : e = some (.invoke t call) := by
  rw [clientMove] at hmove
  split at hmove
  · obtain ⟨_, -, hsame⟩ := Option.map_eq_some_iff.mp hmove
    cases hsame
    rfl
  · simp at hmove

/-- Another thread calls or returns. -/
def isForeign (t : Tid) : Event Tid Call Ptr ClientAccess → Bool
  | .invoke u _ | .respond u _ => u != t
  | .access _ => false

theorem isForeign_spec {a : Event Tid Call Ptr ClientAccess} (hforeign : isForeign t a = true) :
    ¬ IsBy t a ∧ a ≠ .access .trim := by
  cases a with
  | invoke u call | respond u result =>
      have hne : u ≠ t := by simpa [isForeign] using hforeign
      exact ⟨hne, by simp⟩
  | access a => cases hforeign

/-- Thread 0 has a block of the only slab there is memory for. -/
def oneSlabMoves : List (ClientMove (Fin 2)) :=
  .invoke 0 (.malloc 4096) :: List.replicate 9 (.advance 0) ++ [.respond 0]

/-- Thread 1, which asks for a block of another class, goes on, and thread 0 frees its block meanwhile. -/
def refusedMoves : List (ClientMove (Fin 2)) :=
  List.replicate 3 (.advance 1) ++ [.invoke 0 (.free (some 66320))] ++ List.replicate 2 (.advance 0) ++
    List.replicate 2 (.advance 1)

/-- Thread 0 is refused a block as well. -/
def refusedAgainMoves : List (ClientMove (Fin 2)) :=
  [.respond 0, .invoke 0 (.calloc 3 1024)] ++ List.replicate 5 (.advance 0)

/-- Thread 1 gets no block, and thread 0 goes on after that. -/
def showsRefusal (x : Observation (Fin 2)) : Bool :=
  !x.config.live.isEmpty &&
    (clientMove .cached (scarceWorld 1) x (.invoke 1 (.malloc 2048))).any fun (_, y) =>
      (System.follow (clientMove .cached (scarceWorld 1)) y refusedMoves).any fun (trace, z) =>
        (!trace.isEmpty && trace.all (isForeign 1) && z.config.pc 1 == .idle && z.result 1 == some none) &&
          (System.follow (clientMove .cached (scarceWorld 1)) z refusedAgainMoves).any fun (later, _) =>
            !later.isEmpty && later.all (isForeign 1)

theorem errno_discipline_refused : ∃ (x y z u : Observation (Fin 2))
    (trace later : List (Event (Fin 2) Call Ptr ClientAccess)),
    (clients (Fin 2) .cached (scarceWorld 1)).Reachable x ∧ x.config.live ≠ [] ∧
      (clients (Fin 2) .cached (scarceWorld 1)).step x (some (.invoke 1 (.malloc 2048))) y ∧
      (clients (Fin 2) .cached (scarceWorld 1)).Run y trace z ∧ trace ≠ [] ∧ z.config.state.errno 1 = .ENOMEM ∧
      (clients (Fin 2) .cached (scarceWorld 1)).Run z later u ∧ later ≠ [] ∧ u.config.state.errno 1 = .ENOMEM ∧
      ∀ s released, trimQuiescent .cached (scarceWorld 1) u.config.state 0 = some (s, released) →
        s.errno 1 = .ENOMEM := by
  have hstep := @clientMove_step (Fin 2) _ .cached (scarceWorld 1) _
  obtain ⟨first, x, hfirst, hcheck⟩ := System.exists_run hstep ⟨.initial, fun _ => none⟩ oneSlabMoves
    (fun _ => showsRefusal) (by decide +kernel)
  rw [showsRefusal, Bool.and_eq_true, Option.any_eq_true] at hcheck
  obtain ⟨hlive, ⟨e, y⟩, hinvoke, hcheck⟩ := hcheck
  obtain ⟨⟨trace, z⟩, htrace, hcheck⟩ := (Option.any_eq_true _ _).mp hcheck
  rw [Bool.and_eq_true, Option.any_eq_true] at hcheck
  obtain ⟨hrefused, ⟨later, u⟩, hlater, hcheck⟩ := hcheck
  simp only [Bool.and_eq_true, Bool.not_eq_true', List.isEmpty_eq_false_iff, List.all_eq_true, beq_iff_eq]
    at hlive hrefused hcheck
  obtain ⟨⟨⟨hevents, hothers⟩, hidle⟩, hresult⟩ := hrefused
  have hcontract := errno_discipline .cached (scarceWorld 1) (1 : Fin 2)
  have hreach : (clients (Fin 2) .cached (scarceWorld 1)).Reachable x := ⟨_, first, rfl, hfirst⟩
  have hcalled := hstep x _ e y hinvoke
  rw [clientMove_invoke hinvoke] at hcalled
  have hrun := System.follow_run hstep _ htrace
  have hafter := hcontract.call hreach hcalled hrun (fun a ha => (isForeign_spec (hothers a ha)).1) hidle hresult
  have hasks : (Call.malloc 2048).Asks := by simp [Call.Asks]
  have herrno := hafter.refused hasks rfl
  have hrun' := System.follow_run hstep _ hlater
  have hkept := hcontract.between hidle hrun' fun a ha => isForeign_spec (hcheck.2 a ha)
  refine ⟨x, y, z, u, trace, later, hreach, hlive, hcalled, hrun, hevents, herrno, hrun', hcheck.1,
    hkept.trans herrno, fun s released htrim => ?_⟩
  exact (hcontract.trim (by decide) htrim).trans (hkept.trans herrno)

end Hplf
