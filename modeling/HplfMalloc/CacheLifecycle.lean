import HplfMalloc.Proof.Teardown
import HplfMalloc.Schedule

/-!
# The cache lifecycle

What holds of `thread_cache_lifecycle.c` in every reachable configuration of the cached build: how
`current_state` moves, what an active thread has, who answers for each mapped descriptor, what has become
of the cached blocks when a descriptor goes away, and what `hplf_cache_acquire` hands out.
-/

namespace Hplf

open Lib Memory

variable {Tid : Type} [DecidableEq Tid]

/-- A descriptor is mapped at this address. -/
def DescriptorMapped (s : State Tid) (d : Nat) : Prop := ∃ r ∈ s.descriptorMapped, r.base = d

/-- The contract of the lifecycle at a configuration. -/
structure LifecycleContract (w : World) (k : Config Tid) : Prop where
  moves : ∀ e k', Step .cached w k e k' → ∀ t,
    (k.state.currentState t).Moves (k'.state.currentState t)
  active_iff : ∀ t, k.state.currentState t = .active ↔ ∃ d, k.state.currentDescriptor t = some d ∧
    DescriptorMapped k.state d ∧ k.state.keyValue t = some d
  mapped_once : ∀ t, k.state.descriptorsMappedBy t ≤ 1
  accounted : ∀ d, DescriptorMapped k.state d →
    (Current k.state d ∧ k.state.handedToRelease d = 0) ∨
      (¬ Current k.state d ∧ k.state.handedToRelease d = 1)
  emptied : ∀ t d, k.pc t = .unmapDescriptor d → ∃ descriptor, k.state.descriptor d = some descriptor ∧
    ∀ c, descriptor.cache.heads c = none ∧ descriptor.cache.counts c = 0
  published : ∀ t d, k.pc t = .idle → k.state.keyValue t = some d →
    ∀ start trace k', Step .cached w k (some (t, some .threadExit)) start →
      (machine Tid .cached w).Run start trace k' → (∀ call, (t, some call) ∉ trace) →
      k'.pc t = .unmapDescriptor d →
        ∀ c xs, Holds k (.cache t c) xs → ∀ a ∈ xs, WasPublished .cached w start k' c a
  acquired : ∀ t, ∃ s cache, cacheAcquire w k.state t = some (s, cache) ∧ ∀ d, cache = some d →
    DescriptorMapped s d ∧ s.handedToRelease d = 0 ∧ s.currentState t = .active ∧
      s.currentDescriptor t = some d

variable {k : Config Tid} {t : Tid} {bases larges : List Nat} {g : Place Tid → List Nat}

omit [DecidableEq Tid] in
theorem Life.descriptorMapped_iff {s : State Tid} (hlife : Life s) (d : Nat) :
    DescriptorMapped s d ↔ s.descriptor d ≠ none := by
  constructor
  · rintro ⟨r, hr, rfl⟩
    obtain ⟨descriptor, hd, -⟩ := hlife.mapped r hr
    simp [hd]
  · intro hne
    obtain ⟨descriptor, hd⟩ := Option.ne_none_iff_exists'.mp hne
    obtain ⟨hbase, hmem⟩ := hlife.region d descriptor hd
    exact ⟨descriptor.region, hmem, hbase⟩

omit [DecidableEq Tid] in
theorem Inv.active_iff (hinv : Inv k bases larges g) (hlife : Life k.state) :
    k.state.currentState t = .active ↔ ∃ d, k.state.currentDescriptor t = some d ∧
      DescriptorMapped k.state d ∧ k.state.keyValue t = some d := by
  constructor
  · intro hactive
    have hlifecycle := (hinv.thread t).lifecycle
    rw [LifecycleOk, hactive] at hlifecycle
    obtain ⟨d, hcurrent, hkey⟩ := hlifecycle
    refine ⟨d, hcurrent, (hlife.descriptorMapped_iff d).mpr ?_, hkey⟩
    exact (hlife.current d ⟨t, hactive, hcurrent⟩).1
  · rintro ⟨d, -, -, hkey⟩
    exact (hinv.active_of_key hkey).1

/-- What `hplf_cache_acquire` returns is what the thread then has. -/
theorem Inv.cacheAcquire_current (hinv : Inv k bases larges g) (w : World) (t : Tid) :
    ∃ s cache, cacheAcquire w k.state t = some (s, cache) ∧ cacheCurrent s t = cache := by
  cases hstate : k.state.currentState t with
  | active => exact ⟨_, _, by rw [cacheAcquire, hstate], by rw [cacheCurrent, if_pos hstate]⟩
  | uncached => exact ⟨_, _, by rw [cacheAcquire, hstate], by simp [cacheCurrent, hstate]⟩
  | uninitialized =>
      obtain ⟨s, cache, hacquire, hacquired⟩ := cacheAcquire_uninitialized w hstate
      exact ⟨s, cache, hacquire, (hacquired.own (hinv.thread t).lifecycle hstate).1⟩

theorem Inv.acquired (hinv : Inv k bases larges g) (hlife : Life k.state) (w : World) (t : Tid) :
    ∃ s cache, cacheAcquire w k.state t = some (s, cache) ∧ ∀ d, cache = some d →
      DescriptorMapped s d ∧ s.handedToRelease d = 0 ∧ s.currentState t = .active ∧
        s.currentDescriptor t = some d := by
  obtain ⟨s, cache, hacquire, hcurrent⟩ := hinv.cacheAcquire_current w t
  refine ⟨s, cache, hacquire, ?_⟩
  rintro d rfl
  have hlife' : Life s := hlife.acquire hinv hacquire
  unfold cacheCurrent at hcurrent
  split at hcurrent
  · rename_i hactive
    obtain ⟨hmapped, hhanded⟩ := hlife'.current d ⟨t, hactive, hcurrent⟩
    exact ⟨(hlife'.descriptorMapped_iff d).mpr hmapped, hhanded, hactive, hcurrent⟩
  · cases hcurrent

omit [DecidableEq Tid] in
theorem Inv.descriptor_emptied (hinv : Inv k bases larges g) {d : Nat}
    (hpc : k.pc t = .unmapDescriptor d) :
    ∃ descriptor, k.state.descriptor d = some descriptor ∧
      ∀ c, descriptor.cache.heads c = none ∧ descriptor.cache.counts c = 0 := by
  have hd : k.cacheOf t = some d := by rw [Config.cacheOf, hpc]; rfl
  obtain ⟨descriptor, hown⟩ := hinv.ownCache hd
  refine ⟨descriptor, hown.ok.mapped, fun c => ?_⟩
  have hnil : g (.cache t c) = [] := hinv.emptied t c (by rw [hpc]; trivial)
  refine ⟨(hown.chain c).eq_nil_iff.mpr hnil, ?_⟩
  rw [hown.count c, hnil]
  rfl

/-- **The lifecycle of thread caches.** In every reachable configuration of the cached build, for any
number of threads, any interleaving of their calls and exits, and whatever the system answers: each step
moves `current_state` only forward; a thread is active exactly when its current descriptor is mapped and
registered under the key; no thread maps two descriptors; every mapped descriptor is the current one of an
active thread, or else was handed to `release_descriptor` once; what an exiting thread had cached has been
published by the time its descriptor is unmapped; and `hplf_cache_acquire` always answers, with a cache
only if it lies in the mapped descriptor of an active thread that was never handed over. -/
theorem cache_lifecycle (w : World) (k : Config Tid) (hreach : (machine Tid .cached w).Reachable k) :
    LifecycleContract w k := by
  obtain ⟨bases, larges, g, hinv⟩ := safe_of_reachable hreach
  have hlife := life_of_reachable hreach
  refine ⟨fun e k' hstep t => (hinv.lifecycleStep hstep).moves hinv t, fun t => hinv.active_iff hlife,
    hlife.once, fun d hd => ?_, fun t d => hinv.descriptor_emptied, ?_, hinv.acquired hlife w⟩
  · by_cases hcurrent : Current k.state d
    · exact Or.inl ⟨hcurrent, (hlife.current d hcurrent).2⟩
    · have hmapped := (hlife.descriptorMapped_iff d).mp hd
      exact Or.inr ⟨hcurrent, (hlife.handed d hmapped).resolve_left hcurrent⟩
  · intro t d hidle hkey start trace k' hexit hrun hcall hend c xs hholds a ha
    rw [hinv.eq_of_holds_cache hholds] at ha
    exact hinv.teardown_published hidle hkey hexit hrun hcall hend c ha

/-- The first allocation of a thread activates its cache. -/
theorem cache_lifecycle_first_malloc : ∃ k : Config (Fin 2),
    (machine (Fin 2) .cached (bumpWorld fun _ => none)).Reachable k ∧
      k.state.currentState 0 = .active ∧ LifecycleContract (bumpWorld fun _ => none) k := by
  obtain ⟨k, hreach, hcheck⟩ := exists_makeMoves .cached (bumpWorld fun _ => none)
    (mallocMoves (0 : Fin 2))
    (fun k => decide (k.state.currentState 0 = .active)) (by decide +kernel)
  exact ⟨k, hreach, of_decide_eq_true hcheck, cache_lifecycle _ k hreach⟩

end Hplf
