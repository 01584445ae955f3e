import HplfMalloc.Lib.Stretch
import HplfMalloc.Proof.LifecycleFrame
import HplfMalloc.Proof.Safety

/-!
# The actions a call has left

Every action of a call brings it nearer to its end. Only the eviction loop can go back to where it was,
and how often it does depends on the cache: a store leaves it at most one block over its caps, so that one
extraction is enough. The cache of a thread is its own, so that nobody else's action delays the call.
-/

namespace Hplf

open Lib Memory ThreadCache
open scoped BigOperators

variable {Tid : Type}

/-- How many blocks of a class the cache of thread `t` counts. -/
def Config.cached (k : Config Tid) (t : Tid) (c : ClassIndex) : Nat :=
  match k.cacheOf t with
  | none => 0
  | some d => ((k.state.descriptor d).map fun descriptor => descriptor.cache.counts c).getD 0

/-- Both caps hold of a cache with these counts. -/
def CountsFit (n : ClassIndex → Nat) : Prop :=
  (∀ c, n c ≤ cacheClassBlockLimit) ∧ ∑ c, n c * sizeClassCapacities c ≤ cacheTotalBytesLimit

instance (n : ClassIndex → Nat) : Decidable (CountsFit n) := inferInstanceAs (Decidable (_ ∧ _))

/-- Without one block of class `c` both caps hold. -/
def OneOver (n : ClassIndex → Nat) (c : ClassIndex) : Prop :=
  ∃ m, CountsFit m ∧ n = Function.update m c (m c + 1)

/-- What the eviction loop is known to have before it. -/
def Pc.Owes (n : ClassIndex → Nat) : Pc → Prop
  | .evict c _ _ => CountsFit n ∨ OneOver n c
  | .publishEviction _ _ _ _ _ => CountsFit n
  | _ => True

/-- The actions that follow the delivery of a block: a resize still frees the old one. -/
def Request.afterwards (r : Request) : Nat :=
  match r.purpose with
  | .realloc _ => 4
  | _ => 0

/-- The actions a call has left at most, with the counts of the thread's cache. -/
def Pc.remaining (n : ClassIndex → Nat) : Pc → Nat
  | .idle => 0
  | .allocateSmall r _ _ => r.afterwards + 9
  | .detach r _ _ _ => r.afterwards + 8
  | .lockRegistry r _ _ _ => r.afterwards + 7
  | .recheck r _ _ _ => r.afterwards + 6
  | .createSlab r _ _ _ => r.afterwards + 5
  | .unlockRegistry r _ _ _ _ => r.afterwards + 4
  | .refill r _ _ _ _ => r.afterwards + 3
  | .publishRest r _ _ _ => r.afterwards + 2
  | .allocateLarge r => r.afterwards + 2
  | .deliver r _ => r.afterwards + 1
  | .release _ => 4
  | .publishFreed _ _ _ => 1
  | .evict _ _ _ => if CountsFit n then 1 else 3
  | .publishEviction _ _ _ _ _ => 2
  | .flush _ rest teardown => 2 * rest.length + 1 + teardown.toNat
  | .publishFlush _ _ _ rest teardown => 2 * rest.length + 2 + teardown.toNat
  | .unmapDescriptor _ => 1

def Config.remaining (k : Config Tid) (t : Tid) : Nat := (k.pc t).remaining (k.cached t)

/-- The actions a call takes at most. -/
def Call.budget : Call → Nat
  | .malloc _ | .calloc _ _ => 9
  | .realloc _ _ => 13
  | .free _ => 4
  | .threadFlush => 33
  | .threadExit => 34

variable {k k' : Config Tid} {t : Tid} {bases larges : List Nat} {g : Place Tid → List Nat}
variable {v : Variant} {w : World} {c : ClassIndex} {n : ClassIndex → Nat}

/-! ### The counts of a cache -/

theorem Config.cached_none (hcache : k.cacheOf t = none) : k.cached t = fun _ => 0 := by
  ext c
  simp [Config.cached, hcache]

theorem Config.cached_some {d : Nat} {descriptor : CacheDescriptor} (hcache : k.cacheOf t = some d)
    (hmapped : k.state.descriptor d = some descriptor) : k.cached t = descriptor.cache.counts := by
  ext c
  simp [Config.cached, hcache, hmapped]


theorem Inv.cached_eq (hinv : Inv k bases larges g) (t : Tid) :
    k.cached t = fun c => (g (.cache t c)).length := by
  cases hcache : k.cacheOf t with
  | none =>
      rw [Config.cached_none hcache]
      ext c
      rw [hinv.cache_eq_nil hcache c, List.length_nil]
  | some d =>
      obtain ⟨descriptor, hown⟩ := hinv.ownCache hcache
      rw [Config.cached_some hcache hown.ok.mapped]
      ext c
      exact hown.count c

variable [DecidableEq Tid]

theorem CountsFit.of_withinCaps {cache : ThreadCache} (hsound : cache.Sound) (hcaps : cache.WithinCaps) :
    CountsFit cache.counts :=
  ⟨hcaps.counts, hsound.balanced ▸ hcaps.bytes⟩

/-- Within both caps no eviction is called for. -/
theorem CountsFit.nextEviction {cache : ThreadCache} (hsound : cache.Sound) (hfit : CountsFit cache.counts)
    (c : ClassIndex) : cache.nextEviction c = none := by
  have hclass := hfit.1 c
  have hbytes := hfit.2
  rw [← hsound.balanced] at hbytes
  rw [ThreadCache.nextEviction, if_neg (Nat.not_lt.mpr hclass), if_pos hbytes]

theorem CountsFit.mono {m : ClassIndex → Nat} (hfit : CountsFit n) (hle : ∀ c, m c ≤ n c) : CountsFit m := by
  refine ⟨fun c => (hle c).trans (hfit.1 c), le_trans ?_ hfit.2⟩
  apply Finset.sum_le_sum
  intro c _
  exact Nat.mul_le_mul_right _ (hle c)

/-- One block over its caps, a cache is within them again after one extraction. -/
theorem OneOver.nextEviction {cache : ThreadCache} (hover : OneOver cache.counts c)
    {e : ClassIndex} {count : Nat} (hnext : cache.nextEviction c = some (e, count)) :
    CountsFit (Function.update cache.counts e (cache.counts e - count)) := by
  obtain ⟨m, hfit, hcounts⟩ := hover
  have hclass : cache.counts c = m c + 1 := by rw [hcounts, Function.update_self]
  have hcap := hfit.1 c
  -- Whatever is left of the class, it is no more than there was before the block came.
  have hrest : ∀ j ≤ m c, CountsFit (Function.update cache.counts c j) := by
    intro j hj
    rw [hcounts, Function.update_idem]
    refine hfit.mono fun e => ?_
    by_cases he : e = c
    · subst he
      rwa [Function.update_self]
    · rw [Function.update_of_ne he]
  rw [ThreadCache.nextEviction] at hnext
  split at hnext
  · obtain ⟨rfl, rfl⟩ := Prod.mk.inj (Option.some.inj hnext)
    exact hrest _ (by omega)
  split at hnext
  · simp at hnext
  rw [if_pos (by omega)] at hnext
  obtain ⟨rfl, rfl⟩ := Prod.mk.inj (Option.some.inj hnext)
  exact hrest _ (by omega)

/-! ### The cache operations of a release and of the eviction loop -/

/-- Publishing leaves every cache alone. -/
theorem cached_publish {s : State Tid} {list : TransferList} {pc : Pc}
    (hteardown : pc.teardown = (k.pc t).teardown)
    (hpublish : transferMutexPublish k.state c list = some s) : (k.goto t s pc).cached t = k.cached t := by
  have hwork : ListWork none k.state s := transferMutexPublish_work hpublish
  have hsame := hwork.sameLifecycle
  have hcache : (k.goto t s pc).cacheOf t = k.cacheOf t := by
    simp only [Config.cacheOf, Config.goto_pc, Config.goto_state, hteardown, cacheCurrent,
      hsame.currentState, hsame.currentDescriptor]
  have hdescriptor : s.descriptor = k.state.descriptor := by
    ext d
    rw [hsame.others d (by simp)]
  ext e
  simp only [Config.cached, hcache, Config.goto_state, hdescriptor]

theorem Config.cached_of_lifecycle {own : Ptr} {s : State Tid} {pc : Pc} {d : Nat}
    {descriptor : CacheDescriptor} (hsame : SameLifecycle own k.state s)
    (hteardown : pc.teardown = (k.pc t).teardown) (hcache : k.cacheOf t = some d)
    (hmapped : s.descriptor d = some descriptor) :
    (k.goto t s pc).cached t = descriptor.cache.counts := by
  refine Config.cached_some (d := d) ?_ hmapped
  rw [← hcache]
  simp only [Config.cacheOf, Config.goto_pc, Config.goto_state, hteardown, cacheCurrent,
    hsame.currentState, hsame.currentDescriptor]

/-- An extraction is called for only over the caps, and after it the loop owes nothing more. -/
theorem Inv.fits_evicted (hinv : Inv k bases larges g) {d : Nat} {e : Errno} {f : ClassIndex}
    {list : TransferList} {s : State Tid} (hpc : k.pc t = .evict c d e)
    (howes : CountsFit (k.cached t) ∨ OneOver (k.cached t) c)
    (hevict : (withCache k.state d fun m cache => threadCacheExtractEviction m cache c)
      = some (s, some (f, list))) :
    ¬ CountsFit (k.cached t) ∧ CountsFit ((k.goto t s (.publishEviction c d f list e)).cached t) := by
  have hd := hinv.evicts_own hpc
  obtain ⟨descriptor, hown⟩ := hinv.ownCache hd
  rw [Config.cached_some hd hown.ok.mapped] at howes ⊢
  rcases threadCacheExtractEviction_of_chains (fun e => g (.cache t e)) hown.ok.sound
    hown.chain hown.count c with ⟨-, hnone⟩ | ⟨f', n, m, cache, list', hnext, hsome, hextracts⟩
  · have hresult := withCache_eq_some (fun m cache =>
      threadCacheExtractEviction m cache c) hown.ok.mapped hnone
    simp [hresult] at hevict
  have hresult := withCache_eq_some (fun m cache =>
    threadCacheExtractEviction m cache c) hown.ok.mapped hsome
  obtain ⟨rfl, heq⟩ := Prod.mk.inj (Option.some.inj (hresult.symm.trans hevict))
  obtain ⟨rfl, rfl⟩ := Prod.mk.inj (Option.some.inj heq)
  have hover : ¬ CountsFit descriptor.cache.counts := by
    intro hfit
    rw [hfit.nextEviction hown.ok.sound] at hnext
    simp at hnext
  refine ⟨hover, ?_⟩
  have hwork := (withCache_work hresult).sameLifecycle
  rw [Config.cached_of_lifecycle hwork (by rw [hpc]; rfl) hd (Function.update_self ..)]
  have hcounts : cache.counts
      = Function.update descriptor.cache.counts f' (descriptor.cache.counts f' - n) := by
    rw [hextracts.cache_eq, hown.count f']
    simp [withClass]
  rw [hcounts]
  exact (howes.resolve_left hover).nextEviction hnext

omit [DecidableEq Tid] in
theorem storeFreed_counts {s s' : State Tid} {d a capacity : Nat} {descriptor : CacheDescriptor}
    (hstore : storeFreed s (some d) a c capacity = some (s', none))
    (hmapped : s.descriptor d = some descriptor) :
    ∃ descriptor', s'.descriptor d = some descriptor' ∧ descriptor'.cache.counts
      = Function.update descriptor.cache.counts c (descriptor.cache.counts c + 1) := by
  obtain ⟨s₁, hset, h⟩ := Option.bind_eq_some_iff.mp hstore
  obtain ⟨m, -, heq⟩ := Option.bind_eq_some_iff.mp hset
  obtain rfl := Option.some.inj heq
  obtain ⟨⟨s₂, u⟩, hwith, h⟩ := Option.bind_eq_some_iff.mp h
  obtain ⟨rfl, -⟩ := Prod.mk.inj (Option.some.inj h)
  obtain ⟨descriptor₁, hmapped₁, h⟩ := Option.bind_eq_some_iff.mp hwith
  obtain rfl : descriptor = descriptor₁ := Option.some.inj (hmapped.symm.trans hmapped₁)
  obtain ⟨⟨m', cache', _⟩, hoperation, hresult⟩ := Option.bind_eq_some_iff.mp h
  obtain ⟨⟨m'', cache''⟩, hstored, heq⟩ := Option.map_eq_some_iff.mp hoperation
  obtain ⟨m₃, -, hlast⟩ := Option.bind_eq_some_iff.mp hstored
  obtain ⟨-, rfl⟩ := Prod.mk.inj (Option.some.inj hlast)
  obtain ⟨-, hcache⟩ := Prod.mk.inj heq
  obtain ⟨rfl, -⟩ := Prod.mk.inj hcache
  obtain ⟨rfl, -⟩ := Prod.mk.inj (Option.some.inj hresult)
  exact ⟨_, Function.update_self .., rfl⟩

/-- A release leaves the cache at most one block over its caps. -/
theorem Inv.oneOver_stored (hinv : Inv k bases larges g) {a d capacity : Nat} {s₁ s : State Tid} {e : Errno}
    (hpc : k.pc t = .release a) (hacquire : cacheAcquire w k.state t = some (s₁, some d))
    (hstore : Hplf.storeFreed s₁ (some d) a c capacity = some (s, none)) :
    OneOver ((k.goto t s (.evict c d e)).cached t) c := by
  obtain ⟨s', cache, hacquire', hcurrent, -, hinv'⟩ := hinv.acquire w (by rw [hpc]; rfl)
    (by rw [hpc]; rfl) (by rw [hpc]; exact fun _ h => h.elim) (by rw [hpc]; exact fun _ => trivial)
  obtain ⟨rfl, rfl⟩ := Prod.mk.inj (Option.some.inj (hacquire'.symm.trans hacquire))
  rw [hpc] at hinv'
  have hd : (k.goto t s' (.release a)).cacheOf t = some d :=
    (Config.cacheOf_eq_current (by rw [Config.goto_pc]; rfl)).trans hcurrent.symm
  obtain ⟨descriptor, hown⟩ := hinv'.ownCache hd
  obtain ⟨descriptor', hmapped', hcounts⟩ := storeFreed_counts hstore hown.ok.mapped
  have hcaps : descriptor.cache.WithinCaps := hown.ok.caps.withinCaps (by rw [Config.goto_pc]; rfl)
  have hcached : ((k.goto t s' (.release a)).goto t s (.evict c d e)).cached t = descriptor'.cache.counts :=
    Config.cached_of_lifecycle (storeFreed_work hstore).sameLifecycle (by rw [Config.goto_pc]; rfl) hd hmapped'
  rw [Config.goto_goto] at hcached
  rw [hcached, hcounts]
  exact ⟨_, CountsFit.of_withinCaps hown.ok.sound hcaps, rfl⟩

/-! ### Every action brings a call nearer to its end -/

theorem DeliverStep.remaining_lt {r : Request} {a : Nat} (hdeliver : DeliverStep k t r a k') :
    (k'.pc t).Owes n ∧ (k'.pc t).remaining n < r.afterwards + 1 := by
  cases hdeliver with
  | malloc _ | calloc _ _ =>
      simp only [Config.goto_pc]
      exact ⟨trivial, Nat.succ_pos _⟩
  | realloc hpurpose _ _ _ =>
      simp only [Config.goto_pc, Request.afterwards, hpurpose]
      exact ⟨trivial, Nat.lt_succ_self _⟩

theorem Inv.release_remaining_lt (hinv : Inv k bases larges g) {a : Nat} (hpc : k.pc t = .release a)
    (hrelease : ReleaseStep v w k t a k') :
    (k'.pc t).Owes (k'.cached t) ∧ (k'.pc t).remaining (k'.cached t) < 4 := by
  cases hrelease with
  | unmapped _ _ _ | leaked _ _ _ | locked _ _ _ _ _ | uncached _ _ _ _ _ _ =>
      simp only [Config.goto_pc]
      exact ⟨trivial, by simp [Pc.remaining]⟩
  | @stored header slab s₁ s d _ _ _ _ hacquire hstore =>
      have hover := hinv.oneOver_stored (e := k.state.errno t) hpc hacquire hstore
      simp only [Config.goto_pc]
      refine ⟨Or.inr hover, ?_⟩
      simp only [Pc.remaining]
      split <;> decide

/-- **Descent.** An action leaves the call fewer actions than before. -/
theorem Inv.remaining_lt (hinv : Inv k bases larges g) (howes : (k.pc t).Owes (k.cached t))
    (htransition : Transition v w k t k') :
    (k'.pc t).Owes (k'.cached t) ∧ k'.remaining t < k.remaining t := by
  unfold Config.remaining
  cases htransition with
  | delivered hpc hdeliver =>
      rw [hpc]
      exact (deliverStep_of_deliver hdeliver).remaining_lt
  | released hpc hrelease =>
      have hlt := hinv.release_remaining_lt hpc (releaseStep_of_release hrelease)
      rw [hpc]
      exact hlt
  | @evictionDone c d e s hpc _ =>
      rw [Config.goto_pc, hpc]
      refine ⟨trivial, ?_⟩
      simp only [Pc.remaining]
      split <;> decide
  | @evicted c f d e s list hpc hevict =>
      rw [hpc] at howes
      obtain ⟨hover, hfit⟩ := hinv.fits_evicted hpc howes hevict
      rw [Config.goto_pc, hpc]
      refine ⟨hfit, ?_⟩
      simp only [Pc.remaining, if_neg hover]
      decide
  | @evictionPublished c f d e s list hpc hpublish =>
      rw [hpc] at howes
      have hfit : CountsFit (k.cached t) := howes
      rw [Config.goto_pc, cached_publish (by rw [hpc]; rfl) hpublish, hpc]
      refine ⟨Or.inl hfit, ?_⟩
      simp only [Pc.remaining, if_pos hfit]
      decide
  | @flushDone d teardown hpc =>
      rw [Config.goto_pc, hpc]
      cases teardown with
      | true => exact ⟨trivial, by simp [Pc.remaining]⟩
      | false => exact ⟨trivial, by simp [Pc.remaining]⟩
  | flushedNothing hpc _ | flushed hpc _ | flushPublished hpc _ =>
      rw [Config.goto_pc, hpc]
      refine ⟨trivial, ?_⟩
      simp only [Pc.remaining, List.length_cons]
      omega
  | _ =>
      simp_all [Pc.Owes, Pc.remaining]

end Hplf
