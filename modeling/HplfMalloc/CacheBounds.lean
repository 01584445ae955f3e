import HplfMalloc.Proof.CacheLists
import HplfMalloc.Proof.LifecycleInv
import HplfMalloc.Schedule

/-!
# Caps and counters of thread caches

In every reachable configuration the cache of a thread between calls represents its lists and is within
both caps, and wherever a call works on a cache no size it subtracts from is too small. Each cache
operation alone keeps the counters in agreement with the lists.
-/

namespace Hplf

open Lib Memory ThreadCache

/-! ### The subtractions of `thread_cache.c` -/

/-- In `hplf_thread_cache_take`: one block and its capacity. -/
def TakeFits (cache : ThreadCache) (c : ClassIndex) (classCapacity : Nat) : Prop :=
  cache.heads c ≠ none → 1 ≤ cache.counts c ∧ classCapacity ≤ cache.totalSlotBytes

/-- In `hplf_thread_cache_refill`: what the caps leave, and the division by the capacity. -/
def RefillFits (cache : ThreadCache) (c : ClassIndex) (classCapacity : Nat) : Prop :=
  cache.counts c ≤ cacheClassBlockLimit ∧ cache.totalSlotBytes ≤ cacheTotalBytesLimit ∧
    0 < classCapacity

/-- In `hplf_thread_cache_extract_class`: the blocks taken and their bytes. -/
def ExtractFits (m : Memory) (cache : ThreadCache) (c : ClassIndex) (maximumCount : Nat) : Prop :=
  ∀ m' cache' output, threadCacheExtractClass m cache c maximumCount = some (m', cache', some output) →
    output.count ≤ cache.counts c ∧ output.count * sizeClassCapacities c ≤ cache.totalSlotBytes

/-- In `hplf_thread_cache_extract_eviction`: the excess, which is taken only of a larger count, and the
blocks of the class that is extracted. -/
def EvictionFits (m : Memory) (cache : ThreadCache) (c : ClassIndex) : Prop :=
  ∀ m' cache' e output, threadCacheExtractEviction m cache c = some (m', cache', some (e, output)) →
    output.count ≤ cache.counts e ∧ output.count * sizeClassCapacities e ≤ cache.totalSlotBytes

variable {m : Memory} {cache : ThreadCache} {lists : ClassIndex → List Nat} {c : ClassIndex}

theorem CacheRep.takeFits (hrep : CacheRep m cache lists) (c : ClassIndex) :
    TakeFits cache c (sizeClassCapacities c) := by
  intro hhead
  have hne : lists c ≠ [] := fun hnil => hhead ((hrep.chain c).eq_nil_iff.mpr hnil)
  have hcount : 1 ≤ cache.counts c := by
    rw [hrep.count]
    exact List.length_pos_iff.mpr hne
  refine ⟨hcount, ?_⟩
  calc sizeClassCapacities c ≤ cache.counts c * sizeClassCapacities c :=
        Nat.le_mul_of_pos_left _ hcount
    _ ≤ cache.totalSlotBytes := hrep.sound.mul_le c

/-- A prefix of a list of the cache is no more than the list. -/
theorem CacheRep.owns_fits (hrep : CacheRep m cache lists) {m' : Memory} {output : TransferList}
    {xs ys : List Nat} (howns : output.Owns m' xs) (hsplit : xs ++ ys = lists c) :
    output.count ≤ cache.counts c ∧ output.count * sizeClassCapacities c ≤ cache.totalSlotBytes := by
  have hle : output.count ≤ cache.counts c := by
    rw [hrep.count, ← hsplit, howns.count, List.length_append]
    omega
  exact ⟨hle, (Nat.mul_le_mul_right _ hle).trans (hrep.sound.mul_le c)⟩

theorem CacheRep.extractFits (hrep : CacheRep m cache lists) (c : ClassIndex) (n : Nat) :
    ExtractFits m cache c n := by
  intro m' cache' output hextract
  obtain ⟨m₁, cache₁, output₁, hextract₁, -, howns, -⟩ := hrep.extractClass c n
  obtain ⟨rfl, rfl, rfl⟩ : m₁ = m' ∧ cache₁ = cache' ∧ output₁ = some output := by
    simpa using hextract₁.symm.trans hextract
  exact hrep.owns_fits (howns output rfl) (List.take_append_drop n (lists c))

theorem CacheRep.evictionFits (hrep : CacheRep m cache lists) (c : ClassIndex) :
    EvictionFits m cache c := by
  intro m' cache' e output hextract
  obtain ⟨m₁, cache₁, output₁, lists', hextract₁, howns, -⟩ := hrep.extractEviction c
  obtain ⟨rfl, rfl, rfl⟩ : m₁ = m' ∧ cache₁ = cache' ∧ output₁ = some (e, output) := by
    simpa using hextract₁.symm.trans hextract
  obtain ⟨xs, hxs, hsplit⟩ := howns e output rfl
  exact hrep.owns_fits hxs hsplit

/-! ### Each operation alone -/

/-- Every cache operation, called with the capacity of its class and with blocks that are not cached,
returns and leaves a cache that represents the lists it should have. -/
structure OperationsKeep (m : Memory) (cache : ThreadCache) (lists : ClassIndex → List Nat) : Prop where
  take : ∀ c, ∃ m' cache', threadCacheTake m cache c (sizeClassCapacities c)
      = some (m', cache', (lists c).head?) ∧ CacheRep m' cache' (Function.update lists c (lists c).tail)
  store : ∀ c a q, m.next a = some q → a ∉ lists c →
    Separate (Function.update lists c (a :: lists c)) →
    ∃ m' cache', threadCacheStore m cache c (sizeClassCapacities c) a = some (m', cache') ∧
      CacheRep m' cache' (Function.update lists c (a :: lists c))
  refill : ∀ c available xs, available.Owns m xs → (∀ a ∈ xs, a ∉ lists c) →
    Separate (Function.update lists c (xs ++ lists c)) →
    ∃ n m' cache' available',
      threadCacheRefill m cache c (sizeClassCapacities c) available = some (m', cache', available') ∧
        available'.Owns m' (xs.drop n) ∧
        CacheRep m' cache' (Function.update lists c (xs.take n ++ lists c))
  restore : ∀ c list xs, list.Owns m xs → (∀ a ∈ xs, a ∉ lists c) →
    Separate (Function.update lists c (xs ++ lists c)) →
    ∃ m' cache', threadCacheRestore m cache c (sizeClassCapacities c) list = some (m', cache') ∧
      CacheRep m' cache' (Function.update lists c (xs ++ lists c))
  extractClass : ∀ c n, ∃ m' cache' output,
    threadCacheExtractClass m cache c n = some (m', cache', output) ∧
      (∀ list, output = some list → list.Owns m' ((lists c).take n)) ∧
      CacheRep m' cache' (Function.update lists c ((lists c).drop n))
  extractEviction : ∀ c, ∃ m' cache' output lists',
    threadCacheExtractEviction m cache c = some (m', cache', output) ∧
      (∀ e list, output = some (e, list) → ∃ xs, list.Owns m' xs ∧ xs ++ lists' e = lists e) ∧
      CacheRep m' cache' lists'

theorem CacheRep.operationsKeep (hrep : CacheRep m cache lists) : OperationsKeep m cache lists where
  take := hrep.take
  store c a q hnext hnotMem hseparate := by
    obtain ⟨m', cache', hstore, -, hrep'⟩ := hrep.store hnext hnotMem hseparate
    exact ⟨m', cache', hstore, hrep'⟩
  refill c available xs howns hdisj hseparate := ⟨_, hrep.refill howns hdisj hseparate⟩
  restore c list xs := hrep.restore
  extractClass c n := by
    obtain ⟨m', cache', output, hextract, -, howns, hrep'⟩ := hrep.extractClass c n
    exact ⟨m', cache', output, hextract, howns, hrep'⟩
  extractEviction := hrep.extractEviction

/-! ### Running threads -/

variable {Tid : Type} [DecidableEq Tid]

/-- Wherever the next action of thread `t` runs a cache operation, no subtraction in it wraps. -/
structure OperationsFit (w : World) (k : Config Tid) (t : Tid) : Prop where
  allocateSmall : ∀ r c capacity s d descriptor, k.pc t = .allocateSmall r c capacity →
    cacheAcquire w k.state t = some (s, some d) → s.descriptor d = some descriptor →
    TakeFits descriptor.cache c capacity
  refill : ∀ r c capacity d available descriptor, k.pc t = .refill r c capacity (some d) available →
    k.state.descriptor d = some descriptor →
    RefillFits descriptor.cache c capacity ∧
      ∀ m cache available', threadCacheRefill k.state.memory descriptor.cache c capacity available
        = some (m, cache, available') → TakeFits cache c capacity
  evict : ∀ c d e descriptor, k.pc t = .evict c d e → k.state.descriptor d = some descriptor →
    EvictionFits k.state.memory descriptor.cache c
  flush : ∀ d c rest teardown descriptor, k.pc t = .flush d (c :: rest) teardown →
    k.state.descriptor d = some descriptor →
    ExtractFits k.state.memory descriptor.cache c sizeMax

/-- The cache at `d` represents lists of blocks, a snapshot of it reports a match, and both caps hold. -/
def CacheWithinBounds (s : State Tid) (d : Nat) : Prop :=
  ∃ descriptor lists snapshot, s.descriptor d = some descriptor ∧
    CacheRep s.memory descriptor.cache lists ∧
    threadCacheSnapshot s.memory descriptor.cache = some (snapshot, true) ∧
    descriptor.cache.WithinCaps

variable {k : Config Tid} {t : Tid} {bases larges : List Nat} {g : Place Tid → List Nat}

section

omit [DecidableEq Tid]

/-- Slots of registered slabs, listed by class, are separate objects. -/
theorem Storage.separate {s : State Tid} {leaked : List Mapping} (hst : Storage s leaked bases larges)
    (hlists : ∀ c, ∀ a ∈ lists c, InClass s.memory bases c a) : Separate lists := by
  have hblock : ∀ c, ∀ a ∈ lists c, ∃ b, s.memory.block a = some b ∧
      b.capacity = sizeClassCapacities c := by
    intro c a ha
    obtain ⟨base, hbase, h, hh, rfl, hslot⟩ := hlists c a ha
    obtain ⟨b, hb, hslotOf⟩ := hst.slot base hbase h hh a hslot
    exact ⟨b, hb, hslotOf.capacity.trans (hst.wellFormed hbase hh).capacity⟩
  refine ⟨fun c a ha => ?_, fun c e a ha a' ha' hne => ?_⟩
  · obtain ⟨b, hb, hcapacity⟩ := hblock c a ha
    obtain ⟨b', r, hb', -, hvalid, -, hhigh, -⟩ := hst.extent (Or.inl ⟨c, hlists c a ha⟩)
    obtain rfl := Option.some.inj (hb.symm.trans hb')
    have hfits := hvalid.fits
    rw [hcapacity] at hhigh
    exact hhigh.trans hfits
  · obtain ⟨b, hb, hcapacity⟩ := hblock c a ha
    obtain ⟨b', hb', hcapacity'⟩ := hblock e a' ha'
    have hne' : a ≠ a' := by
      rintro rfl
      obtain ⟨base, hbase, h, hh, rfl, hslot⟩ := hlists c a ha
      obtain ⟨base', hbase', h', hh', rfl, hslot'⟩ := hlists e a ha'
      obtain rfl := hst.slot_unique hbase hbase' hh hh' hslot hslot'
      obtain rfl := Option.some.inj (hh.symm.trans hh')
      exact hne rfl
    have hapart := hst.blocks_apart (Or.inl ⟨c, hlists c a ha⟩) (Or.inl ⟨e, hlists e a' ha'⟩) hne' hb hb'
    rwa [hcapacity, hcapacity'] at hapart

theorem Inv.cacheRep (hinv : Inv k bases larges g) {d : Nat} (hd : k.cacheOf t = some d) :
    ∃ descriptor, OwnCache k t g d descriptor ∧
      CacheRep k.state.memory descriptor.cache fun c => g (.cache t c) := by
  obtain ⟨descriptor, hown⟩ := hinv.ownCache hd
  refine ⟨descriptor, hown, hown.chain, hown.count, hown.ok.sound.balanced, ?_⟩
  exact hinv.storage.separate fun c a ha => (hinv.free_of_cache ha).1

theorem Inv.cacheWithinBounds (hinv : Inv k bases larges g) (hidle : k.pc t = .idle) {d : Nat}
    (hcurrent : cacheCurrent k.state t = some d) : CacheWithinBounds k.state d := by
  have hd : k.cacheOf t = some d := (Config.cacheOf_eq_current (by rw [hidle]; rfl)).trans hcurrent
  obtain ⟨descriptor, hown, hrep⟩ := hinv.cacheRep hd
  obtain ⟨snapshot, hsnapshot⟩ := hrep.snapshot
  exact ⟨descriptor, _, snapshot, hown.ok.mapped, hrep, hsnapshot,
    hown.ok.caps.withinCaps (by rw [hidle]; rfl)⟩

/-- The blocks of a class that a call holds may join the cached ones. -/
theorem Inv.separate_inflight (hinv : Inv k bases larges g) (hclass : (k.pc t).listClass = some c) :
    Separate (Function.update (fun c => g (.cache t c)) c (g (.inflight t) ++ g (.cache t c))) := by
  apply hinv.storage.separate
  intro e a ha
  by_cases he : e = c
  · subst he
    rw [Function.update_self] at ha
    rcases List.mem_append.mp ha with ha | ha
    · exact (hinv.free_of_inflight hclass ha).1
    · exact (hinv.free_of_cache ha).1
  · rw [Function.update_of_ne he] at ha
    exact (hinv.free_of_cache ha).1

theorem Inv.refillFits (hinv : Inv k bases larges g) {r : Request} {capacity d : Nat}
    {available : TransferList} {descriptor : CacheDescriptor}
    (hpc : k.pc t = .refill r c capacity (some d) available)
    (hmapped : k.state.descriptor d = some descriptor) :
    RefillFits descriptor.cache c capacity ∧
      ∀ m cache available', threadCacheRefill k.state.memory descriptor.cache c capacity available
        = some (m, cache, available') → TakeFits cache c capacity := by
  obtain ⟨hfor, -⟩ : sizeClassFor r.size = some (c, capacity) ∧ some d = cacheCurrent k.state t :=
    hinv.fits_at hpc
  obtain ⟨-, -, rfl⟩ := sizeClassFor_eq_some hfor
  obtain ⟨descriptor', hown, hrep⟩ := hinv.cacheRep (hinv.refills_own hpc)
  obtain rfl := Option.some.inj (hmapped.symm.trans hown.ok.mapped)
  have hcaps : descriptor.cache.WithinCaps := hown.ok.caps.withinCaps (by rw [hpc]; rfl)
  refine ⟨⟨hcaps.counts c, hcaps.bytes, sizeClassCapacities_pos c⟩, fun m cache available' hrefill => ?_⟩
  have howns : available.Owns k.state.memory (g (.inflight t)) := by
    have hcarries := hinv.carries_at hpc
    exact hcarries.1
  obtain ⟨m₁, cache₁, available₁, hrefill₁, -, hrep₁⟩ := hrep.refill howns
    (fun a ha hmem => by simpa using hinv.placed.disjoint ha hmem)
    (hinv.separate_inflight (by rw [hpc]; rfl))
  obtain ⟨rfl, rfl, rfl⟩ : m₁ = m ∧ cache₁ = cache ∧ available₁ = available' := by
    simpa using hrefill₁.symm.trans hrefill
  exact hrep₁.takeFits c

end

theorem Inv.operationsFit (hinv : Inv k bases larges g) (w : World) (t : Tid) :
    OperationsFit w k t where
  allocateSmall r c capacity s d descriptor hpc hacquire hmapped := by
    have hfor : sizeClassFor r.size = some (c, capacity) := hinv.fits_at hpc
    obtain ⟨-, -, rfl⟩ := sizeClassFor_eq_some hfor
    obtain ⟨s', cache, hacquire', hcurrent, -, hinv'⟩ := hinv.acquire w (by rw [hpc]; rfl)
      (by rw [hpc]; rfl) (fun e he => by rw [hpc] at he; exact he) (fun s => by rw [hpc]; exact hfor)
    obtain ⟨rfl, rfl⟩ := Prod.mk.inj (Option.some.inj (hacquire'.symm.trans hacquire))
    have hd : (k.goto t s' (k.pc t)).cacheOf t = some d := by
      rw [Config.cacheOf_eq_current (by rw [Config.goto_pc, hpc]; rfl), Config.goto_state, ← hcurrent]
    obtain ⟨descriptor', hown, hrep⟩ := hinv'.cacheRep hd
    obtain rfl := Option.some.inj (hmapped.symm.trans hown.ok.mapped)
    exact hrep.takeFits c
  refill r c capacity d available descriptor := hinv.refillFits
  evict c d e descriptor hpc hmapped := by
    obtain ⟨descriptor', hown, hrep⟩ := hinv.cacheRep (hinv.evicts_own hpc)
    obtain rfl := Option.some.inj (hmapped.symm.trans hown.ok.mapped)
    exact hrep.evictionFits c
  flush d c rest teardown descriptor hpc hmapped := by
    obtain ⟨descriptor', hown, hrep⟩ := hinv.cacheRep (hinv.flushes_own hpc)
    obtain rfl := Option.some.inj (hmapped.symm.trans hown.ok.mapped)
    exact hrep.extractFits c sizeMax

/-- **Counters and caps.** In every reachable configuration of the cached build, whatever the other
threads do, the cache of an active thread between calls has counts equal to the lengths of its chains and
a byte total equal to the weight of its blocks, so that a snapshot reports a match, and it is within both
caps; and no subtraction inside a cache operation of any call wraps. Each operation alone keeps the
agreement, from every cache that has it. -/
theorem cache_bounds (w : World) :
    (∀ k : Config Tid, (machine Tid .cached w).Reachable k → ∀ t,
      (k.state.currentState t = .active → k.pc t = .idle →
        ∃ d, k.state.currentDescriptor t = some d ∧ CacheWithinBounds k.state d) ∧
      OperationsFit w k t) ∧
    ∀ m cache lists, CacheRep m cache lists → OperationsKeep m cache lists := by
  refine ⟨fun k hreach t => ?_, fun m cache lists hrep => hrep.operationsKeep⟩
  obtain ⟨bases, larges, g, hinv⟩ := safe_of_reachable hreach
  refine ⟨fun hactive hidle => ?_, hinv.operationsFit w t⟩
  have hlifecycle := (hinv.thread t).lifecycle
  rw [LifecycleOk, hactive] at hlifecycle
  obtain ⟨d, hcurrent, -⟩ := hlifecycle
  refine ⟨d, hcurrent, hinv.cacheWithinBounds hidle ?_⟩
  rw [cacheCurrent, if_pos hactive, hcurrent]

/-- After the first allocation of a thread its cache holds the blocks it was refilled with. -/
theorem cache_bounds_first_malloc : ∃ k : Config (Fin 2),
    (machine (Fin 2) .cached (bumpWorld fun _ => none)).Reachable k ∧
      k.state.currentState 0 = .active ∧ k.pc 0 = .idle ∧
      ∃ d, k.state.currentDescriptor 0 = some d ∧ CacheWithinBounds k.state d := by
  obtain ⟨k, hreach, hcheck⟩ := exists_makeMoves .cached (bumpWorld fun _ => none)
    (mallocMoves (0 : Fin 2))
    (fun k => decide (k.state.currentState 0 = .active ∧ k.pc 0 = .idle)) (by decide +kernel)
  obtain ⟨hactive, hidle⟩ := of_decide_eq_true hcheck
  exact ⟨k, hreach, hactive, hidle, ((cache_bounds _).1 k hreach 0).1 hactive hidle⟩

end Hplf
