import HplfMalloc.Proof.TransferSteps

/-!
# The cache of the acting thread

The invariant through the actions on one's own cache: taking a block for the client, refilling from a list
the call holds, storing a freed block, and extracting blocks to evict or flush.
-/

namespace Hplf

open Lib Memory

variable {Tid : Type}
variable {k : Config Tid} {t : Tid} {bases larges nodes : List Nat} {g : Place Tid → List Nat}
variable {c : ClassIndex} {pc : Pc} {d : Nat}

/-- The state after the cache of `descriptor` at `d` and the storage have changed. -/
def State.withDescriptorCache (s : State Tid) (d : Nat) (descriptor : CacheDescriptor) (m : Memory)
    (cache : ThreadCache) : State Tid :=
  { s with
    memory := m
    descriptor := Function.update s.descriptor d (some { descriptor with cache := cache }) }

theorem withCache_eq_some {α : Type} {s : State Tid} {descriptor : CacheDescriptor}
    (operation : Memory → ThreadCache → Option (Memory × ThreadCache × α)) {m : Memory}
    {cache : ThreadCache} {result : α} (hmapped : s.descriptor d = some descriptor)
    (hoperation : operation s.memory descriptor.cache = some (m, cache, result)) :
    withCache s d operation = some (s.withDescriptorCache d descriptor m cache, result) := by
  simp [withCache, hmapped, hoperation, State.withDescriptorCache]

theorem withDescriptorCache_self {s : State Tid} {descriptor : CacheDescriptor}
    (hmapped : s.descriptor d = some descriptor) :
    s.withDescriptorCache d descriptor s.memory descriptor.cache = s := by
  rw [State.withDescriptorCache, ← hmapped, Function.update_eq_self]


/-- What the invariant says of a cache in use. -/
structure OwnCache (k : Config Tid) (t : Tid) (g : Place Tid → List Nat) (d : Nat)
    (descriptor : CacheDescriptor) : Prop where
  ok : DescriptorOk k.state (k.pc t) d descriptor
  chain : ∀ c, Chain k.state.memory.next (descriptor.cache.heads c) (g (.cache t c))
  count : ∀ c, descriptor.cache.counts c = (g (.cache t c)).length

theorem Inv.ownCache (hinv : Inv k bases larges g) (hd : k.cacheOf t = some d) :
    ∃ descriptor, OwnCache k t g d descriptor := by
  obtain ⟨descriptor, hok⟩ := (hinv.thread t).descriptor d hd
  have hlist : ∀ c, Chain k.state.memory.next (descriptor.cache.heads c) (g (.cache t c)) ∧
      descriptor.cache.counts c = (g (.cache t c)).length := by
    intro c
    obtain ⟨descriptor', hmapped, hchain, hcount⟩ := (holds_cache_some hd).mp (hinv.holds (.cache t c))
    obtain rfl := Option.some.inj (hmapped.symm.trans hok.mapped)
    exact ⟨hchain, hcount⟩
  exact ⟨descriptor, hok, fun c => (hlist c).1, fun c => (hlist c).2⟩

theorem Inv.cache_eq_nil (hinv : Inv k bases larges g) (hd : k.cacheOf t = none) (c : ClassIndex) :
    g (.cache t c) = [] :=
  (holds_cache_none hd).mp (hinv.holds (.cache t c))

theorem Config.cacheOf_eq_current (hteardown : (k.pc t).teardown = none) :
    k.cacheOf t = cacheCurrent k.state t := by
  rw [Config.cacheOf, hteardown]

/-- A call works on the cache of its own thread. -/
theorem Inv.refills_own (hinv : Inv k bases larges g) {r : Request} {capacity : Nat} {cache : Ptr}
    {available : TransferList} (hpc : k.pc t = .refill r c capacity cache available) :
    k.cacheOf t = cache :=
  (Config.cacheOf_eq_current (by rw [hpc]; rfl)).trans (hinv.fits_at hpc).2.symm

theorem Inv.evicts_own (hinv : Inv k bases larges g) {savedErrno : Errno}
    (hpc : k.pc t = .evict c d savedErrno) : k.cacheOf t = some d :=
  (Config.cacheOf_eq_current (by rw [hpc]; rfl)).trans (hinv.fits_at hpc)

theorem Inv.flushes_own (hinv : Inv k bases larges g) {rest : List ClassIndex} {teardown : Bool}
    (hpc : k.pc t = .flush d rest teardown) : k.cacheOf t = some d := by
  cases teardown with
  | true =>
      rw [Config.cacheOf, hpc]
      rfl
  | false => exact (Config.cacheOf_eq_current (by rw [hpc]; rfl)).trans (hinv.fits_at hpc)

variable [DecidableEq Tid]

/-- The invariant after a call rearranged its blocks and those of one list of its thread's cache. -/
theorem Inv.exchangeCache (hinv : Inv k bases larges g) {descriptor : CacheDescriptor}
    (hd : k.cacheOf t = some d) (hown : OwnCache k t g d descriptor) {m : Memory} {head : Ptr}
    {count total : Nat} {ys zs : List Nat}
    (hframe : Framed nodes k.state.memory m) (hsize : m.size = k.state.memory.size)
    (hchain : Chain m.next head ys) (hcount : count = ys.length)
    (hfree : ∀ a ∈ ys, FreeIn k.state.memory bases c a)
    (hperm : (ys ++ zs).Perm (g (.cache t c) ++ g (.inflight t)))
    (hnodes : ∀ a ∈ nodes, a ∈ g (.cache t c) ∨ a ∈ g (.inflight t))
    (hsound : (descriptor.cache.withClass c head count total).Sound)
    (hcaps : CapsFor pc (descriptor.cache.withClass c head count total))
    (hfollows : (k.pc t).Follows pc)
    (hemptied : ∀ e, pc.Emptied e → (e = c ∧ ys = []) ∨ (e ≠ c ∧ (k.pc t).Emptied e))
    (hfits : pc.Fits k.state t)
    (hcarries : pc.Carries m zs) (hadmits : ∀ a ∈ zs, pc.Admits m bases larges a) :
    Inv (k.goto t (k.state.withDescriptorCache d descriptor m
        (descriptor.cache.withClass c head count total)) pc) bases larges
      (replace₂ g (.cache t c) (.inflight t) ys zs) := by
  have hlists : ListsOnly k.state (k.state.withDescriptorCache d descriptor m
      (descriptor.cache.withClass c head count total)) := ⟨_, _, _, _, rfl⟩
  have hstep : LocalStep k (k.goto t (k.state.withDescriptorCache d descriptor m
      (descriptor.cache.withClass c head count total)) pc) t nodes := by
    refine Config.goto_localStep rfl rfl rfl hframe hlists (fun e he => ?_) hfollows.teardown
    exact Function.update_of_ne (fun h => he (by rw [hd, h])) _ _
  refine hinv.exchange (p := .cache t c) hstep (hfollows.sameCall _) rfl hperm hnodes
    ?_ ?_ ?_ ?_ ?_ ?_ ?_ ?_ ?_
  · intro q hcache hinflight
    refine hstep.sameHead hinv hinflight (fun _ => rfl) (fun _ _ => rfl) ?_
    rintro e rfl
    have hne : e ≠ c := fun h => hcache (by rw [h])
    refine ⟨hstep.cacheOf, fun d' hd' descriptor' hmapped => ?_⟩
    obtain rfl := Option.some.inj (hd.symm.trans hd')
    obtain rfl := Option.some.inj (hmapped.symm.trans hown.ok.mapped)
    refine ⟨{ descriptor' with cache := descriptor'.cache.withClass c head count total }, ?_, ?_, ?_⟩
    · simp [State.withDescriptorCache]
    · simp [ThreadCache.withClass, hne]
    · simp [ThreadCache.withClass, hne]
  · intro a ha hdead
    exact absurd ha hdead
  · refine (holds_cache_some (hstep.cacheOf.trans hd)).mpr
      ⟨{ descriptor with cache := descriptor.cache.withClass c head count total }, ?_, ?_, ?_⟩
    · simp [State.withDescriptorCache]
    · simpa [ThreadCache.withClass, State.withDescriptorCache] using hchain
    · simpa [ThreadCache.withClass] using hcount
  · rw [Config.goto_pc]
    exact hcarries
  · intro a ha
    exact (hfree a ha).congr hframe.slab (congrFun hsize a)
  · rw [Config.goto_pc]
    exact hadmits
  · intro e he
    rw [Config.goto_pc] at he
    rcases hemptied e he with ⟨rfl, rfl⟩ | ⟨hne, hold⟩
    · exact replace₂_left (by simp)
    · rw [replace₂_of_ne (by simpa using hne) (by simp)]
      exact hinv.emptied t e hold
  · intro d' hd'
    rw [hstep.cacheOf] at hd'
    obtain rfl := Option.some.inj (hd.symm.trans hd')
    refine ⟨{ descriptor with cache := descriptor.cache.withClass c head count total }, ?_⟩
    refine ⟨by simp [State.withDescriptorCache], hown.ok.base, hown.ok.region, hsound, ?_⟩
    rw [Config.goto_pc]
    exact hcaps
  · rw [Config.goto_pc]
    exact hlists.fits hfits

/-! ### Caps -/

theorem ThreadCache.WithinCaps.withClass {cache : ThreadCache} (hcaps : cache.WithinCaps) {head : Ptr}
    {count total : Nat} (hcount : count ≤ cacheClassBlockLimit)
    (htotal : total ≤ cacheTotalBytesLimit) : (cache.withClass c head count total).WithinCaps := by
  refine ⟨fun e => ?_, htotal⟩
  by_cases he : e = c
  · subst he
    simpa [ThreadCache.withClass] using hcount
  · simpa [ThreadCache.withClass, he] using hcaps.counts e

/-- Shrinking one class keeps whatever part of the caps holds. -/
theorem CapsFor.shrink {cache : ThreadCache} {pc q : Pc} (hcaps : CapsFor pc cache)
    (hevicting : q.evicting = pc.evicting) {head : Ptr} {count total : Nat}
    (hcount : count ≤ cache.counts c) (htotal : total ≤ cache.totalSlotBytes) :
    CapsFor q (cache.withClass c head count total) := by
  unfold CapsFor at *
  rw [hevicting]
  cases hpc : pc.evicting with
  | none =>
      rw [hpc] at hcaps
      exact hcaps.withClass (hcount.trans (hcaps.counts c)) (htotal.trans hcaps.bytes)
  | some e =>
      rw [hpc] at hcaps
      obtain ⟨hcounts, hbytes⟩ := hcaps
      refine ⟨fun f hf => ?_, htotal.trans hbytes⟩
      by_cases hfc : f = c
      · subst hfc
        simpa [ThreadCache.withClass] using hcount.trans (hcounts f hf)
      · simpa [ThreadCache.withClass, hfc] using hcounts f hf

theorem CapsFor.withinCaps {cache : ThreadCache} (hcaps : CapsFor pc cache)
    (hevicting : pc.evicting = none) : cache.WithinCaps := by
  unfold CapsFor at hcaps
  rwa [hevicting] at hcaps

/-! ### Taking for the client -/

/-- The call holds one block and nothing else. -/
def Pc.hand (r : Request) (c : ClassIndex) (a : Nat) : Pc := .publishRest r c .clear (some a)

theorem Pc.carries_hand (r : Request) (c : ClassIndex) (a : Nat) (m : Memory) :
    (Pc.hand r c a).Carries m [a] :=
  ⟨a, [], rfl, rfl, TransferList.owns_clear m⟩

@[simp]
theorem Config.goto_goto (s s' : State Tid) (pc pc' : Pc) :
    (k.goto t s pc).goto t s' pc' = k.goto t s' pc' := by
  simp [Config.goto]

omit [DecidableEq Tid] in
theorem setRequestedSize_eq {s : State Tid} {a n : Nat} {m : Memory}
    (hset : s.memory.setRequestedSize a n = some m) :
    setRequestedSize s a n = some { s with memory := m } := by
  simp [setRequestedSize, hset]

/-- A block in hand gets its requested size and goes to the client. -/
theorem Inv.handOut (hinv : Inv k bases larges g) {r : Request} (available : TransferList) {a : Nat}
    (hpc : k.pc t = .publishRest r c available (some a)) (hmine : g (.inflight t) = [a]) :
    ∃ s, setRequestedSize k.state a r.size = some s ∧ Quiet k s ∧
      Inv (k.goto t s (.deliver r a)) bases larges g := by
  have ha : a ∈ g (.inflight t) := by simp [hmine]
  obtain ⟨q, hq⟩ := hinv.exists_next ha
  obtain ⟨m, hset, hframe, -, hsize⟩ := exists_setRequestedSize hq r.size
  obtain ⟨hclass, -⟩ := hinv.free_of_inflight (c := c) (by rw [hpc]; rfl) ha
  obtain ⟨capacity, hfor⟩ : ∃ capacity, sizeClassFor r.size = some (c, capacity) := hinv.fits_at hpc
  obtain ⟨-, -, rfl⟩ := sizeClassFor_eq_some hfor
  refine ⟨_, setRequestedSize_eq hset, Quiet.of_framed ⟨_, _, _, _, rfl⟩ hframe ?_, ?_⟩
  · intro b hb
    rw [List.mem_singleton.mp hb]
    exact hinv.not_live (by simp) ha
  refine hinv.rewrite hframe (fun b hb => List.mem_singleton.mp hb ▸ ha) ?_ (by rw [hpc]; rfl)
    (fun e he => he.elim) trivial hmine ?_
  · rw [hpc]
    exact ⟨rfl, fun _ h => h, Iff.rfl⟩
  · intro b hb
    rw [hmine, List.mem_singleton] at hb
    subst hb
    exact ⟨by simp [hsize], Or.inl ⟨c, hclass.congr hframe.slab, hfor⟩⟩

/-- **Local take.** Either the list is empty and nothing happens, or its head comes into the call's hands. -/
theorem Inv.takeLocal (hinv : Inv k bases larges g) (hteardown : (k.pc t).teardown = none)
    (hevicting : (k.pc t).evicting = none) (hmine : g (.inflight t) = []) (c : ClassIndex) :
    (takeLocal k.state (cacheCurrent k.state t) c (sizeClassCapacities c) = some (k.state, none) ∧
        g (.cache t c) = []) ∨
      ∃ a rest s, g (.cache t c) = a :: rest ∧
        takeLocal k.state (cacheCurrent k.state t) c (sizeClassCapacities c) = some (s, some a) ∧
        Quiet k s ∧
        ∀ r, (k.pc t).Follows (.hand r c a) → sizeClassFor r.size = some (c, sizeClassCapacities c) →
          Inv (k.goto t s (.hand r c a)) bases larges
            (replace₂ g (.cache t c) (.inflight t) rest [a]) := by
  cases hcurrent : cacheCurrent k.state t with
  | none =>
      have hnone : k.cacheOf t = none := (Config.cacheOf_eq_current hteardown).trans hcurrent
      exact Or.inl ⟨rfl, hinv.cache_eq_nil hnone c⟩
  | some d =>
      have hd : k.cacheOf t = some d := (Config.cacheOf_eq_current hteardown).trans hcurrent
      obtain ⟨descriptor, hown⟩ := hinv.ownCache hd
      have hchain := hown.chain c
      have hcount := hown.count c
      cases hlist : g (.cache t c) with
      | nil =>
          rw [hlist] at hchain
          refine Or.inl ⟨?_, rfl⟩
          rw [Hplf.takeLocal, withCache_eq_some _ hown.ok.mapped (threadCacheTake_miss hchain),
            withDescriptorCache_self hown.ok.mapped]
      | cons a rest =>
          rw [hlist] at hchain hcount
          obtain ⟨m, htake, hframe, hsize, hrest⟩ :=
            threadCacheTake_hit hown.ok.sound hchain hcount
          have ha : a ∈ g (.cache t c) := by simp [hlist]
          have hresult := withCache_eq_some (fun m cache =>
            threadCacheTake m cache c (sizeClassCapacities c)) hown.ok.mapped htake
          refine Or.inr ⟨a, rest, _, rfl, hresult,
            Quiet.of_framed ⟨_, _, _, _, rfl⟩ hframe ?_, ?_⟩
          · intro b hb
            rw [List.mem_singleton.mp hb]
            exact hinv.not_live (by simp) ha
          intro r hfollows hfor
          have hmul := hown.ok.sound.mul_le c
          have hbounded := hown.ok.sound.bounded
          rw [hcount, List.length_cons, Nat.succ_mul] at hmul
          refine hinv.exchangeCache hd hown hframe hsize hrest rfl ?_ ?_ ?_ ?_ ?_ hfollows
            (fun e he => he.elim) ⟨_, hfor⟩ (Pc.carries_hand r c a m) ?_
          · intro b hb
            exact hinv.free_of_cache (t := t) (by simp [hlist, hb])
          · rw [hlist, hmine, List.append_nil]
            exact List.perm_append_singleton a rest
          · intro b hb
            rw [List.mem_singleton.mp hb]
            exact Or.inl ha
          · refine hown.ok.sound.withClass ?_ (by omega)
            rw [hcount, List.length_cons, Nat.succ_mul]
            omega
          · exact hown.ok.caps.shrink (q := .hand r c a) hevicting.symm
              (by rw [hcount, List.length_cons]; omega) (by omega)
          · intro b hb
            rw [List.mem_singleton.mp hb]
            apply Pc.admits_of_free (c := c) rfl
            exact (hinv.free_of_cache ha).congr hframe.slab (congrFun hsize a)

/-! ### Refilling -/

theorem ThreadCache.withClass_withClass (cache : ThreadCache) (head head' : Ptr)
    (count count' total total' : Nat) :
    (cache.withClass c head count total).withClass c head' count' total'
      = cache.withClass c head' count' total' := by
  simp [ThreadCache.withClass]

omit [DecidableEq Tid] in
theorem withDescriptorCache_twice {s : State Tid} {descriptor : CacheDescriptor} {m m' : Memory}
    {cache cache' : ThreadCache} :
    (s.withDescriptorCache d descriptor m cache).withDescriptorCache d
        { descriptor with cache := cache } m' cache'
      = s.withDescriptorCache d descriptor m' cache' := by
  simp [State.withDescriptorCache]

/-- Taking the first block of a nonempty list directly. -/
theorem takeDirect_of_owns {m : Memory} {available : TransferList} {a : Nat} {xs : List Nat}
    (howns : available.Owns m (a :: xs)) (hlength : (a :: xs).length < addressSpace) :
    ∃ m' rest direct, transferListTakePrefix m available 1 = some (m', rest, direct) ∧
      direct.first = some a ∧ rest.Owns m' xs ∧ Framed [a] m m' ∧ m'.size = m.size := by
  obtain ⟨m', rest, direct, htake, hdirect, hrest, hcount, hlast, hframe, hsize⟩ :=
    transferListTakePrefix_of_chain _ howns.chain howns.count hlength 1
  exact ⟨m', rest, direct, htake, hdirect.chain.1, ⟨hrest, hlast howns.last, hcount⟩, hframe, hsize⟩

/-- What a refill followed by a take does, on the lists: the client gets `a`, the cache ends with `ys'`
and the list with `zs'`. -/
structure Refills (s : State Tid) (d : Nat) (descriptor : CacheDescriptor) (c : ClassIndex)
    (xs ys : List Nat) (s' : State Tid) (rest : TransferList) (a : Nat) (ys' zs' : List Nat) (m : Memory)
    (total : Nat) : Prop where
  state_eq : s' = s.withDescriptorCache d descriptor m
    (descriptor.cache.withClass c ys'.head? ys'.length total)
  perm : (ys' ++ a :: zs').Perm (ys ++ xs)
  chain : Chain m.next ys'.head? ys'
  owns : rest.Owns m zs'
  framed : Framed (ys ++ xs) s.memory m
  size : m.size = s.memory.size
  sound : (descriptor.cache.withClass c ys'.head? ys'.length total).Sound
  caps : (descriptor.cache.withClass c ys'.head? ys'.length total).WithinCaps
  newly : ys = [] → ys'.length < cacheRefillLimit

omit [DecidableEq Tid] in
theorem refillAndTake_of_chains {s : State Tid} {descriptor : CacheDescriptor}
    {available : TransferList} {xs ys : List Nat} (hmapped : s.descriptor d = some descriptor)
    (hsound : descriptor.cache.Sound) (hcaps : descriptor.cache.WithinCaps)
    (howns : available.Owns s.memory xs) (hne : xs ≠ []) (hlength : xs.length < addressSpace)
    (hchain : Chain s.memory.next (descriptor.cache.heads c) ys)
    (hcount : descriptor.cache.counts c = ys.length) (hdisj : ∀ a ∈ xs, a ∉ ys) :
    ∃ s' rest a ys' zs' m total,
      refillAndTake s (some d) c (sizeClassCapacities c) available = some (s', rest, some a) ∧
        Refills s d descriptor c xs ys s' rest a ys' zs' m total := by
  obtain ⟨m₁, available₁, hrefill, howns₁, hchain₁, hframe₁, hsize₁⟩ :=
    threadCacheRefill_of_chain (sizeClassCapacities c) howns hlength hchain hdisj
  set n := refillLimit descriptor.cache c (sizeClassCapacities c) with hn
  set cache₁ := descriptor.cache.withClass c (xs.take n ++ ys).head?
    (descriptor.cache.counts c + (xs.take n).length)
    (descriptor.cache.totalSlotBytes + (xs.take n).length * sizeClassCapacities c) with hcache₁
  have hrefilled := withCache_eq_some (fun m cache =>
    threadCacheRefill m cache c (sizeClassCapacities c) available) hmapped hrefill
  have hmapped₁ : (s.withDescriptorCache d descriptor m₁ cache₁).descriptor d
      = some { descriptor with cache := cache₁ } := by
    simp [State.withDescriptorCache]
  -- The accepted blocks fit both caps.
  obtain ⟨hroom, hspace⟩ := refillLimit_spec (c := c) hcaps
  rw [← hn] at hroom hspace
  have hle : (xs.take n).length ≤ n := by simp
  have hmul := Nat.mul_le_mul_right (sizeClassCapacities c) hle
  have hlimit : cacheTotalBytesLimit < 2 ^ 64 := by decide
  have hsound₁ : cache₁.Sound := by
    refine hsound.withClass ?_ (by omega)
    rw [Nat.add_mul]
    omega
  have hcaps₁ : cache₁.WithinCaps := hcaps.withClass (by omega) (by omega)
  have hcount₁ : cache₁.counts c = (xs.take n ++ ys).length := by
    simp [hcache₁, ThreadCache.withClass, hcount, Nat.add_comm]
  have hheads₁ : cache₁.heads c = (xs.take n ++ ys).head? := by
    simp [hcache₁, ThreadCache.withClass]
  have hsub : Framed (ys ++ xs) s.memory m₁ := hframe₁.mono fun b hb =>
    List.mem_append_right ys (List.mem_of_mem_take hb)
  cases hlist : xs.take n ++ ys with
  | nil =>
      -- No room at all: the client's block comes straight from the list.
      obtain ⟨htake, rfl⟩ := List.append_eq_nil_iff.mp hlist
      have hdrop : xs.drop n = xs := by
        have hsplit := List.take_append_drop n xs
        rwa [htake, List.nil_append] at hsplit
      obtain ⟨a, tail, rfl⟩ := List.exists_cons_of_ne_nil hne
      rw [hdrop] at howns₁
      obtain ⟨m₂, rest, direct, hdirect, hfirst, hrest, hframe₂, hsize₂⟩ :=
        takeDirect_of_owns howns₁ hlength
      have hmiss := withCache_eq_some (fun m cache =>
        threadCacheTake m cache c (sizeClassCapacities c)) hmapped₁
        (threadCacheTake_miss (by rw [hheads₁, hlist]; rfl))
      rw [withDescriptorCache_self hmapped₁] at hmiss
      refine ⟨(s.withDescriptorCache d descriptor m₂ cache₁), rest, a, [], tail, m₂,
        cache₁.totalSlotBytes, ?_, ?_⟩
      · simp only [refillAndTake, hrefilled, takeLocal, hmiss, Option.bind_eq_bind, Option.bind_some]
        rw [show (s.withDescriptorCache d descriptor m₁ cache₁).memory = m₁ from rfl, hdirect]
        simp [hfirst, State.withDescriptorCache]
      · have hsame : cache₁ = descriptor.cache.withClass c ([] : List Nat).head? ([] : List Nat).length
            cache₁.totalSlotBytes := by
          simp [hcache₁, htake, hcount, ThreadCache.withClass]
        refine ⟨by rw [← hsame], by simp, rfl, hrest, ?_, hsize₂.trans hsize₁, by rwa [← hsame],
          by rwa [← hsame], fun _ => by decide⟩
        exact hsub.trans (hframe₂.mono (by simp))
  | cons a rest =>
      rw [hlist] at hchain₁ hcount₁ hheads₁
      have hheadChain : Chain m₁.next (cache₁.heads c) (a :: rest) := hheads₁ ▸ hchain₁
      obtain ⟨m₂, htake, hframe₂, hsize₂, hrest⟩ :=
        threadCacheTake_hit hsound₁ hheadChain (by simpa using hcount₁)
      have htaken := withCache_eq_some (fun m cache =>
        threadCacheTake m cache c (sizeClassCapacities c)) hmapped₁ htake
      have htwice : ∀ head count total, cache₁.withClass c head count total
          = descriptor.cache.withClass c head count total := fun _ _ _ =>
        ThreadCache.withClass_withClass _ _ _ _ _ _ _
      rw [withDescriptorCache_twice, htwice] at htaken
      have ha : a ∈ ys ++ xs := by
        have hmem : a ∈ xs.take n ++ ys := by simp [hlist]
        rcases List.mem_append.mp hmem with h | h
        · exact List.mem_append_right _ (List.mem_of_mem_take h)
        · exact List.mem_append_left _ h
      have hperm : (rest ++ a :: xs.drop n).Perm (ys ++ xs) := by
        calc (rest ++ a :: xs.drop n).Perm (a :: rest ++ xs.drop n) := List.perm_middle
          _ = xs.take n ++ ys ++ xs.drop n := by rw [hlist]
          List.Perm _ (ys ++ xs.take n ++ xs.drop n) := List.perm_append_comm.append_right _
          _ = ys ++ xs := by rw [List.append_assoc, List.take_append_drop]
      have hnotDrop : ∀ b ∈ xs.drop n, b ∉ [a] := by
        intro b hb hmem
        rw [List.mem_singleton] at hmem
        subst hmem
        have hnodup : (ys ++ xs).Nodup := by
          refine List.nodup_append.mpr ⟨hchain.nodup, howns.chain.nodup, ?_⟩
          rintro x hx y hy rfl
          exact hdisj x hy hx
        have hcons := (List.perm_middle.nodup_iff.mp (hperm.nodup_iff.mpr hnodup))
        exact (List.nodup_cons.mp hcons).1 (List.mem_append_right _ hb)
      have hmul₁ := hsound₁.mul_le c
      have hbounded₁ := hsound₁.bounded
      rw [hcount₁, List.length_cons, Nat.succ_mul] at hmul₁
      refine ⟨_, available₁, a, rest, xs.drop n, m₂,
        cache₁.totalSlotBytes - sizeClassCapacities c, ?_, ⟨rfl, hperm, hrest,
          howns₁.congr fun b hb => hframe₂.next (hnotDrop b hb), ?_, hsize₂.trans hsize₁, ?_, ?_, ?_⟩⟩
      · simp only [refillAndTake, hrefilled, takeLocal, htaken, Option.bind_eq_bind, Option.bind_some]
      · exact hsub.trans (hframe₂.mono (by simpa using ha))
      · rw [← htwice]
        refine hsound₁.withClass ?_ (by omega)
        rw [hcount₁, List.length_cons, Nat.succ_mul]
        omega
      · apply hcaps.withClass
        · have := hcaps₁.counts c
          rw [hcount₁, List.length_cons] at this
          omega
        · have := hcaps₁.bytes
          omega
      · rintro rfl
        have hlimit : n ≤ cacheRefillLimit := refillLimit_le
        have hlength := congrArg List.length hlist
        rw [List.append_nil, List.length_cons] at hlength
        omega

/-- **Refill.** A call that holds available blocks ends up with one for the client in its hands. -/
theorem Inv.refillAndTake (hinv : Inv k bases larges g) {r : Request} {capacity : Nat} {cache : Ptr}
    {available : TransferList} (hpc : k.pc t = .refill r c capacity cache available) :
    ∃ s rest a ys zs,
      refillAndTake k.state cache c capacity available = some (s, rest, some a) ∧ Quiet k s ∧
        (ys ++ a :: zs).Perm (g (.cache t c) ++ g (.inflight t)) ∧
        Inv (k.goto t s (.publishRest r c rest (some a))) bases larges
          (replace₂ g (.cache t c) (.inflight t) ys (a :: zs)) := by
  obtain ⟨hfor, rfl⟩ : sizeClassFor r.size = some (c, capacity) ∧ cache = cacheCurrent k.state t :=
    hinv.fits_at hpc
  obtain ⟨-, -, rfl⟩ := sizeClassFor_eq_some hfor
  obtain ⟨howns, hne⟩ : available.Owns k.state.memory (g (.inflight t)) ∧ g (.inflight t) ≠ [] :=
    hinv.carries_at hpc
  have hclass : (k.pc t).listClass = some c := by rw [hpc]; rfl
  have hfollows : ∀ rest a, (k.pc t).Follows (.publishRest r c rest (some a)) := by
    intro rest a
    rw [hpc]
    exact ⟨rfl, fun _ h => h, Iff.rfl⟩
  have hlength := hinv.length_lt (.inflight t)
  cases hcurrent : cacheCurrent k.state t with
  | none =>
      obtain ⟨a, tail, hlist⟩ := List.exists_cons_of_ne_nil hne
      rw [hlist] at howns hlength
      obtain ⟨m, rest, direct, htake, hfirst, hrest, hframe, hsize⟩ :=
        takeDirect_of_owns howns hlength
      have hnodes : ∀ b ∈ [a], b ∈ g (.inflight t) := by simp [hlist]
      have hnil : g (.cache t c) = [] :=
        hinv.cache_eq_nil ((Config.cacheOf_eq_current (by rw [hpc]; rfl)).trans hcurrent) c
      refine ⟨{ k.state with memory := m }, rest, a, [], tail, ?_, Quiet.of_framed ⟨_, _, _, _, rfl⟩
        hframe fun b hb => hinv.not_live (by simp) (hnodes b hb), by simp [hnil, hlist], ?_⟩
      · simp [Hplf.refillAndTake, htake, hfirst]
      have hsame : replace₂ g (.cache t c) (.inflight t) [] (a :: tail) = g := by
        rw [replace₂, ← hnil, Function.update_eq_self, ← hlist, Function.update_eq_self]
      rw [hsame]
      refine hinv.rewrite hframe hnodes (hfollows rest a) (by rw [hpc]; rfl) (fun e he => he.elim)
        ⟨_, hfor⟩ ?_ ?_
      · rw [hlist]
        exact ⟨a, tail, rfl, rfl, hrest⟩
      · intro b hb
        apply Pc.admits_of_free (c := c) rfl
        exact (hinv.free_of_inflight hclass hb).congr hframe.slab (congrFun hsize b)
  | some d =>
      have hd : k.cacheOf t = some d :=
        (Config.cacheOf_eq_current (by rw [hpc]; rfl)).trans hcurrent
      obtain ⟨descriptor, hown⟩ := hinv.ownCache hd
      have hdisj : ∀ a ∈ g (.inflight t), a ∉ g (.cache t c) := by
        intro a ha hcache
        have heq := hinv.placed.disjoint ha hcache
        simp at heq
      obtain ⟨s, rest, a, ys, zs, m, total, hresult, hrefills⟩ :=
        refillAndTake_of_chains hown.ok.mapped hown.ok.sound
          (hown.ok.caps.withinCaps (by rw [hpc]; rfl)) howns hne hlength (hown.chain c)
          (hown.count c) hdisj
      obtain ⟨rfl, hperm, hchain, hrest, hframe, hsize, hsound, hcaps, -⟩ := hrefills
      have hnodes : ∀ b ∈ g (.cache t c) ++ g (.inflight t),
          FreeIn k.state.memory bases c b := by
        intro b hb
        rcases List.mem_append.mp hb with h | h
        · exact hinv.free_of_cache h
        · exact hinv.free_of_inflight hclass h
      refine ⟨_, rest, a, ys, zs, hresult, Quiet.of_framed ⟨_, _, _, _, rfl⟩ hframe ?_, hperm, ?_⟩
      · intro b hb
        rcases List.mem_append.mp hb with h | h
        · exact hinv.not_live (by simp) h
        · exact hinv.not_live (by simp) h
      refine hinv.exchangeCache hd hown hframe hsize hchain rfl ?_ hperm
        (fun b hb => List.mem_append.mp hb) hsound hcaps (hfollows rest a) (fun e he => he.elim)
        ⟨_, hfor⟩ ⟨a, zs, rfl, rfl, hrest⟩ ?_
      · intro b hb
        exact hnodes b (hperm.mem_iff.mp (List.mem_append_left _ hb))
      · intro b hb
        apply Pc.admits_of_free (c := c) rfl
        exact (hnodes b (hperm.mem_iff.mp (List.mem_append_right _ hb))).congr hframe.slab
          (congrFun hsize b)

/-! ### Storing, evicting and flushing -/

/-- **Store.** A freed block in hand goes into the thread's cache. -/
theorem Inv.store (hinv : Inv k bases larges g) {r : Request} {a : Nat}
    (hpc : k.pc t = .hand r c a) (hmine : g (.inflight t) = [a])
    (hcurrent : cacheCurrent k.state t = some d) (savedErrno : Errno) :
    ∃ s, (withCache k.state d fun m cache =>
        (threadCacheStore m cache c (sizeClassCapacities c) a).map fun (m, cache) => (m, cache, ()))
          = some (s, ()) ∧ Quiet k s ∧
      Inv (k.goto t s (.evict c d savedErrno)) bases larges
        (replace₂ g (.cache t c) (.inflight t) (a :: g (.cache t c)) []) := by
  have hd : k.cacheOf t = some d := (Config.cacheOf_eq_current (by rw [hpc]; rfl)).trans hcurrent
  obtain ⟨descriptor, hown⟩ := hinv.ownCache hd
  have ha : a ∈ g (.inflight t) := by simp [hmine]
  obtain ⟨q, hq⟩ := hinv.exists_next ha
  have hnotMem : a ∉ g (.cache t c) := by
    intro hcache
    have heq := hinv.placed.disjoint ha hcache
    simp at heq
  obtain ⟨m, hstore, hframe, hsize, hchain⟩ :=
    threadCacheStore_of_chain (sizeClassCapacities c) hq (hown.chain c) hnotMem
  have hresult := withCache_eq_some (fun m cache =>
    (threadCacheStore m cache c (sizeClassCapacities c) a).map fun (m, cache) => (m, cache, ()))
    hown.ok.mapped (by rw [hstore]; rfl)
  have hcaps := hown.ok.caps.withinCaps (by rw [hpc]; rfl)
  have hbytes := hcaps.bytes
  have hcapacity := sizeClassCapacities_le c
  refine ⟨_, hresult, Quiet.of_framed ⟨_, _, _, _, rfl⟩ hframe ?_, ?_⟩
  · intro b hb
    rw [List.mem_singleton.mp hb]
    exact hinv.not_live (by simp) ha
  refine hinv.exchangeCache hd hown hframe hsize hchain ?_ ?_ ?_ ?_ ?_ ?_ ?_ (fun e he => he.elim)
    hcurrent rfl (by simp)
  · rw [hown.count c, List.length_cons]
  · intro b hb
    rcases List.mem_cons.mp hb with rfl | hb
    · exact hinv.free_of_inflight (by rw [hpc]; rfl) ha
    · exact hinv.free_of_cache hb
  · rw [hmine, List.append_nil]
    exact (List.perm_append_singleton a _).symm
  · intro b hb
    rw [List.mem_singleton.mp hb]
    exact Or.inr ha
  · have hlimit : cacheTotalBytesLimit + maxSmallSize < 2 ^ 64 := by decide
    refine hown.ok.sound.withClass ?_ (by omega)
    rw [Nat.succ_mul]
    omega
  · refine ⟨fun e he => ?_, ?_⟩
    · simpa [ThreadCache.withClass, he] using hcaps.counts e
    · change descriptor.cache.totalSlotBytes + sizeClassCapacities c ≤ _
      omega
  · rw [hpc]
    refine ⟨rfl, fun b hb => ?_, Iff.rfl⟩
    simp [Pc.argument] at hb

/-- The invariant after the first blocks of one cache list were extracted into the call's hands. -/
theorem Inv.extract (hinv : Inv k bases larges g) (pc : Pc) (hd : k.cacheOf t = some d)
    {descriptor : CacheDescriptor} (hown : OwnCache k t g d descriptor)
    (hmine : g (.inflight t) = []) {e : ClassIndex} {n : Nat} {m : Memory} {cache : ThreadCache}
    {list : TransferList}
    (hextracts : Extracts (fun e => g (.cache t e)) descriptor.cache e n k.state.memory m cache list)
    (hclass : pc.listClass = some e)
    (hcarries : ∀ xs, list.Owns m xs → pc.Carries m xs) (hfollows : (k.pc t).Follows pc)
    (hevicting : pc.evicting = (k.pc t).evicting)
    (hemptied : ∀ f, pc.Emptied f →
      (f = e ∧ (g (.cache t e)).drop n = []) ∨ (f ≠ e ∧ (k.pc t).Emptied f))
    (hfits : pc.Fits k.state t) :
    Quiet k (k.state.withDescriptorCache d descriptor m cache) ∧
      Inv (k.goto t (k.state.withDescriptorCache d descriptor m cache) pc) bases larges
        (replace₂ g (.cache t e) (.inflight t) ((g (.cache t e)).drop n) ((g (.cache t e)).take n)) := by
  obtain ⟨-, rfl, houtput, hrest, hframe, hsize⟩ := hextracts
  have hmem : ∀ b ∈ (g (.cache t e)).take n, b ∈ g (.cache t e) := fun b hb =>
    List.mem_of_mem_take hb
  have hlen : ((g (.cache t e)).take n).length + ((g (.cache t e)).drop n).length
      = (g (.cache t e)).length := by
    rw [← List.length_append, List.take_append_drop]
  have hmul := hown.ok.sound.mul_le e
  have hbounded := hown.ok.sound.bounded
  rw [hown.count e, ← hlen, Nat.add_mul] at hmul
  refine ⟨Quiet.of_framed ⟨_, _, _, _, rfl⟩ hframe fun b hb => hinv.not_live (by simp) (hmem b hb),
    hinv.exchangeCache hd hown hframe hsize hrest rfl ?_ ?_ (fun b hb => Or.inl (hmem b hb)) ?_ ?_
      hfollows hemptied hfits (hcarries _ houtput) ?_⟩
  · intro b hb
    exact hinv.free_of_cache (t := t) (List.mem_of_mem_drop hb)
  · rw [hmine, List.append_nil]
    exact List.perm_append_comm.trans (List.Perm.of_eq (List.take_append_drop n _))
  · refine hown.ok.sound.withClass ?_ (by omega)
    rw [hown.count e, ← hlen, Nat.add_mul]
    omega
  · exact hown.ok.caps.shrink hevicting (by rw [hown.count e]; omega) (by omega)
  · intro b hb
    apply Pc.admits_of_free hclass
    exact (hinv.free_of_cache (hmem b hb)).congr hframe.slab (congrFun hsize b)

/-- **Evict.** Either both caps hold and the call is done, or some blocks of one class come into its hands. -/
theorem Inv.evict (hinv : Inv k bases larges g) {savedErrno : Errno}
    (hpc : k.pc t = .evict c d savedErrno) :
    ((withCache k.state d fun m cache => threadCacheExtractEviction m cache c)
          = some (k.state, none) ∧ Inv (k.goto t k.state .idle) bases larges g) ∨
      ∃ s e n list, (withCache k.state d fun m cache => threadCacheExtractEviction m cache c)
          = some (s, some (e, list)) ∧ Quiet k s ∧ (g (.cache t e)).take n ≠ [] ∧
        list.Owns s.memory ((g (.cache t e)).take n) ∧
        Inv (k.goto t s (.publishEviction c d e list savedErrno)) bases larges
          (replace₂ g (.cache t e) (.inflight t) ((g (.cache t e)).drop n)
            ((g (.cache t e)).take n)) := by
  have hmine : g (.inflight t) = [] := hinv.carries_at hpc
  have hcurrent : cacheCurrent k.state t = some d := hinv.fits_at hpc
  have hd := hinv.evicts_own hpc
  obtain ⟨descriptor, hown⟩ := hinv.ownCache hd
  rcases threadCacheExtractEviction_of_chains (fun e => g (.cache t e)) hown.ok.sound
    hown.chain hown.count c with ⟨hnext, hnone⟩ | ⟨e, n, m, cache, list, -, hsome, hextracts⟩
  · obtain ⟨hcount, hbytes⟩ := hown.ok.sound.caps_of_nextEviction hnext
    have hresult := withCache_eq_some (fun m cache =>
      threadCacheExtractEviction m cache c) hown.ok.mapped hnone
    rw [withDescriptorCache_self hown.ok.mapped] at hresult
    refine Or.inl ⟨hresult, ?_⟩
    have hstep : LocalStep k (k.goto t k.state .idle) t [] :=
      Config.goto_localStep rfl rfl rfl (Framed.refl _ _) (ListsOnly.refl _) (fun _ _ => rfl)
        (by rw [hpc]; rfl)
    refine hinv.local hstep (fun q => q = .inflight t) hinv.placed (fun _ => Iff.rfl) (by simp) ?_ ?_
      (fun e he => by rw [Config.goto_pc] at he; exact he.elim) (by simp) ?_ ?_ ?_ ?_ ?_
    · intro q hq
      refine ⟨rfl, hstep.sameHead hinv hq (fun _ => rfl) (fun _ _ => rfl) fun e _ => ?_⟩
      exact ⟨hstep.cacheOf, fun d _ descriptor hmapped => ⟨descriptor, hmapped, rfl, rfl⟩⟩
    · rintro q rfl
      rw [hmine, Holds, Config.goto_pc]
      exact ⟨rfl, by simp⟩
    · intro d' hd'
      rw [hstep.cacheOf] at hd'
      obtain rfl := Option.some.inj (hd.symm.trans hd')
      refine ⟨descriptor, hown.ok.mapped, hown.ok.base, hown.ok.region, hown.ok.sound, ?_⟩
      rw [Config.goto_pc]
      refine ⟨fun e => ?_, hbytes⟩
      by_cases he : e = c
      · subst he
        exact hcount
      · have hcaps := hown.ok.caps
        rw [hpc] at hcaps
        exact hcaps.1 e he
    · rw [Config.goto_pc]
      trivial
    · intro a ha
      rw [Config.goto_pc] at ha
      simp [Pc.argument] at ha
    · intro u _ a ha
      exact hinv.argument_live u a ha
    · refine SameCall.inRegistry ⟨fun u hu => Config.goto_pc_of_ne hu _ _, ?_, ?_, rfl⟩ hinv
      · rw [Config.goto_pc]
        simp [Pc.argument]
      · rw [Config.goto_pc, hpc]
        exact Iff.rfl
  · have hresult := withCache_eq_some (fun m cache =>
      threadCacheExtractEviction m cache c) hown.ok.mapped hsome
    obtain ⟨hquiet, hinv'⟩ := hinv.extract (.publishEviction c d e list savedErrno) hd hown
      hmine hextracts rfl (fun _ h => h) (by rw [hpc]; exact ⟨rfl, fun _ h => h, Iff.rfl⟩)
      (by rw [hpc]; rfl) (fun f hf => hf.elim) hcurrent
    exact Or.inr ⟨_, e, n, list, hresult, hquiet, hextracts.nonempty, hextracts.output, hinv'⟩

/-- **Flush one class.** Either its list is empty, or all of it comes into the call's hands. -/
theorem Inv.flushExtract (hinv : Inv k bases larges g) {rest : List ClassIndex} {teardown : Bool}
    (hpc : k.pc t = .flush d (c :: rest) teardown) :
    (flushExtract k.state d c = some (k.state, none) ∧
        Inv (k.goto t k.state (.flush d rest teardown)) bases larges g) ∨
      ∃ s list, flushExtract k.state d c = some (s, some list) ∧ Quiet k s ∧
        list.Owns s.memory (g (.cache t c)) ∧
        Inv (k.goto t s (.publishFlush d c list rest teardown)) bases larges
          (replace₂ g (.cache t c) (.inflight t) [] (g (.cache t c))) := by
  have hfits := hinv.fits_at hpc
  have hmine : g (.inflight t) = [] := hinv.carries_at hpc
  have hd := hinv.flushes_own hpc
  obtain ⟨descriptor, hown⟩ := hinv.ownCache hd
  have hold : ∀ f, f ≠ c → f ∉ rest → (k.pc t).Emptied f := by
    intro f hf hrest
    rw [hpc]
    exact List.not_mem_cons_of_ne_of_not_mem hf hrest
  by_cases hnil : g (.cache t c) = []
  · have hhead : descriptor.cache.heads c = none := (hown.chain c).eq_nil_iff.mpr hnil
    have hresult := withCache_eq_some (fun m cache =>
      threadCacheExtractClass m cache c sizeMax) hown.ok.mapped (threadCacheExtractClass_empty hhead)
    rw [withDescriptorCache_self hown.ok.mapped] at hresult
    refine Or.inl ⟨hresult, ?_⟩
    have hfollows : (k.pc t).Follows (.flush d rest teardown) := by
      rw [hpc]
      exact ⟨by cases teardown <;> rfl, fun _ h => h, Iff.rfl⟩
    refine hinv.retarget (Config.goto_localStep rfl rfl rfl (Framed.refl _ _) (ListsOnly.refl _)
      (fun _ _ => rfl) hfollows.teardown) rfl rfl rfl ?_ ?_ ?_ ?_ ?_ ?_
      ((hfollows.sameCall _).inRegistry hinv)
    · rw [Config.goto_pc, hmine]
      rfl
    · simp [hmine]
    · intro f hf
      rw [Config.goto_pc] at hf
      by_cases hfc : f = c
      · rw [hfc, hnil]
      · exact hinv.emptied t f (hold f hfc hf)
    · rw [Config.goto_pc, hpc]
      rfl
    · rw [Config.goto_pc]
      cases teardown <;> exact hfits
    · intro a ha
      rw [Config.goto_pc] at ha
      simp [Pc.argument] at ha
  · have hlength : (g (.cache t c)).length ≤ sizeMax := by
      have hlt := hinv.length_lt (.cache t c)
      unfold addressSpace at hlt
      unfold sizeMax
      omega
    obtain ⟨m, output, hextract, houtput, hrest, hframe, hsize⟩ :=
      threadCacheExtractClass_of_chain hown.ok.sound (hown.chain c) (hown.count c)
        (show 0 < sizeMax by decide) hnil
    have hresult := withCache_eq_some (fun m cache =>
      threadCacheExtractClass m cache c sizeMax) hown.ok.mapped hextract
    have htake : (g (.cache t c)).take sizeMax = g (.cache t c) := List.take_of_length_le hlength
    have hdrop : (g (.cache t c)).drop sizeMax = [] := List.drop_eq_nil_of_le hlength
    have hextracts : Extracts (fun e => g (.cache t e)) descriptor.cache c sizeMax k.state.memory m
        (descriptor.cache.withClass c ((g (.cache t c)).drop sizeMax).head?
          ((g (.cache t c)).drop sizeMax).length
          (descriptor.cache.totalSlotBytes
            - ((g (.cache t c)).take sizeMax).length * sizeClassCapacities c)) output :=
      ⟨by simpa only [htake] using hnil, rfl, houtput, hrest, hframe, hsize⟩
    obtain ⟨hquiet, hinv'⟩ := hinv.extract (.publishFlush d c output rest teardown) hd hown
      hmine hextracts rfl (fun _ h => h)
      (by rw [hpc]; exact ⟨by cases teardown <;> rfl, fun _ h => h, Iff.rfl⟩) (by rw [hpc]; rfl)
      (fun f hf => by
        by_cases hfc : f = c
        · exact Or.inl ⟨hfc, hdrop⟩
        · exact Or.inr ⟨hfc, hold f hfc hf⟩)
      (by cases teardown <;> exact hfits)
    rw [htake] at houtput
    rw [htake, hdrop] at hinv' hresult hquiet
    exact Or.inr ⟨_, output, hresult, hquiet, houtput, hinv'⟩

end Hplf
