import HplfMalloc.Invariant

/-!
# What a step of one thread leaves alone

A step touches a few places. `Inv.local` collects what has to be shown about those, and derives the rest
of the invariant: a block at an untouched place keeps its prefix because no block is in two places.
-/

namespace Hplf

open Lib Memory

variable {Tid : Type}

/-! ### Field updates and storage -/

theorem slabMappings_congr {m m' : Memory} {bases : List Nat} (hslab : m'.slab = m.slab) :
    slabMappings m' bases = slabMappings m bases := by
  simp only [slabMappings, hslab]

theorem largeMappings_congr {m m' : Memory} {larges : List Nat}
    (hlarge : ∀ a ∈ larges, (m'.block a).map Block.mapping = (m.block a).map Block.mapping) :
    largeMappings m' larges = largeMappings m larges :=
  List.filterMap_congr hlarge

theorem Memory.Framed.mapping {nodes : List Nat} {m m' : Memory} (hframe : Framed nodes m m')
    (a : Nat) : (m'.block a).map Block.mapping = (m.block a).map Block.mapping := by
  have hfixed := congrArg
    (Option.map fun f : Owner × Nat × BlockKind => (⟨f.1.mapping.1, f.1.mapping.2⟩ : Mapping))
    (hframe.fixed a)
  rw [Option.map_map, Option.map_map] at hfixed
  exact hfixed

theorem Storage.congr {s s' : State Tid} {leaked : List Mapping} {bases larges nodes : List Nat}
    (hst : Storage s leaked bases larges) (hframe : Framed nodes s.memory s'.memory)
    (hslabs : s'.slabs = s.slabs) (hmapped : s'.mapped = s.mapped)
    (hdescriptors : s'.descriptorMapped = s.descriptorMapped) :
    Storage s' leaked bases larges where
  registry := by
    rw [hslabs]
    apply hst.registry.congr
    intro a _
    simp only [slabNext, hframe.slab]
  slab base hbase := by
    rw [hframe.slab]
    exact hst.slab base hbase
  slot base hbase h hh a ha := by
    rw [hframe.slab] at hh
    obtain ⟨b, hb, hslot⟩ := hst.slot base hbase h hh a ha
    obtain ⟨b', hb', howner, hcapacity, hkind⟩ := hframe.exists_block hb
    exact ⟨b', hb', hkind.trans hslot.kind, howner.trans hslot.owner, hcapacity.trans hslot.capacity⟩
  large a ha := by
    obtain ⟨b, hb, hlarge⟩ := hst.large a ha
    obtain ⟨b', hb', howner, hcapacity, hkind⟩ := hframe.exists_block hb
    exact ⟨b', hb', hkind.trans hlarge.kind, by rw [howner, hcapacity]; exact hlarge.owner⟩
  ledger := by
    rw [hmapped, slabMappings_congr hframe.slab,
      largeMappings_congr fun a _ => hframe.mapping a]
    exact hst.ledger
  apart := by
    simp only [State.mappings, hmapped, hdescriptors]
    exact hst.apart
  valid := by
    simp only [State.mappings, hmapped, hdescriptors]
    exact hst.valid

theorem InClass.congr {m m' : Memory} {bases : List Nat} {c : ClassIndex} {a : Nat}
    (hclass : InClass m bases c a) (hslab : m'.slab = m.slab) : InClass m' bases c a := by
  unfold InClass at *
  rwa [hslab]

theorem FreeIn.congr {m m' : Memory} {bases : List Nat} {c : ClassIndex} {a : Nat}
    (hfree : FreeIn m bases c a) (hslab : m'.slab = m.slab) (hsize : m'.size a = m.size a) :
    FreeIn m' bases c a :=
  ⟨hfree.1.congr hslab, hsize.trans hfree.2⟩

/-- The block at `a` has the same prefix and is still a slot or a large block of the same kind. -/
structure Persists (m m' : Memory) (bases larges bases' larges' : List Nat) (a : Nat) : Prop where
  inClass : ∀ c, InClass m bases c a → InClass m' bases' c a
  large : a ∈ larges → a ∈ larges'
  block : m'.block a = m.block a

section Persists

variable {m m' : Memory} {bases larges bases' larges' : List Nat} {a : Nat}

theorem Persists.next (hpersists : Persists m m' bases larges bases' larges' a) :
    m'.next a = m.next a := by
  simp only [Memory.next, hpersists.block]

theorem Persists.size (hpersists : Persists m m' bases larges bases' larges' a) :
    m'.size a = m.size a := by
  simp only [Memory.size, hpersists.block]

theorem Persists.freeIn (hpersists : Persists m m' bases larges bases' larges' a) {c : ClassIndex}
    (hfree : FreeIn m bases c a) : FreeIn m' bases' c a :=
  ⟨hpersists.inClass c hfree.1, hpersists.size.trans hfree.2⟩

theorem Persists.sized (hpersists : Persists m m' bases larges bases' larges' a) {n : Nat}
    (hsized : Sized m bases larges n a) : Sized m' bases' larges' n a := by
  refine ⟨hpersists.size.trans hsized.1, ?_⟩
  rcases hsized.2 with ⟨c, hclass, hfor⟩ | ⟨hlarge, hlt, b, hb, hle⟩
  · exact Or.inl ⟨c, hpersists.inClass c hclass, hfor⟩
  · exact Or.inr ⟨hpersists.large hlarge, hlt, b, hpersists.block.trans hb, hle⟩

theorem Persists.admitsPc (hpersists : Persists m m' bases larges bases' larges' a) {pc : Pc}
    (hadmits : pc.Admits m bases larges a) : pc.Admits m' bases' larges' a := by
  unfold Pc.Admits at *
  split at hadmits
  · exact hpersists.sized hadmits
  · obtain ⟨c, hc, hfree⟩ := hadmits
    exact ⟨c, hc, hpersists.freeIn hfree⟩

theorem Memory.Framed.persists {nodes : List Nat} (hframe : Framed nodes m m') (ha : a ∉ nodes) :
    Persists m m' bases larges bases larges a :=
  ⟨fun _ h => h.congr hframe.slab, fun h => h, hframe.block a ha⟩

end Persists

theorem Pc.Carries.congr {m m' : Memory} {pc : Pc} {xs : List Nat} (hcarries : pc.Carries m xs)
    (hsame : ∀ a ∈ xs, m'.next a = m.next a) : pc.Carries m' xs := by
  cases pc with
  | unlockRegistry | refill => exact ⟨hcarries.1.congr hsame, hcarries.2⟩
  | publishRest r c available block =>
      obtain ⟨a, ys, hblock, rfl, howns⟩ := hcarries
      exact ⟨a, ys, hblock, rfl, howns.congr fun b hb => hsame b (List.mem_cons_of_mem a hb)⟩
  | publishFreed | publishEviction | publishFlush => exact TransferList.Owns.congr hcarries hsame
  | _ => exact hcarries


/-! ### Untouched places -/

/-- The configuration represents the list at this place by the same pointers. -/
def SameHead (k k' : Config Tid) : Place Tid → Prop
  | .live => k'.live = k.live
  | .shared c => k'.state.sharedHeads c = k.state.sharedHeads c
  | .cache t c => k'.cacheOf t = k.cacheOf t ∧
      ∀ d, k.cacheOf t = some d → ∀ descriptor, k.state.descriptor d = some descriptor →
        ∃ descriptor', k'.state.descriptor d = some descriptor' ∧
          descriptor'.cache.heads c = descriptor.cache.heads c ∧
          descriptor'.cache.counts c = descriptor.cache.counts c
  | .inflight t => k'.pc t = k.pc t

theorem holds_cache_none {k : Config Tid} {t : Tid} {c : ClassIndex} {xs : List Nat}
    (hcache : k.cacheOf t = none) : Holds k (.cache t c) xs ↔ xs = [] := by
  simp only [Holds, hcache]

theorem holds_cache_some {k : Config Tid} {t : Tid} {c : ClassIndex} {xs : List Nat} {d : Nat}
    (hcache : k.cacheOf t = some d) :
    Holds k (.cache t c) xs ↔ ∃ descriptor, k.state.descriptor d = some descriptor ∧
      Chain k.state.memory.next (descriptor.cache.heads c) xs ∧
      descriptor.cache.counts c = xs.length := by
  simp only [Holds, hcache]

theorem Holds.congr {k k' : Config Tid} {p : Place Tid} {xs : List Nat} (hholds : Holds k p xs)
    (hhead : SameHead k k' p)
    (hsame : ∀ a ∈ xs, k'.state.memory.next a = k.state.memory.next a) : Holds k' p xs := by
  cases p with
  | live => exact Eq.trans hholds hhead.symm
  | shared c =>
      have hchain : Chain _ _ _ := hholds
      rw [Holds, show k'.state.sharedHeads c = _ from hhead]
      exact hchain.congr hsame
  | cache t c =>
      obtain ⟨hcache, hdescriptor⟩ := hhead
      cases hd : k.cacheOf t with
      | none =>
          rw [holds_cache_none hd] at hholds
          exact (holds_cache_none (hcache.trans hd)).mpr hholds
      | some d =>
          obtain ⟨descriptor, hmapped, hchain, hcount⟩ := (holds_cache_some hd).mp hholds
          obtain ⟨descriptor', hmapped', hheads, hcounts⟩ := hdescriptor d hd descriptor hmapped
          refine (holds_cache_some (hcache.trans hd)).mpr ⟨descriptor', hmapped', ?_, ?_⟩
          · rw [hheads]
            exact hchain.congr hsame
          · exact hcounts.trans hcount
  | inflight t =>
      have hpc : k'.pc t = k.pc t := hhead
      rw [Holds, hpc]
      exact Pc.Carries.congr hholds hsame

theorem Admits.congr {k k' : Config Tid} {bases larges bases' larges' : List Nat} {p : Place Tid}
    {a : Nat} (hadmits : Admits k bases larges p a) (hhead : SameHead k k' p)
    (hpersists : Persists k.state.memory k'.state.memory bases larges bases' larges' a) :
    Admits k' bases' larges' p a := by
  cases p with
  | live =>
      obtain ⟨n, hsized⟩ := hadmits
      exact ⟨n, hpersists.sized hsized⟩
  | shared c => exact hpersists.freeIn hadmits
  | cache t c => exact hpersists.freeIn hadmits
  | inflight t =>
      have hpc : k'.pc t = k.pc t := hhead
      rw [Admits, hpc]
      exact hpersists.admitsPc hadmits

/-! ### Steps of one thread -/

/-- Thread `t` acted, and no thread changed its lifecycle data. -/
structure ThreadStep (k k' : Config Tid) (t : Tid) : Prop where
  descriptorMapped : k'.state.descriptorMapped = k.state.descriptorMapped
  currentState : k'.state.currentState = k.state.currentState
  currentDescriptor : k'.state.currentDescriptor = k.state.currentDescriptor
  keyValue : k'.state.keyValue = k.state.keyValue
  descriptor : ∀ d, k.cacheOf t ≠ some d → k'.state.descriptor d = k.state.descriptor d
  pc : ∀ u, u ≠ t → k'.pc u = k.pc u
  cacheOf : k'.cacheOf t = k.cacheOf t

/-- Thread `t` changed at most the links and sizes of `nodes`, the shared heads, its own cache, its program
counter and its error number, and what clients hold. -/
structure LocalStep (k k' : Config Tid) (t : Tid) (nodes : List Nat) : Prop extends
    ThreadStep k k' t where
  memory : Framed nodes k.state.memory k'.state.memory
  slabs : k'.state.slabs = k.state.slabs
  mapped : k'.state.mapped = k.state.mapped
  leaked : k'.leaked = k.leaked

variable {k k' : Config Tid} {t : Tid} {nodes : List Nat}

theorem cacheCurrent_congr {s s' : State Tid} {u : Tid} (hstate : s'.currentState u = s.currentState u)
    (hdescriptor : s'.currentDescriptor u = s.currentDescriptor u) :
    cacheCurrent s' u = cacheCurrent s u := by
  simp only [cacheCurrent, hstate, hdescriptor]

theorem ThreadStep.cacheCurrent (hstep : ThreadStep k k' t) (u : Tid) :
    cacheCurrent k'.state u = cacheCurrent k.state u :=
  cacheCurrent_congr (congrFun hstep.currentState u) (congrFun hstep.currentDescriptor u)

variable [DecidableEq Tid]

theorem ThreadStep.cacheOf_all (hstep : ThreadStep k k' t) (u : Tid) :
    k'.cacheOf u = k.cacheOf u := by
  by_cases hu : u = t
  · rw [hu, hstep.cacheOf]
  · simp only [Config.cacheOf, hstep.pc u hu, hstep.cacheCurrent u]

omit [DecidableEq Tid] in
theorem Pc.Fits.congr {s s' : State Tid} {u : Tid} {pc : Pc} (hfits : pc.Fits s u)
    (hcurrent : cacheCurrent s' u = cacheCurrent s u)
    (hstate : s'.currentState u = s.currentState u) : pc.Fits s' u := by
  cases pc with
  | flush d rest teardown | publishFlush d c list rest teardown =>
      cases teardown <;> simpa only [Pc.Fits, hcurrent, hstate] using hfits
  | idle | deliver | release | publishFreed => trivial
  | _ => simpa only [Pc.Fits, hcurrent, hstate] using hfits

omit [DecidableEq Tid] in
/-- A thread whose counter and thread-local data are unchanged is as it was. -/
theorem ThreadOk.congr {u : Tid} (hok : ThreadOk k u) (hpc : k'.pc u = k.pc u)
    (hstate : k'.state.currentState u = k.state.currentState u)
    (hcurrent : k'.state.currentDescriptor u = k.state.currentDescriptor u)
    (hkey : k'.state.keyValue u = k.state.keyValue u)
    (hdescriptor : ∀ d, k.cacheOf u = some d → k'.state.descriptor d = k.state.descriptor d ∧
      ∀ r : Mapping, r.base = d → r ∈ k.state.descriptorMapped → r ∈ k'.state.descriptorMapped) :
    ThreadOk k' u := by
  have hcacheCurrent := cacheCurrent_congr hstate hcurrent
  have hcacheOf : k'.cacheOf u = k.cacheOf u := by
    simp only [Config.cacheOf, hpc, hcacheCurrent]
  refine ⟨?_, ?_, ?_⟩
  · unfold LifecycleOk
    rw [hstate, hcurrent, hkey]
    exact hok.lifecycle
  · intro d hd
    rw [hcacheOf] at hd
    obtain ⟨descriptor, hdesc⟩ := hok.descriptor d hd
    obtain ⟨hmapped, hregion⟩ := hdescriptor d hd
    exact ⟨descriptor, hmapped.trans hdesc.mapped, hdesc.base, hregion _ rfl hdesc.region,
      hdesc.sound, hpc ▸ hdesc.caps⟩
  · rw [hpc]
    exact hok.fits.congr hcacheCurrent hstate

variable {bases larges : List Nat} {g g' : Place Tid → List Nat}

omit [DecidableEq Tid] in
/-- A thread whose descriptor nobody else uses keeps it through a step of another thread. -/
theorem ThreadStep.descriptor_other (hstep : ThreadStep k k' t) (hinv : Inv k bases larges g)
    {u : Tid} (hu : u ≠ t) {d : Nat} (hd : k.cacheOf u = some d) :
    k'.state.descriptor d = k.state.descriptor d :=
  hstep.descriptor d fun ht => hu (hinv.owner_unique u t d hd ht)

/-- A place of another thread is represented as before. -/
theorem ThreadStep.sameHead_cache (hstep : ThreadStep k k' t) (hinv : Inv k bases larges g)
    {u : Tid} (hu : u ≠ t) (c : ClassIndex) : SameHead k k' (.cache u c) := by
  refine ⟨hstep.cacheOf_all u, fun d hd descriptor hmapped => ⟨descriptor, ?_, rfl, rfl⟩⟩
  rw [hstep.descriptor_other hinv hu hd, hmapped]

theorem ThreadStep.sameHead (hstep : ThreadStep k k' t) (hinv : Inv k bases larges g)
    {p : Place Tid} (hinflight : p ≠ .inflight t) (hlive : p = .live → k'.live = k.live)
    (hshared : ∀ c, p = .shared c → k'.state.sharedHeads c = k.state.sharedHeads c)
    (hcache : ∀ c, p = .cache t c → SameHead k k' (.cache t c)) : SameHead k k' p := by
  cases p with
  | live => exact hlive rfl
  | shared c => exact hshared c rfl
  | cache u c =>
      by_cases hu : u = t
      · subst hu
        exact hcache c rfl
      · exact hstep.sameHead_cache hinv hu c
  | inflight u => exact hstep.pc u fun hu => hinflight (by rw [hu])

omit [DecidableEq Tid] in
/-- The block a call works on is live, and no other call works on it. -/
theorem Inv.argument_own (hinv : Inv k bases larges g) {a : Nat} (hargument : (k.pc t).argument = some a) :
    a ∈ k.live ∧ ∀ u, u ≠ t → (k.pc u).argument ≠ some a :=
  ⟨hinv.argument_live t a hargument, fun u hu hother => hu (hinv.argument_unique u t a hother hargument)⟩

/-- **Steps of one thread.** The invariant after a step of thread `t` that may change the storage and what
lies at the touched places, from what holds of the storage, at those places and of the thread itself. -/
theorem Inv.transfer {bases' larges' : List Nat} (hinv : Inv k bases larges g)
    (hstep : ThreadStep k k' t) (touched : Place Tid → Prop)
    (hstorage : Storage k'.state k'.leaked bases' larges') (hplaced : Placed g')
    (hpopulation : ∀ a, (∃ p, a ∈ g' p) ↔
      (∃ c, InClass k'.state.memory bases' c a) ∨ a ∈ larges')
    (hrest : ∀ p, ¬ touched p → g' p = g p ∧ SameHead k k' p ∧ ∀ a ∈ g p,
      Persists k.state.memory k'.state.memory bases larges bases' larges' a)
    (htouched : ∀ p, touched p → Holds k' p (g' p) ∧ ∀ a ∈ g' p, Admits k' bases' larges' p a)
    (hemptied : ∀ c, (k'.pc t).Emptied c → g' (.cache t c) = [])
    (hforeign : ∀ u, u ≠ t → ∀ c, ¬ touched (.cache u c))
    (hdescriptor : ∀ d, k'.cacheOf t = some d →
      ∃ descriptor, DescriptorOk k'.state (k'.pc t) d descriptor)
    (hfits : (k'.pc t).Fits k'.state t)
    (hargument : ∀ a, (k'.pc t).argument = some a →
      a ∈ k'.live ∧ ∀ u, u ≠ t → (k.pc u).argument ≠ some a)
    (hlive : ∀ u, u ≠ t → ∀ a, (k.pc u).argument = some a → a ∈ k'.live)
    (hregistry : ∀ u, (k'.pc u).InRegistry ↔ k'.registryOwner = some u) :
    Inv k' bases' larges' g' := by
  refine ⟨hstorage, hplaced, hpopulation, ?_, ?_, ?_, ?_, ?_, ?_, ?_, hregistry⟩
  · intro p
    by_cases hp : touched p
    · exact (htouched p hp).1
    · obtain ⟨heq, hhead, hpersists⟩ := hrest p hp
      rw [heq]
      exact (hinv.holds p).congr hhead fun a ha => (hpersists a ha).next
  · intro p a ha
    by_cases hp : touched p
    · exact (htouched p hp).2 a ha
    · obtain ⟨heq, hhead, hpersists⟩ := hrest p hp
      rw [heq] at ha
      exact (hinv.admits p a ha).congr hhead (hpersists a ha)
  · intro u c hu
    by_cases hut : u = t
    · subst hut
      exact hemptied c hu
    · rw [hstep.pc u hut] at hu
      rw [(hrest _ (hforeign u hut c)).1]
      exact hinv.emptied u c hu
  · intro u
    by_cases hut : u = t
    · subst hut
      refine ⟨?_, hdescriptor, hfits⟩
      unfold LifecycleOk
      rw [hstep.currentState, hstep.currentDescriptor, hstep.keyValue]
      exact (hinv.thread u).lifecycle
    · refine (hinv.thread u).congr (hstep.pc u hut) (congrFun hstep.currentState u)
        (congrFun hstep.currentDescriptor u) (congrFun hstep.keyValue u) fun d hd => ?_
      exact ⟨hstep.descriptor_other hinv hut hd, fun r _ hr => hstep.descriptorMapped ▸ hr⟩
  · intro u v d hu hv
    rw [hstep.cacheOf_all] at hu hv
    exact hinv.owner_unique u v d hu hv
  · intro u a ha
    by_cases hut : u = t
    · subst hut
      exact (hargument a ha).1
    · rw [hstep.pc u hut] at ha
      exact hlive u hut a ha
  · intro u v a hu hv
    by_cases hut : u = t <;> by_cases hvt : v = t
    · rw [hut, hvt]
    · subst hut
      rw [hstep.pc v hvt] at hv
      exact absurd hv ((hargument a hu).2 v hvt)
    · subst hvt
      rw [hstep.pc u hut] at hu
      exact absurd hu ((hargument a hv).2 u hut)
    · rw [hstep.pc u hut] at hu
      rw [hstep.pc v hvt] at hv
      exact hinv.argument_unique u v a hu hv

/-- **Local steps.** The invariant after a step of thread `t` that moves blocks between the touched
places and writes their links and sizes only. -/
theorem Inv.local (hinv : Inv k bases larges g) (hstep : LocalStep k k' t nodes)
    (touched : Place Tid → Prop)
    (hplaced : Placed g') (hpopulation : ∀ a, (∃ p, a ∈ g' p) ↔ ∃ p, a ∈ g p)
    (hnodes : ∀ a ∈ nodes, ∃ p, touched p ∧ a ∈ g p)
    (hrest : ∀ p, ¬ touched p → g' p = g p ∧ SameHead k k' p)
    (htouched : ∀ p, touched p → Holds k' p (g' p) ∧ ∀ a ∈ g' p, Admits k' bases larges p a)
    (hemptied : ∀ c, (k'.pc t).Emptied c → g' (.cache t c) = [])
    (hforeign : ∀ u, u ≠ t → ∀ c, ¬ touched (.cache u c))
    (hdescriptor : ∀ d, k'.cacheOf t = some d →
      ∃ descriptor, DescriptorOk k'.state (k'.pc t) d descriptor)
    (hfits : (k'.pc t).Fits k'.state t)
    (hargument : ∀ a, (k'.pc t).argument = some a →
      a ∈ k'.live ∧ ∀ u, u ≠ t → (k.pc u).argument ≠ some a)
    (hlive : ∀ u, u ≠ t → ∀ a, (k.pc u).argument = some a → a ∈ k'.live)
    (hregistry : ∀ u, (k'.pc u).InRegistry ↔ k'.registryOwner = some u) :
    Inv k' bases larges g' := by
  -- Untouched blocks were not written: each lies in its own place only.
  have hkeep : ∀ p, ¬ touched p → ∀ a ∈ g p, a ∉ nodes := by
    intro p hp a ha hmem
    obtain ⟨q, hq, haq⟩ := hnodes a hmem
    exact hp (hinv.placed.disjoint ha haq ▸ hq)
  refine hinv.transfer hstep.toThreadStep touched ?_ hplaced ?_ ?_ htouched hemptied hforeign
    hdescriptor hfits hargument hlive hregistry
  · rw [hstep.leaked]
    exact hinv.storage.congr hstep.memory hstep.slabs hstep.mapped hstep.descriptorMapped
  · intro a
    rw [hpopulation, hinv.population]
    refine or_congr_left (exists_congr fun c => ?_)
    unfold InClass
    rw [hstep.memory.slab]
  · intro p hp
    obtain ⟨heq, hhead⟩ := hrest p hp
    exact ⟨heq, hhead, fun a ha => hstep.memory.persists (hkeep p hp a ha)⟩

end Hplf
