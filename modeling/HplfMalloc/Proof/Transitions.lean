import HplfMalloc.Machine

/-!
# What one action can do

`Transition` lists the ways in which the next action of a thread can go, with the results of the functions
it calls and the configuration it leads to. Every action is one of these, so that a property of all actions
is a case analysis on transitions, and nothing else has to unfold `advance`.
-/

namespace Hplf

variable {Tid : Type} [DecidableEq Tid]

inductive Transition (v : Variant) (w : World) (k : Config Tid) (t : Tid) : Config Tid → Prop
  | lockedFailed {r : Request} {c : ClassIndex} {capacity : Nat} {s : State Tid} {pointer : Ptr}
      (hpc : k.pc t = .allocateSmall r c capacity) (hv : v = .locked)
      (hallocate : allocateSmallLocked w k.state t r.size c capacity = some (s, pointer))
      (hnull : blockFromPayload pointer = none) : Transition v w k t (k.goto t s .idle)
  | lockedServed {r : Request} {c : ClassIndex} {capacity a : Nat} {s : State Tid} {pointer : Ptr}
      (hpc : k.pc t = .allocateSmall r c capacity) (hv : v = .locked)
      (hallocate : allocateSmallLocked w k.state t r.size c capacity = some (s, pointer))
      (hblock : blockFromPayload pointer = some a) : Transition v w k t (k.goto t s (.deliver r a))
  | localMiss {r : Request} {c : ClassIndex} {capacity : Nat} {s₁ s : State Tid} {cache : Ptr}
      (hpc : k.pc t = .allocateSmall r c capacity) (hv : v = .cached)
      (hacquire : cacheAcquire w k.state t = some (s₁, cache))
      (htake : takeLocal s₁ cache c capacity = some (s, none)) :
      Transition v w k t (k.goto t s (.detach r c capacity cache))
  | localHit {r : Request} {c : ClassIndex} {capacity a : Nat} {s₁ s₂ s : State Tid} {cache : Ptr}
      (hpc : k.pc t = .allocateSmall r c capacity) (hv : v = .cached)
      (hacquire : cacheAcquire w k.state t = some (s₁, cache))
      (htake : takeLocal s₁ cache c capacity = some (s₂, some a))
      (hset : setRequestedSize s₂ a r.size = some s) :
      Transition v w k t (k.goto t s (.deliver r a))
  | detached {r : Request} {c : ClassIndex} {capacity : Nat} {cache : Ptr} {s : State Tid}
      {list : TransferList} (hpc : k.pc t = .detach r c capacity cache)
      (hdetach : transferMutexDetach k.state c = some (s, list)) (hfirst : list.first ≠ none) :
      Transition v w k t (k.goto t s (.refill r c capacity cache list))
  | detachedNothing {r : Request} {c : ClassIndex} {capacity : Nat} {cache : Ptr} {s : State Tid}
      {list : TransferList} (hpc : k.pc t = .detach r c capacity cache)
      (hdetach : transferMutexDetach k.state c = some (s, list)) (hfirst : list.first = none) :
      Transition v w k t (k.goto t s (.lockRegistry r c capacity cache))
  | registryLocked {r : Request} {c : ClassIndex} {capacity : Nat} {cache : Ptr}
      (hpc : k.pc t = .lockRegistry r c capacity cache) (howner : k.registryOwner = none) :
      Transition v w k t
        { k.goto t k.state (.recheck r c capacity cache) with registryOwner := some t }
  | rechecked {r : Request} {c : ClassIndex} {capacity : Nat} {cache : Ptr} {s : State Tid}
      {list : TransferList} (hpc : k.pc t = .recheck r c capacity cache)
      (hdetach : transferMutexDetach k.state c = some (s, list)) (hfirst : list.first ≠ none) :
      Transition v w k t (k.goto t s (.unlockRegistry r c capacity cache list))
  | recheckedNothing {r : Request} {c : ClassIndex} {capacity : Nat} {cache : Ptr} {s : State Tid}
      {list : TransferList} (hpc : k.pc t = .recheck r c capacity cache)
      (hdetach : transferMutexDetach k.state c = some (s, list)) (hfirst : list.first = none) :
      Transition v w k t (k.goto t s (.createSlab r c capacity cache))
  | slabFailed {r : Request} {c : ClassIndex} {capacity : Nat} {cache : Ptr} {s : State Tid}
      (hpc : k.pc t = .createSlab r c capacity cache)
      (hcreate : createRegisteredSlab w k.state t c capacity = some (s, none)) :
      Transition v w k t { k.goto t (s.setErrno t .ENOMEM) .idle with registryOwner := none }
  | slabCreated {r : Request} {c : ClassIndex} {capacity : Nat} {cache : Ptr} {s : State Tid}
      {list : TransferList} (hpc : k.pc t = .createSlab r c capacity cache)
      (hcreate : createRegisteredSlab w k.state t c capacity = some (s, some list)) :
      Transition v w k t (k.goto t s (.unlockRegistry r c capacity cache list))
  | registryUnlocked {r : Request} {c : ClassIndex} {capacity : Nat} {cache : Ptr}
      {list : TransferList} (hpc : k.pc t = .unlockRegistry r c capacity cache list) :
      Transition v w k t
        { k.goto t k.state (.refill r c capacity cache list) with registryOwner := none }
  | refilled {r : Request} {c : ClassIndex} {capacity : Nat} {cache block : Ptr} {s : State Tid}
      {list rest : TransferList} (hpc : k.pc t = .refill r c capacity cache list)
      (hrefill : refillAndTake k.state cache c capacity list = some (s, rest, block)) :
      Transition v w k t (k.goto t s (.publishRest r c rest block))
  | gaveUp {r : Request} {c : ClassIndex} {s : State Tid} {list : TransferList}
      (hpc : k.pc t = .publishRest r c list none)
      (hpublish : transferMutexPublish k.state c list = some s) :
      Transition v w k t (k.goto t (s.setErrno t .ENOMEM) .idle)
  | handedOut {r : Request} {c : ClassIndex} {a : Nat} {s₁ s : State Tid} {list : TransferList}
      (hpc : k.pc t = .publishRest r c list (some a))
      (hpublish : transferMutexPublish k.state c list = some s₁)
      (hset : setRequestedSize s₁ a r.size = some s) :
      Transition v w k t (k.goto t s (.deliver r a))
  | largeFailed {r : Request} {s : State Tid} {pointer : Ptr} (hpc : k.pc t = .allocateLarge r)
      (hallocate : allocateLarge w k.state t r.size = (s, pointer))
      (hnull : blockFromPayload pointer = none) : Transition v w k t (k.goto t s .idle)
  | largeServed {r : Request} {a : Nat} {s : State Tid} {pointer : Ptr}
      (hpc : k.pc t = .allocateLarge r)
      (hallocate : allocateLarge w k.state t r.size = (s, pointer))
      (hblock : blockFromPayload pointer = some a) : Transition v w k t (k.goto t s (.deliver r a))
  | delivered {r : Request} {a : Nat} {k' : Config Tid} (hpc : k.pc t = .deliver r a)
      (hdeliver : deliver k t r a = some k') : Transition v w k t k'
  | released {a : Nat} {k' : Config Tid} (hpc : k.pc t = .release a)
      (hrelease : release v w k t a = some k') : Transition v w k t k'
  | freed {c : ClassIndex} {list : TransferList} {e : Errno} {s : State Tid}
      (hpc : k.pc t = .publishFreed c list e)
      (hpublish : transferMutexPublish k.state c list = some s) :
      Transition v w k t (k.goto t (s.setErrno t e) .idle)
  | evictionDone {c : ClassIndex} {d : Nat} {e : Errno} {s : State Tid} (hpc : k.pc t = .evict c d e)
      (hevict : (withCache k.state d fun m cache => threadCacheExtractEviction m cache c)
        = some (s, none)) : Transition v w k t (k.goto t (s.setErrno t e) .idle)
  | evicted {c f : ClassIndex} {d : Nat} {e : Errno} {s : State Tid} {list : TransferList}
      (hpc : k.pc t = .evict c d e)
      (hevict : (withCache k.state d fun m cache => threadCacheExtractEviction m cache c)
        = some (s, some (f, list))) :
      Transition v w k t (k.goto t s (.publishEviction c d f list e))
  | evictionPublished {c f : ClassIndex} {d : Nat} {e : Errno} {s : State Tid} {list : TransferList}
      (hpc : k.pc t = .publishEviction c d f list e)
      (hpublish : transferMutexPublish k.state f list = some s) :
      Transition v w k t (k.goto t s (.evict c d e))
  | flushDone {d : Nat} {teardown : Bool} (hpc : k.pc t = .flush d [] teardown) :
      Transition v w k t (k.goto t k.state (if teardown then .unmapDescriptor d else .idle))
  | flushedNothing {d : Nat} {c : ClassIndex} {rest : List ClassIndex} {teardown : Bool}
      {s : State Tid} (hpc : k.pc t = .flush d (c :: rest) teardown)
      (hextract : flushExtract k.state d c = some (s, none)) :
      Transition v w k t (k.goto t s (.flush d rest teardown))
  | flushed {d : Nat} {c : ClassIndex} {rest : List ClassIndex} {teardown : Bool} {s : State Tid}
      {list : TransferList} (hpc : k.pc t = .flush d (c :: rest) teardown)
      (hextract : flushExtract k.state d c = some (s, some list)) :
      Transition v w k t (k.goto t s (.publishFlush d c list rest teardown))
  | flushPublished {d : Nat} {c : ClassIndex} {rest : List ClassIndex} {teardown : Bool}
      {s : State Tid} {list : TransferList} (hpc : k.pc t = .publishFlush d c list rest teardown)
      (hpublish : transferMutexPublish k.state c list = some s) :
      Transition v w k t (k.goto t s (.flush d rest teardown))
  | descriptorUnmapped {d : Nat} {s : State Tid} (hpc : k.pc t = .unmapDescriptor d)
      (hunmap : unmapDescriptor w k.state t d = some s) : Transition v w k t (k.goto t s .idle)

variable {v : Variant} {w : World} {k k' : Config Tid} {t : Tid}

/-- **Inversion.** Every action is one of the transitions. -/
theorem transition_of_advance (hadvance : advance v w k t = some k') : Transition v w k t k' := by
  unfold advance at hadvance
  dsimp only at hadvance
  split at hadvance
  · simp at hadvance
  · rename_i r c capacity hpc
    split at hadvance
    · obtain ⟨⟨s, pointer⟩, hallocate, h⟩ := Option.bind_eq_some_iff.mp hadvance
      dsimp only at h
      split at h
      · rename_i hnull
        obtain rfl := Option.some.inj h
        exact .lockedFailed hpc rfl hallocate hnull
      · rename_i hblock
        obtain rfl := Option.some.inj h
        exact .lockedServed hpc rfl hallocate hblock
    · obtain ⟨⟨s₁, cache⟩, hacquire, h⟩ := Option.bind_eq_some_iff.mp hadvance
      obtain ⟨⟨s₂, block⟩, htake, h⟩ := Option.bind_eq_some_iff.mp h
      cases block with
      | none =>
          obtain rfl := Option.some.inj h
          exact .localMiss hpc rfl hacquire htake
      | some a =>
          obtain ⟨s₃, hset, h⟩ := Option.bind_eq_some_iff.mp h
          obtain rfl := Option.some.inj h
          exact .localHit hpc rfl hacquire htake hset
  · rename_i r c capacity cache hpc
    obtain ⟨⟨s, list⟩, hdetach, h⟩ := Option.bind_eq_some_iff.mp hadvance
    dsimp only at h
    split at h
    · rename_i hfirst
      obtain rfl := Option.some.inj h
      exact .detached hpc hdetach hfirst
    · rename_i hfirst
      obtain rfl := Option.some.inj h
      exact .detachedNothing hpc hdetach (not_not.mp hfirst)
  · rename_i r c capacity cache hpc
    split at hadvance
    · rename_i howner
      obtain rfl := Option.some.inj hadvance
      exact .registryLocked hpc howner
    · simp at hadvance
  · rename_i r c capacity cache hpc
    obtain ⟨⟨s, list⟩, hdetach, h⟩ := Option.bind_eq_some_iff.mp hadvance
    dsimp only at h
    split at h
    · rename_i hfirst
      obtain rfl := Option.some.inj h
      exact .rechecked hpc hdetach hfirst
    · rename_i hfirst
      obtain rfl := Option.some.inj h
      exact .recheckedNothing hpc hdetach (not_not.mp hfirst)
  · rename_i r c capacity cache hpc
    obtain ⟨⟨s, created⟩, hcreate, h⟩ := Option.bind_eq_some_iff.mp hadvance
    cases created with
    | none =>
        obtain rfl := Option.some.inj h
        exact .slabFailed hpc hcreate
    | some list =>
        obtain rfl := Option.some.inj h
        exact .slabCreated hpc hcreate
  · rename_i r c capacity cache list hpc
    obtain rfl := Option.some.inj hadvance
    exact .registryUnlocked hpc
  · rename_i r c capacity cache list hpc
    obtain ⟨⟨s, rest, block⟩, hrefill, h⟩ := Option.bind_eq_some_iff.mp hadvance
    obtain rfl := Option.some.inj h
    exact .refilled hpc hrefill
  · rename_i r c list block hpc
    obtain ⟨s, hpublish, h⟩ := Option.bind_eq_some_iff.mp hadvance
    cases block with
    | none =>
        obtain rfl := Option.some.inj h
        exact .gaveUp hpc hpublish
    | some a =>
        obtain ⟨s₂, hset, h⟩ := Option.bind_eq_some_iff.mp h
        obtain rfl := Option.some.inj h
        exact .handedOut hpc hpublish hset
  · rename_i r hpc
    split at hadvance
    · rename_i hnull
      obtain rfl := Option.some.inj hadvance
      exact .largeFailed hpc rfl hnull
    · rename_i hblock
      obtain rfl := Option.some.inj hadvance
      exact .largeServed hpc rfl hblock
  · rename_i hpc
    exact .delivered hpc hadvance
  · rename_i hpc
    exact .released hpc hadvance
  · rename_i c list e hpc
    obtain ⟨s, hpublish, h⟩ := Option.bind_eq_some_iff.mp hadvance
    obtain rfl := Option.some.inj h
    exact .freed hpc hpublish
  · rename_i c d e hpc
    obtain ⟨⟨s, eviction⟩, hevict, h⟩ := Option.bind_eq_some_iff.mp hadvance
    cases eviction with
    | none =>
        obtain rfl := Option.some.inj h
        exact .evictionDone hpc hevict
    | some evicted =>
        obtain rfl := Option.some.inj h
        exact .evicted hpc hevict
  · rename_i c d f list e hpc
    obtain ⟨s, hpublish, h⟩ := Option.bind_eq_some_iff.mp hadvance
    obtain rfl := Option.some.inj h
    exact .evictionPublished hpc hpublish
  · rename_i d teardown hpc
    obtain rfl := Option.some.inj hadvance
    exact .flushDone hpc
  · rename_i d c rest teardown hpc
    obtain ⟨⟨s, output⟩, hextract, h⟩ := Option.bind_eq_some_iff.mp hadvance
    cases output with
    | none =>
        obtain rfl := Option.some.inj h
        exact .flushedNothing hpc hextract
    | some list =>
        obtain rfl := Option.some.inj h
        exact .flushed hpc hextract
  · rename_i d c list rest teardown hpc
    obtain ⟨s, hpublish, h⟩ := Option.bind_eq_some_iff.mp hadvance
    obtain rfl := Option.some.inj h
    exact .flushPublished hpc hpublish
  · rename_i d hpc
    obtain ⟨s, hunmap, h⟩ := Option.bind_eq_some_iff.mp hadvance
    obtain rfl := Option.some.inj h
    exact .descriptorUnmapped hpc hunmap

/-! ### Where a delivery and a release go on -/

/-- The ways in which a delivery can go. -/
inductive DeliverStep (k : Config Tid) (t : Tid) (r : Request) (a : Nat) : Config Tid → Prop
  | malloc (hpurpose : r.purpose = .malloc) :
      DeliverStep k t r a { k.goto t k.state .idle with live := a :: k.live }
  | calloc {payload : Nat} (hpurpose : r.purpose = .calloc)
      (hpayload : blockPayload (some a) = some payload) :
      DeliverStep k t r a { k.goto t { k.state with
          memory := k.state.memory.writeBytes payload r.size fun _ => some 0 } .idle with
        live := a :: k.live }
  | realloc {old payload pointer : Nat} {header : Block} (hpurpose : r.purpose = .realloc old)
      (hpayload : blockPayload (some a) = some payload)
      (hheader : k.state.memory.block old = some header)
      (hpointer : blockPayload (some old) = some pointer) :
      DeliverStep k t r a { k.goto t (copyBytes k.state payload pointer
          (if header.requestedSize < r.size then header.requestedSize else r.size)) (.release old) with
        live := a :: k.live }

theorem deliverStep_of_deliver {r : Request} {a : Nat} (hdeliver : deliver k t r a = some k') :
    DeliverStep k t r a k' := by
  unfold deliver at hdeliver
  obtain ⟨payload, hpayload, h⟩ := Option.bind_eq_some_iff.mp hdeliver
  dsimp only at h
  split at h
  · rename_i hpurpose
    obtain rfl := Option.some.inj h
    exact .malloc hpurpose
  · rename_i hpurpose
    obtain rfl := Option.some.inj h
    exact .calloc hpurpose hpayload
  · rename_i old hpurpose
    obtain ⟨header, hheader, h⟩ := Option.bind_eq_some_iff.mp h
    obtain ⟨pointer, hpointer, h⟩ := Option.bind_eq_some_iff.mp h
    obtain rfl := Option.some.inj h
    exact .realloc hpurpose hpayload hheader hpointer

/-- The ways in which a release can go up to its first publish. -/
inductive ReleaseStep (v : Variant) (w : World) (k : Config Tid) (t : Tid) (a : Nat) : Config Tid → Prop
  | unmapped {header : Block} {s : State Tid} {length : Nat}
      (hheader : k.state.memory.block a = some header) (hkind : header.kind = .large)
      (hunmap : osUnmap w k.state t ⟨header.owner.mapping.1, header.owner.mapping.2⟩
        = (s, some length)) :
      ReleaseStep v w k t a { k.goto t (s.setErrno t (k.state.errno t)) .idle with
        live := k.live.erase a }
  | leaked {header : Block} {s : State Tid} (hheader : k.state.memory.block a = some header)
      (hkind : header.kind = .large)
      (hunmap : osUnmap w k.state t ⟨header.owner.mapping.1, header.owner.mapping.2⟩ = (s, none)) :
      ReleaseStep v w k t a { k.goto t (s.setErrno t (k.state.errno t)) .idle with
        live := k.live.erase a
        leaked := ⟨header.owner.mapping.1, header.owner.mapping.2⟩ :: k.leaked }
  | locked {header : Block} {slab : Slab} {s : State Tid}
      (hheader : k.state.memory.block a = some header) (hkind : header.kind = .small)
      (hslab : k.state.memory.slab header.owner.slab = some slab) (hv : v = .locked)
      (hfree : freeSmallLocked k.state a slab.classIndex = some s) :
      ReleaseStep v w k t a { k.goto t (s.setErrno t (k.state.errno t)) .idle with
        live := k.live.erase a }
  | uncached {header : Block} {slab : Slab} {s₁ s : State Tid} {cache : Ptr} {list : TransferList}
      (hheader : k.state.memory.block a = some header) (hkind : header.kind = .small)
      (hslab : k.state.memory.slab header.owner.slab = some slab) (hv : v = .cached)
      (hacquire : cacheAcquire w k.state t = some (s₁, cache))
      (hstore : storeFreed s₁ cache a slab.classIndex header.capacity = some (s, some list)) :
      ReleaseStep v w k t a { k.goto t s (.publishFreed slab.classIndex list (k.state.errno t)) with
        live := k.live.erase a }
  | stored {header : Block} {slab : Slab} {s₁ s : State Tid} {d : Nat}
      (hheader : k.state.memory.block a = some header) (hkind : header.kind = .small)
      (hslab : k.state.memory.slab header.owner.slab = some slab) (hv : v = .cached)
      (hacquire : cacheAcquire w k.state t = some (s₁, some d))
      (hstore : storeFreed s₁ (some d) a slab.classIndex header.capacity = some (s, none)) :
      ReleaseStep v w k t a { k.goto t s (.evict slab.classIndex d (k.state.errno t)) with
        live := k.live.erase a }

theorem releaseStep_of_release {a : Nat} (hrelease : release v w k t a = some k') :
    ReleaseStep v w k t a k' := by
  obtain ⟨header, hheader, h⟩ := Option.bind_eq_some_iff.mp hrelease
  dsimp only at h
  split at h
  · rename_i hkind
    split at h
    · rename_i hunmap
      obtain rfl := Option.some.inj h
      exact .unmapped hheader hkind hunmap
    · rename_i hunmap
      obtain rfl := Option.some.inj h
      exact .leaked hheader hkind hunmap
  · rename_i hkind
    obtain ⟨slab, hslab, h⟩ := Option.bind_eq_some_iff.mp h
    split at h
    · obtain ⟨s, hfree, h⟩ := Option.bind_eq_some_iff.mp h
      obtain rfl := Option.some.inj h
      exact .locked hheader hkind hslab rfl hfree
    · obtain ⟨⟨s₁, cache⟩, hacquire, h⟩ := Option.bind_eq_some_iff.mp h
      obtain ⟨⟨s, eviction⟩, hstore, h⟩ := Option.bind_eq_some_iff.mp h
      cases eviction with
      | some list =>
          obtain rfl := Option.some.inj h
          exact .uncached hheader hkind hslab rfl hacquire hstore
      | none =>
          obtain ⟨d, hcache, h⟩ := Option.bind_eq_some_iff.mp h
          obtain rfl := Option.some.inj h
          obtain rfl : cache = some d := hcache
          exact .stored hheader hkind hslab rfl hacquire hstore

theorem deliver_cases {r : Request} {a : Nat} (hdeliver : deliver k t r a = some k') :
    ∃ s pc, k' = { k.goto t s pc with live := a :: k.live } ∧
      (pc = .idle ∨ ∃ old, r.purpose = .realloc old ∧ pc = .release old) := by
  cases deliverStep_of_deliver hdeliver with
  | malloc _ => exact ⟨_, _, rfl, Or.inl rfl⟩
  | calloc _ _ => exact ⟨_, _, rfl, Or.inl rfl⟩
  | @realloc old _ _ _ hpurpose _ _ _ => exact ⟨_, _, rfl, Or.inr ⟨old, hpurpose, rfl⟩⟩

theorem release_cases {a : Nat} (hrelease : release v w k t a = some k') :
    ∃ s pc leaked, k' = { k.goto t s pc with live := k.live.erase a, leaked := leaked } ∧
      (pc = .idle ∨ (∃ c list e, pc = .publishFreed c list e) ∨ ∃ c d e, pc = .evict c d e) := by
  cases releaseStep_of_release hrelease with
  | unmapped _ _ _ => exact ⟨_, _, _, rfl, Or.inl rfl⟩
  | leaked _ _ _ => exact ⟨_, _, _, rfl, Or.inl rfl⟩
  | locked _ _ _ _ _ => exact ⟨_, _, _, rfl, Or.inl rfl⟩
  | uncached _ _ _ _ _ _ => exact ⟨_, _, _, rfl, Or.inr (Or.inl ⟨_, _, _, rfl⟩)⟩
  | stored _ _ _ _ _ _ => exact ⟨_, _, _, rfl, Or.inr (Or.inr ⟨_, _, _, rfl⟩)⟩

/-- An action moves one program counter and records no call. -/
theorem Transition.config_eq (htransition : Transition v w k t k') :
    ∃ s pc live owner leaked, k' = ⟨s, Function.update k.pc t pc, live, owner, leaked, k.lastCall⟩ := by
  cases htransition with
  | delivered _ hdeliver =>
      obtain ⟨s, pc, rfl, -⟩ := deliver_cases hdeliver
      exact ⟨_, _, _, _, _, rfl⟩
  | released _ hrelease =>
      obtain ⟨s, pc, leaked, rfl, -⟩ := release_cases hrelease
      exact ⟨_, _, _, _, _, rfl⟩
  | _ => exact ⟨_, _, _, _, _, rfl⟩

/-- The program counters of the other threads stay where they are. -/
theorem Transition.pc_of_ne (htransition : Transition v w k t k') {u : Tid} (hne : u ≠ t) :
    k'.pc u = k.pc u := by
  obtain ⟨_, _, _, _, _, rfl⟩ := htransition.config_eq
  exact Function.update_of_ne hne _ _

theorem Transition.lastCall_eq (htransition : Transition v w k t k') : k'.lastCall = k.lastCall := by
  obtain ⟨_, _, _, _, _, rfl⟩ := htransition.config_eq
  rfl

/-! ### Where a call starts -/

/-- The program counters at which a call can start. -/
inductive Pc.Starts : Pc → Prop
  | idle : Starts .idle
  | allocateSmall (r : Request) (c : ClassIndex) (capacity : Nat) : Starts (.allocateSmall r c capacity)
  | allocateLarge (r : Request) : Starts (.allocateLarge r)
  | release (a : Nat) : Starts (.release a)
  | flush (d : Nat) (teardown : Bool) : Starts (.flush d classIndices teardown)

theorem enterMalloc_starts (s : State Tid) (t : Tid) (r : Request) : (enterMalloc s t r).2.Starts := by
  unfold enterMalloc
  split
  · exact .idle
  · split
    · exact .idle
    · split
      · exact .allocateSmall _ _ _
      · exact .allocateLarge _

theorem enter_starts {s s' : State Tid} {call : Call} {pc : Pc}
    (henter : enter v s t call = some (s', pc)) : pc.Starts := by
  have hmalloc : ∀ r, some (enterMalloc s t r) = some (s', pc) → pc.Starts := by
    intro r h
    have hstarts := enterMalloc_starts s t r
    rwa [Option.some.inj h] at hstarts
  cases call with
  | malloc size => exact hmalloc _ henter
  | calloc count size =>
      simp only [enter] at henter
      split at henter
      · obtain ⟨-, rfl⟩ := Prod.mk.inj (Option.some.inj henter)
        exact .idle
      · split at henter
        · obtain ⟨-, rfl⟩ := Prod.mk.inj (Option.some.inj henter)
          exact .idle
        · exact hmalloc _ henter
  | realloc pointer size =>
      simp only [enter] at henter
      split at henter
      · exact hmalloc _ henter
      · split at henter
        · obtain ⟨-, rfl⟩ := Prod.mk.inj (Option.some.inj henter)
          exact .release _
        · split at henter
          · obtain ⟨-, rfl⟩ := Prod.mk.inj (Option.some.inj henter)
            exact .idle
          · obtain ⟨header, -, h⟩ := Option.bind_eq_some_iff.mp henter
            obtain ⟨retain, -, h⟩ := Option.bind_eq_some_iff.mp h
            split at h
            · obtain ⟨s₁, -, h⟩ := Option.bind_eq_some_iff.mp h
              obtain ⟨-, rfl⟩ := Prod.mk.inj (Option.some.inj h)
              exact .idle
            · exact hmalloc _ h
  | free pointer =>
      simp only [enter] at henter
      split at henter
      all_goals obtain ⟨-, rfl⟩ := Prod.mk.inj (Option.some.inj henter)
      · exact .idle
      · exact .release _
  | threadFlush =>
      simp only [enter] at henter
      split at henter
      · obtain ⟨-, rfl⟩ := Prod.mk.inj (Option.some.inj henter)
        exact .idle
      · split at henter
        all_goals obtain ⟨-, rfl⟩ := Prod.mk.inj (Option.some.inj henter)
        · exact .idle
        · exact .flush _ _
  | threadExit =>
      simp only [enter] at henter
      split at henter
      all_goals obtain ⟨-, rfl⟩ := Prod.mk.inj (Option.some.inj henter)
      · exact .idle
      · exact .flush _ _

end Hplf
