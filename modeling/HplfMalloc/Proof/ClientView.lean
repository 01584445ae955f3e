import HplfMalloc.Proof.Safety
import HplfMalloc.Proof.Transitions
import HplfMalloc.Proof.WholeCalls

/-!
# What an action does to the blocks of the clients

Only a delivery gives a block to a client and only a release takes one. Every other action leaves the live
blocks, their prefixes and their requested bytes alone, whoever acts.
-/

namespace Hplf

open Lib Memory

variable {Tid : Type}
variable {k k' : Config Tid} {t : Tid} {bases larges : List Nat} {g : Place Tid → List Nat}
variable {v : Variant} {w : World} {c : ClassIndex} {r : Request} {capacity : Nat}

theorem SameStorage.keepsLive {s : State Tid} (hsame : SameStorage k.state s) : KeepsLive k s.memory :=
  KeepsLive.of_eq hsame.memory

theorem OsNoise.keepsLive {s : State Tid} (hnoise : OsNoise k.state s) : KeepsLive k s.memory := by
  obtain ⟨_, _, _, rfl⟩ := hnoise
  exact KeepsLive.of_eq rfl

variable [DecidableEq Tid]

theorem unmapDescriptor_memory {s s' : State Tid} {d : Nat} (h : unmapDescriptor w s t d = some s') :
    s'.memory = s.memory := by
  obtain ⟨descriptor, -, h⟩ := Option.bind_eq_some_iff.mp h
  dsimp only at h
  split at h
  all_goals
    obtain rfl := Option.some.inj h
    rfl

/-! ### The stretches of an allocation -/

theorem Inv.keeps_locked (hinv : Inv k bases larges g) {s : State Tid} {pointer : Ptr}
    (hpc : k.pc t = .allocateSmall r c capacity)
    (hallocate : Hplf.allocateSmallLocked w k.state t r.size c capacity = some (s, pointer)) :
    KeepsLive k s.memory := by
  rcases hinv.allocateSmallLocked w hpc with ⟨s', hfailed, hnoise, -⟩ | ⟨a, rest, s', hpop, -, hquiet, -⟩ |
    ⟨a, s', s₁, base, free, h, g', hcreated, hkeeps, -⟩
  · obtain ⟨rfl, -⟩ := Prod.mk.inj (Option.some.inj (hallocate.symm.trans hfailed))
    have hkeeps := hnoise.keepsLive
    exact hkeeps
  · obtain ⟨rfl, -⟩ := Prod.mk.inj (Option.some.inj (hallocate.symm.trans hpop))
    exact hquiet.keepsLive
  · obtain ⟨rfl, -⟩ := Prod.mk.inj (Option.some.inj (hallocate.symm.trans hcreated))
    exact hkeeps

/-- The local stretch: the thread's cache is set up, and its list of the class gives a block or not. -/
theorem Inv.keeps_takeLocal (hinv : Inv k bases larges g) {s₁ s : State Tid} {cache block : Ptr}
    (hpc : k.pc t = .allocateSmall r c capacity) (hacquire : cacheAcquire w k.state t = some (s₁, cache))
    (htake : Hplf.takeLocal s₁ cache c capacity = some (s, block)) :
    KeepsLive k s.memory ∧ (block = none ∨ ∃ a, block = some a ∧
      ∃ g', Inv (k.goto t s (.hand r c a)) bases larges g' ∧ g' (.inflight t) = [a]) := by
  have hfor : sizeClassFor r.size = some (c, capacity) := hinv.fits_at hpc
  obtain ⟨-, -, rfl⟩ := sizeClassFor_eq_some hfor
  have hmine : g (.inflight t) = [] := hinv.carries_at hpc
  obtain ⟨s₂, cache', hacquire', rfl, hsame, hinv₁⟩ := hinv.acquire w (by rw [hpc]; rfl) (by rw [hpc]; rfl)
    (by rw [hpc]; exact fun _ h => h.elim) (by rw [hpc]; exact fun _ => hfor)
  obtain ⟨rfl, rfl⟩ := Prod.mk.inj (Option.some.inj (hacquire.symm.trans hacquire'))
  rw [hpc] at hinv₁
  have hkeeps₁ : KeepsLive k s₁.memory := hsame.keepsLive
  rcases hinv₁.takeLocal (by rw [Config.goto_pc]; rfl) (by rw [Config.goto_pc]; rfl) hmine c with
    ⟨hmiss, -⟩ | ⟨a, rest, s₃, -, hhit, hquiet, hnext⟩
  · rw [Config.goto_state] at hmiss
    obtain ⟨rfl, rfl⟩ := Prod.mk.inj (Option.some.inj (htake.symm.trans hmiss))
    exact ⟨hkeeps₁, Or.inl rfl⟩
  · rw [Config.goto_state] at hhit
    obtain ⟨rfl, rfl⟩ := Prod.mk.inj (Option.some.inj (htake.symm.trans hhit))
    have hinv₂ := hnext r (by rw [Config.goto_pc]; exact .of_request rfl rfl Iff.rfl) hfor
    rw [Config.goto_goto] at hinv₂
    refine ⟨hkeeps₁.trans (j := k.goto t s₁ _) rfl hquiet.keepsLive, Or.inr ⟨a, rfl, _, hinv₂, ?_⟩⟩
    exact replace₂_right

theorem Inv.keeps_handOut {s s' : State Tid} {a : Nat} (hinv : Inv (k.goto t s (.hand r c a)) bases larges g)
    (hmine : g (.inflight t) = [a]) (hkeeps : KeepsLive k s.memory)
    (hset : setRequestedSize s a r.size = some s') : KeepsLive k s'.memory := by
  obtain ⟨s₁, hset', hquiet, -⟩ := hinv.handOut (t := t) (r := r) (c := c) .clear (a := a)
    (by rw [Config.goto_pc]; rfl) hmine
  rw [Config.goto_state] at hset'
  obtain rfl := Option.some.inj (hset.symm.trans hset')
  exact hkeeps.trans (j := k.goto t s _) rfl hquiet.keepsLive

theorem Inv.keeps_detach (hinv : Inv k bases larges g) (hmine : g (.inflight t) = []) {s : State Tid}
    {list : TransferList} (hdetach : transferMutexDetach k.state c = some (s, list)) :
    KeepsLive k s.memory := by
  obtain ⟨s', list', hdetach', hquiet, -⟩ := hinv.detach hmine c
  obtain ⟨rfl, -⟩ := Prod.mk.inj (Option.some.inj (hdetach.symm.trans hdetach'))
  exact hquiet.keepsLive

theorem Inv.keeps_createSlab (hinv : Inv k bases larges g) {s : State Tid} {cache : Ptr}
    {created : Option TransferList} (hpc : k.pc t = .createSlab r c capacity cache)
    (hcreate : createRegisteredSlab w k.state t c capacity = some (s, created)) :
    KeepsLive k s.memory := by
  obtain ⟨hfor, -⟩ : sizeClassFor r.size = some (c, capacity) ∧ cache = cacheCurrent k.state t :=
    hinv.fits_at hpc
  obtain ⟨-, -, rfl⟩ := sizeClassFor_eq_some hfor
  rcases hinv.createSlab w (hinv.carries_at hpc) c with ⟨s', hfailed, hnoise⟩ |
    ⟨s', list, base, h, hcreated, hkeeps, -⟩
  · obtain ⟨rfl, -⟩ := Prod.mk.inj (Option.some.inj (hcreate.symm.trans hfailed))
    exact hnoise.keepsLive
  · obtain ⟨rfl, -⟩ := Prod.mk.inj (Option.some.inj (hcreate.symm.trans hcreated))
    exact hkeeps

/-- A list in the hands of a call is published. -/
theorem Inv.keeps_publish (hinv : Inv k bases larges g) {s : State Tid} {list : TransferList}
    {xs zs : List Nat} (howns : list.Owns k.state.memory xs) (hperm : (xs ++ zs).Perm (g (.inflight t)))
    (hclass : (k.pc t).listClass = some c) (hpublish : transferMutexPublish k.state c list = some s) :
    KeepsLive k s.memory := by
  obtain ⟨s', hpublish', hquiet, -⟩ := hinv.publish zs howns hperm hclass
  obtain rfl := Option.some.inj (hpublish.symm.trans hpublish')
  exact hquiet.keepsLive

theorem Inv.keeps_publishAll (hinv : Inv k bases larges g) {s : State Tid} {list : TransferList}
    (howns : list.Owns k.state.memory (g (.inflight t))) (hclass : (k.pc t).listClass = some c)
    (hpublish : transferMutexPublish k.state c list = some s) : KeepsLive k s.memory := by
  have hall : (g (.inflight t) ++ []).Perm (g (.inflight t)) := by rw [List.append_nil]
  exact hinv.keeps_publish howns hall hclass hpublish

theorem Inv.keeps_allocateLarge (hinv : Inv k bases larges g) {s : State Tid} {pointer : Ptr}
    (hpc : k.pc t = .allocateLarge r) (hallocate : Hplf.allocateLarge w k.state t r.size = (s, pointer)) :
    KeepsLive k s.memory := by
  rcases hinv.allocateLarge w (hinv.carries_at hpc) (hinv.fits_at hpc).1 (by rw [hpc]; rfl)
      (fun a => by rw [hpc]; exact .of_request rfl rfl Iff.rfl) with
    ⟨s', hfailed, hnoise⟩ | ⟨s', a, hmapped, hkeeps, -⟩
  · obtain ⟨rfl, -⟩ := Prod.mk.inj (hallocate.symm.trans hfailed)
    exact hnoise.keepsLive
  · obtain ⟨rfl, -⟩ := Prod.mk.inj (hallocate.symm.trans hmapped)
    exact hkeeps

/-! ### All actions -/

/-- **An action in between.** The action of a thread that neither delivers nor releases a block keeps what
the clients hold. -/
theorem Inv.advance_keepsLive (hinv : Inv k bases larges g) (htransition : Transition v w k t k')
    (hdeliver : ∀ r a, k.pc t ≠ .deliver r a) (hrelease : ∀ a, k.pc t ≠ .release a) :
    k'.live = k.live ∧ KeepsLive k k'.state.memory := by
  cases htransition with
  | lockedFailed hpc hv hallocate hnull => exact ⟨rfl, hinv.keeps_locked hpc hallocate⟩
  | lockedServed hpc hv hallocate hblock => exact ⟨rfl, hinv.keeps_locked hpc hallocate⟩
  | localMiss hpc hv hacquire htake => exact ⟨rfl, (hinv.keeps_takeLocal hpc hacquire htake).1⟩
  | localHit hpc hv hacquire htake hset =>
      obtain ⟨hkeeps, hnone | ⟨a, heq, g', hinv', hmine⟩⟩ := hinv.keeps_takeLocal hpc hacquire htake
      · simp at hnone
      · obtain rfl := Option.some.inj heq
        exact ⟨rfl, hinv'.keeps_handOut hmine hkeeps hset⟩
  | detached hpc hdetach _ => exact ⟨rfl, hinv.keeps_detach (hinv.carries_at hpc) hdetach⟩
  | detachedNothing hpc hdetach _ => exact ⟨rfl, hinv.keeps_detach (hinv.carries_at hpc) hdetach⟩
  | registryLocked hpc _ => exact ⟨rfl, KeepsLive.of_eq rfl⟩
  | rechecked hpc hdetach _ => exact ⟨rfl, hinv.keeps_detach (hinv.carries_at hpc) hdetach⟩
  | recheckedNothing hpc hdetach _ => exact ⟨rfl, hinv.keeps_detach (hinv.carries_at hpc) hdetach⟩
  | slabFailed hpc hcreate =>
      have hkeeps := hinv.keeps_createSlab hpc hcreate
      exact ⟨rfl, hkeeps⟩
  | slabCreated hpc hcreate => exact ⟨rfl, hinv.keeps_createSlab hpc hcreate⟩
  | registryUnlocked hpc => exact ⟨rfl, KeepsLive.of_eq rfl⟩
  | refilled hpc hrefill =>
      obtain ⟨s, rest, a, ys, zs, hrefill', hquiet, -⟩ := hinv.refillAndTake hpc
      obtain ⟨rfl, -⟩ := Prod.mk.inj (Option.some.inj (hrefill.symm.trans hrefill'))
      exact ⟨rfl, hquiet.keepsLive⟩
  | gaveUp hpc hpublish =>
      obtain ⟨a, ys, hblock, -⟩ := hinv.carries_at hpc
      simp at hblock
  | handedOut hpc hpublish hset =>
      obtain ⟨a, s₁, s₂, heq, hpublish', hset', hquiet, -⟩ := hinv.publishRest hpc
      obtain rfl := Option.some.inj heq
      obtain rfl := Option.some.inj (hpublish.symm.trans hpublish')
      obtain rfl := Option.some.inj (hset.symm.trans hset')
      exact ⟨rfl, hquiet.keepsLive⟩
  | largeFailed hpc hallocate hnull => exact ⟨rfl, hinv.keeps_allocateLarge hpc hallocate⟩
  | largeServed hpc hallocate hblock => exact ⟨rfl, hinv.keeps_allocateLarge hpc hallocate⟩
  | delivered hpc _ => exact absurd hpc (hdeliver _ _)
  | released hpc _ => exact absurd hpc (hrelease _)
  | freed hpc hpublish =>
      have hkeeps := hinv.keeps_publishAll (hinv.carries_at hpc) (by rw [hpc]; rfl) hpublish
      exact ⟨rfl, hkeeps⟩
  | evictionDone hpc hevict =>
      rcases hinv.evict hpc with ⟨hdone, -⟩ | ⟨s', f, n, list, hevict', -⟩
      · obtain ⟨rfl, -⟩ := Prod.mk.inj (Option.some.inj (hevict.symm.trans hdone))
        exact ⟨rfl, KeepsLive.of_eq rfl⟩
      · exact absurd (Prod.mk.inj (Option.some.inj (hevict.symm.trans hevict'))).2 (by simp)
  | evicted hpc hevict =>
      rcases hinv.evict hpc with ⟨hdone, -⟩ | ⟨s', f, n, list, hevict', hquiet, -⟩
      · exact absurd (Prod.mk.inj (Option.some.inj (hevict.symm.trans hdone))).2 (by simp)
      · obtain ⟨rfl, -⟩ := Prod.mk.inj (Option.some.inj (hevict.symm.trans hevict'))
        exact ⟨rfl, hquiet.keepsLive⟩
  | evictionPublished hpc hpublish =>
      exact ⟨rfl, hinv.keeps_publishAll (hinv.carries_at hpc) (by rw [hpc]; rfl) hpublish⟩
  | flushDone hpc => exact ⟨rfl, KeepsLive.of_eq rfl⟩
  | flushedNothing hpc hextract =>
      rcases hinv.flushExtract hpc with ⟨hempty, -⟩ | ⟨s', list, hextract', -⟩
      · obtain ⟨rfl, -⟩ := Prod.mk.inj (Option.some.inj (hextract.symm.trans hempty))
        exact ⟨rfl, KeepsLive.of_eq rfl⟩
      · exact absurd (Prod.mk.inj (Option.some.inj (hextract.symm.trans hextract'))).2 (by simp)
  | flushed hpc hextract =>
      rcases hinv.flushExtract hpc with ⟨hempty, -⟩ | ⟨s', list, hextract', hquiet, -⟩
      · exact absurd (Prod.mk.inj (Option.some.inj (hextract.symm.trans hempty))).2 (by simp)
      · obtain ⟨rfl, -⟩ := Prod.mk.inj (Option.some.inj (hextract.symm.trans hextract'))
        exact ⟨rfl, hquiet.keepsLive⟩
  | flushPublished hpc hpublish =>
      exact ⟨rfl, hinv.keeps_publishAll (hinv.carries_at hpc) (by rw [hpc]; rfl) hpublish⟩
  | descriptorUnmapped hpc hunmap =>
      exact ⟨rfl, KeepsLive.of_eq (unmapDescriptor_memory hunmap)⟩

/-! ### Releases -/

omit [DecidableEq Tid] in
/-- Storage that differs in the header of `a` only is the same to the holders of other blocks. -/
theorem Inv.keeps_framed (hinv : Inv k bases larges g) {a : Nat} {m : Memory}
    (hframe : Framed [a] k.state.memory m) : KeepsLive { k with live := k.live.erase a } m := by
  constructor
  · intro x hx
    apply hframe.block
    rw [List.mem_singleton]
    rintro rfl
    exact hinv.live_nodup.not_mem_erase hx
  · intro x _ b _ i _
    rw [hframe.byte]

/-- **A release.** The block is no longer a client's; the others keep what they have. -/
theorem Inv.release_keepsLive (hinv : Inv k bases larges g) {a : Nat} (hpc : k.pc t = .release a)
    (hrelease : ReleaseStep v w k t a k') :
    k'.live = k.live.erase a ∧ KeepsLive { k with live := k.live.erase a } k'.state.memory := by
  have ha : a ∈ k.live := hinv.argument_live t a (by rw [hpc]; rfl)
  rcases hinv.live_cases ha with
    ⟨c, base, h, b, hbase, hh, hc, hslot, hb, hslotOf, hcapacity, -⟩ | ⟨b, hlarge, hb, hat, -, -⟩
  · -- A small block: its header is all that changes.
    have hclass : InClass k.state.memory bases c a := ⟨base, hbase, h, hh, hc, hslot⟩
    have howner : b.owner.slab = base := by rw [hslotOf.owner]; rfl
    have hcached : ∀ {header : Block} {slab : Slab} {s₁ s : State Tid} {cache : Ptr}
        {eviction : Option TransferList}, k.state.memory.block a = some header →
        k.state.memory.slab header.owner.slab = some slab → cacheAcquire w k.state t = some (s₁, cache) →
        Hplf.storeFreed s₁ cache a slab.classIndex header.capacity = some (s, eviction) →
        KeepsLive { k with live := k.live.erase a } s.memory := by
      intro header slab s₁ s cache eviction hheader hslab hacquire hstore
      obtain rfl := Option.some.inj (hb.symm.trans hheader)
      rw [howner, hh] at hslab
      obtain rfl := Option.some.inj hslab
      rw [hc, hcapacity] at hstore
      obtain ⟨s₂, cache', hacquire', rfl, hsame, hinv₁⟩ := hinv.acquire w (by rw [hpc]; rfl)
        (by rw [hpc]; rfl) (by rw [hpc]; exact fun _ h => h.elim) (by rw [hpc]; exact fun _ => trivial)
      obtain ⟨rfl, rfl⟩ := Prod.mk.inj (Option.some.inj (hacquire.symm.trans hacquire'))
      rw [hpc] at hinv₁
      have hclass₁ : InClass (k.goto t s₁ (.release a)).state.memory bases c a := by
        rw [Config.goto_state, hsame.memory]
        exact hclass
      have hframe : Framed [a] s₁.memory s.memory := by
        rcases hinv₁.storeFreed (Config.goto_pc _ _) hclass₁ (k.state.errno t) with
          ⟨s', list, hstore', -, -, hframe, -⟩ | ⟨s', d, hstore', -, -, hframe, -⟩
        all_goals
          obtain ⟨rfl, -⟩ := Prod.mk.inj (Option.some.inj (hstore.symm.trans hstore'))
          exact hframe
      rw [hsame.memory] at hframe
      exact hinv.keeps_framed hframe
    cases hrelease with
    | unmapped hheader hkind _ | leaked hheader hkind _ =>
        obtain rfl := Option.some.inj (hb.symm.trans hheader)
        simp [hslotOf.kind] at hkind
    | locked hheader _ hslab _ hfree =>
        obtain rfl := Option.some.inj (hb.symm.trans hheader)
        rw [howner, hh] at hslab
        obtain rfl := Option.some.inj hslab
        rw [hc] at hfree
        obtain ⟨s', hfree', -, hframe, -⟩ := hinv.freeLocked hpc hclass
        obtain rfl := Option.some.inj (hfree.symm.trans hfree')
        have hkeeps := hinv.keeps_framed hframe
        exact ⟨rfl, hkeeps⟩
    | uncached hheader _ hslab _ hacquire hstore => exact ⟨rfl, hcached hheader hslab hacquire hstore⟩
    | stored hheader _ hslab _ hacquire hstore => exact ⟨rfl, hcached hheader hslab hacquire hstore⟩
  · -- A large block: its mapping is all that goes.
    obtain ⟨s', result, leaked, hunmap', -, hkeeps, -⟩ :=
      hinv.freeLarge w hpc hlarge hb (k.state.errno t)
    cases hrelease with
    | unmapped hheader _ hunmap | leaked hheader _ hunmap =>
        obtain rfl := Option.some.inj (hb.symm.trans hheader)
        obtain ⟨rfl, -⟩ := Prod.mk.inj (hunmap.symm.trans hunmap')
        exact ⟨rfl, hkeeps⟩
    | locked hheader hkind _ _ _ | uncached hheader hkind _ _ _ _ | stored hheader hkind _ _ _ _ =>
        obtain rfl := Option.some.inj (hb.symm.trans hheader)
        simp [hat.kind] at hkind

end Hplf
