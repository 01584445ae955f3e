import HplfMalloc.CacheBounds
import HplfMalloc.Proof.SmallCalls
import HplfMalloc.Proof.Transitions

/-!
# The cached small allocation step

`hplf_allocate_small` of the cached build fails only with slab creation. On a local miss the blocks at hand
are split three ways: one goes to the client, some fill the cache as far as both caps allow, and the others
are published.
-/

namespace Hplf

open Lib Memory ThreadCache

variable {Tid : Type}

/-- The cache a thread was given, if any, represents these lists and is within both caps. -/
def CacheAt (s : State Tid) (cache : Ptr) (lists : ClassIndex → List Nat) : Prop :=
  match cache with
  | none => ∀ c, lists c = []
  | some d => ∃ descriptor, s.descriptor d = some descriptor ∧
      CacheRep s.memory descriptor.cache lists ∧ descriptor.cache.WithinCaps

/-- A local miss of class `c` with the blocks `xs` at hand: other classes may be filled in any way, and
`shared` is what is on the shared list meanwhile. -/
structure Miss (s : State Tid) (cache : Ptr) (c : ClassIndex) (lists : ClassIndex → List Nat)
    (available : TransferList) (xs shared : List Nat) : Prop where
  cached : CacheAt s cache lists
  miss : lists c = []
  owns : available.Owns s.memory xs
  nonempty : xs ≠ []
  chain : Chain s.memory.next (s.sharedHeads c) shared
  separate : Separate (Function.update lists c (xs ++ shared))
  disjoint : ∀ a ∈ xs, a ∉ shared

variable {s : State Tid} {cache : Ptr} {c : ClassIndex} {lists : ClassIndex → List Nat}
variable {available : TransferList} {xs shared : List Nat}

theorem Miss.length_lt (hmiss : Miss s cache c lists available xs shared) :
    xs.length < addressSpace := by
  have hall : xs ⊆ Function.update lists c (xs ++ shared) c := by
    rw [Function.update_self]
    exact List.subset_append_left xs shared
  exact hmiss.separate.length_lt hall hmiss.owns.chain.nodup


/-- **The split.** Refill and take leave one block for the client, some in the cache and the rest in the
list. -/
theorem Miss.refillAndTake (hmiss : Miss s cache c lists available xs shared) :
    ∃ m s' rest a cached published,
      refillAndTake s cache c (sizeClassCapacities c) available = some (s', rest, some a) ∧
        s'.memory = m ∧ s'.sharedHeads = s.sharedHeads ∧ (a :: (cached ++ published)).Perm xs ∧
        cached.length < cacheRefillLimit ∧ CacheAt s' cache (Function.update lists c cached) ∧
        rest.Owns m published ∧ Framed xs s.memory m := by
  have hlength := hmiss.length_lt
  cases hcache : cache with
  | none =>
      have hempty : ∀ e, lists e = [] := by
        have hcached := hmiss.cached
        rwa [hcache] at hcached
      obtain ⟨a, tail, rfl⟩ := List.exists_cons_of_ne_nil hmiss.nonempty
      obtain ⟨m, rest, direct, htake, hfirst, hrest, hframe, -⟩ := takeDirect_of_owns hmiss.owns hlength
      refine ⟨m, { s with memory := m }, rest, a, [], tail, ?_, rfl, rfl, List.Perm.refl _, by decide, ?_,
        hrest, hframe.mono (by simp)⟩
      · simp [Hplf.refillAndTake, htake, hfirst]
      · intro e
        by_cases he : e = c
        · rw [he, Function.update_self]
        · rw [Function.update_of_ne he, hempty]
  | some d =>
      obtain ⟨descriptor, hmapped, hrep, hcaps⟩ : ∃ descriptor, s.descriptor d = some descriptor ∧
          CacheRep s.memory descriptor.cache lists ∧ descriptor.cache.WithinCaps := by
        have hcached := hmiss.cached
        rwa [hcache] at hcached
      have hcount : descriptor.cache.counts c = ([] : List Nat).length := by
        rw [hrep.count, hmiss.miss]
      obtain ⟨s', rest, a, cached, published, m, total, hresult, hrefills⟩ :=
        refillAndTake_of_chains hmapped hrep.sound hcaps hmiss.owns hmiss.nonempty hlength
          (hmiss.miss ▸ hrep.chain c) hcount (by simp)
      have hperm : (a :: (cached ++ published)).Perm xs := by
        have hperm := hrefills.perm
        rw [List.nil_append] at hperm
        exact List.perm_middle.symm.trans hperm
      have hsub : cached ⊆ xs ++ shared := fun b hb => List.mem_append_left _
        (hperm.mem_iff.mp (List.mem_cons_of_mem a (List.mem_append_left _ hb)))
      have hframe : Framed xs s.memory m := by
        have hframe := hrefills.framed
        rwa [List.nil_append] at hframe
      refine ⟨m, s', rest, a, cached, published, hresult, ?_, ?_, hperm, hrefills.newly rfl, ?_,
        hrefills.owns, hframe⟩
      · rw [hrefills.state_eq]
        rfl
      · rw [hrefills.state_eq]
        rfl
      · rw [hrefills.state_eq]
        refine ⟨_, Function.update_self _ _ _, ⟨fun e => ?_, fun e => ?_, hrefills.sound.balanced,
          hmiss.separate.shrink hsub⟩, hrefills.caps⟩
        · by_cases he : e = c
          · subst he
            simpa [State.withDescriptorCache, ThreadCache.withClass] using hrefills.chain
          · have hchain := hframe.chain (hrep.chain e) (hmiss.separate.not_mem_nodes
              (List.subset_append_left xs shared) e he)
            simpa [State.withDescriptorCache, ThreadCache.withClass, he] using hchain
        · by_cases he : e = c
          · subst he
            simp [ThreadCache.withClass]
          · simpa [ThreadCache.withClass, he] using hrep.count e

theorem CacheAt.congr {s' : State Tid} {nodes : List Nat} (hat : CacheAt s cache lists)
    (hframe : Framed nodes s.memory s'.memory) (hdescriptor : s'.descriptor = s.descriptor)
    (hnodes : ∀ e, ∀ a ∈ lists e, a ∉ nodes) : CacheAt s' cache lists := by
  cases cache with
  | none => exact hat
  | some d =>
      obtain ⟨descriptor, hmapped, hrep, hcaps⟩ := hat
      exact ⟨descriptor, by rw [hdescriptor, hmapped], hrep.framed hframe hnodes, hcaps⟩

variable [DecidableEq Tid]

/-- What an allocation does with the blocks at hand on a local miss. -/
structure Splits (s : State Tid) (t : Tid) (requestedSize : Nat) (cache : Ptr) (c : ClassIndex)
    (lists : ClassIndex → List Nat) (available : TransferList) (xs shared : List Nat) (s' : State Tid)
    (block : Nat) (cached published : List Nat) : Prop where
  result : allocateFrom s t cache requestedSize c (sizeClassCapacities c) available
    = some (s', blockPayload (some block))
  size : s'.memory.size block = some requestedSize
  perm : (block :: (cached ++ published)).Perm xs
  newly : cached.length ≤ cacheRefillLimit - 1
  cached : CacheAt s' cache (Function.update lists c cached)
  published : Chain s'.memory.next (s'.sharedHeads c) (published ++ shared)

theorem Miss.splits (hmiss : Miss s cache c lists available xs shared) (t : Tid)
    (requestedSize : Nat) :
    ∃ s' block cached published,
      Splits s t requestedSize cache c lists available xs shared s' block cached published := by
  obtain ⟨m, s₁, rest, a, cached, published, hrefill, rfl, hheads, hperm, hnewly, hat, hrest, hframe⟩ :=
    hmiss.refillAndTake
  have hmem : ∀ b, b = a ∨ b ∈ cached ∨ b ∈ published → b ∈ xs := fun b hb => by
    apply hperm.mem_iff.mp
    simpa using hb
  have hnodup := hperm.nodup_iff.mpr hmiss.owns.chain.nodup
  obtain ⟨hblock, hrestNodup⟩ := List.nodup_cons.mp hnodup
  have hcross := (List.nodup_append.mp hrestNodup).2.2
  have hshared : Chain s₁.memory.next (s₁.sharedHeads c) shared := by
    rw [hheads]
    exact hframe.chain hmiss.chain fun b hb hxs => hmiss.disjoint b hxs hb
  obtain ⟨m₂, hpublish, hframe₂, -, hchain₂⟩ := transferMutexPublish_of_owns hrest hshared
    fun b hb hmem' => hmiss.disjoint b (hmem b (Or.inr (Or.inr hb))) hmem'
  have hnext : ∃ q, m₂.next a = some q := by
    obtain ⟨q, hq⟩ := hmiss.owns.chain.exists_link (hmem a (Or.inl rfl))
    obtain ⟨b, hb, -⟩ := exists_block_of_next hq
    obtain ⟨b₁, hb₁, -⟩ := hframe.exists_block hb
    obtain ⟨b₂, hb₂, -⟩ := hframe₂.exists_block hb₁
    exact ⟨_, next_eq_some hb₂⟩
  obtain ⟨q, hq⟩ := hnext
  obtain ⟨m₃, hset, hframe₃, hnext₃, hsize₃⟩ := exists_setRequestedSize hq requestedSize
  refine ⟨{ s₁ with
      memory := m₃
      sharedHeads := Function.update s₁.sharedHeads c (published ++ shared).head? }, a, cached, published,
    ?_, ?_, hperm, by omega, ?_, ?_⟩
  · simp only [allocateFrom, hrefill, hpublish, Option.bind_eq_bind, Option.bind_some,
      setRequestedSize, hset]
  · simp [hsize₃]
  · have hkeep : Framed (published ++ [a]) s₁.memory m₃ :=
      (hframe₂.mono (by simp)).trans (hframe₃.mono (by simp))
    refine hat.congr hkeep rfl fun e b hb hnodes => ?_
    by_cases he : e = c
    · subst he
      rw [Function.update_self] at hb
      rcases List.mem_append.mp hnodes with hp | hp
      · exact hcross b hb b hp rfl
      · obtain rfl := List.mem_singleton.mp hp
        exact hblock (List.mem_append_left _ hb)
    · rw [Function.update_of_ne he] at hb
      refine hmiss.separate.not_mem_nodes (List.subset_append_left xs shared) e he b hb (hmem b ?_)
      rcases List.mem_append.mp hnodes with hp | hp
      · exact Or.inr (Or.inr hp)
      · exact Or.inl (List.mem_singleton.mp hp)
  · change Chain m₃.next (Function.update s₁.sharedHeads c (published ++ shared).head? c) _
    rw [Function.update_self, hnext₃]
    exact hchain₂

/-! ### The class stays empty until the refill -/

/-- The class a call has missed in its cache. -/
def Pc.missed : Pc → Option ClassIndex
  | .detach _ c _ _ | .lockRegistry _ c _ _ | .recheck _ c _ _ | .createSlab _ c _ _
  | .unlockRegistry _ c _ _ _ | .refill _ c _ _ _ => some c
  | _ => none

/-- The program counters of `hplf_allocate_small`. -/
def Pc.Allocating : Pc → Prop
  | .allocateSmall _ _ _ | .publishRest _ _ _ _ => True
  | pc => pc.missed ≠ none

/-- The cache of thread `t` has nothing of class `c`. -/
def NothingOf (k : Config Tid) (t : Tid) (c : ClassIndex) : Prop :=
  ∀ d, k.cacheOf t = some d →
    ∃ descriptor, k.state.descriptor d = some descriptor ∧ descriptor.cache.heads c = none

/-- A call that has missed a class has nothing of that class in its cache. -/
def Missed (k : Config Tid) : Prop := ∀ t c, (k.pc t).missed = some c → NothingOf k t c

variable {k k' : Config Tid} {t : Tid} {bases larges : List Nat} {g : Place Tid → List Nat} {w : World}

section

omit [DecidableEq Tid]

/-- In terms of the lists of the invariant. -/
theorem Inv.missed_iff (hinv : Inv k bases larges g) :
    NothingOf k t c ↔ g (.cache t c) = [] := by
  constructor
  · intro hmissed
    cases hd : k.cacheOf t with
    | none => exact hinv.cache_eq_nil hd c
    | some d =>
        obtain ⟨descriptor, hmapped, hhead⟩ := hmissed d hd
        obtain ⟨descriptor', hown⟩ := hinv.ownCache hd
        obtain rfl := Option.some.inj (hmapped.symm.trans hown.ok.mapped)
        exact (hown.chain c).eq_nil_iff.mp hhead
  · intro hnil d hd
    obtain ⟨descriptor, hown⟩ := hinv.ownCache hd
    exact ⟨descriptor, hown.ok.mapped, (hown.chain c).eq_nil_iff.mpr hnil⟩

/-- A take that returns `NULL` has found the list empty and changed nothing. -/
theorem takeLocal_none {s s' : State Tid} {capacity : Nat}
    (htake : takeLocal s cache c capacity = some (s', none)) :
    s' = s ∧ ∀ d, cache = some d →
      ∃ descriptor, s.descriptor d = some descriptor ∧ descriptor.cache.heads c = none := by
  cases cache with
  | none =>
      obtain ⟨rfl, -⟩ := Prod.mk.inj (Option.some.inj htake)
      exact ⟨rfl, by simp⟩
  | some d =>
      obtain ⟨descriptor, hmapped, htake⟩ := Option.bind_eq_some_iff.mp htake
      obtain ⟨⟨m, cache', result⟩, hoperation, heq⟩ := Option.bind_eq_some_iff.mp htake
      obtain ⟨rfl, rfl⟩ := Prod.mk.inj (Option.some.inj heq)
      dsimp only [threadCacheTake] at hoperation
      split at hoperation
      · rename_i hhead
        simp only [Option.some.injEq, Prod.mk.injEq, and_true] at hoperation
        obtain ⟨rfl, rfl⟩ := hoperation
        refine ⟨?_, fun d' hd' => ?_⟩
        · rw [← hmapped, Function.update_eq_self]
        · obtain rfl := Option.some.inj hd'
          exact ⟨descriptor, hmapped, hhead⟩
      · obtain ⟨rest, -, hoperation⟩ := Option.bind_eq_some_iff.mp hoperation
        obtain ⟨m', -, hoperation⟩ := Option.bind_eq_some_iff.mp hoperation
        simp at hoperation

/-- What keeps the descriptors and the lifecycle data keeps the miss. -/
theorem SameLifecycle.missed (hsame : SameLifecycle none k.state k'.state)
    (hpc : (k.pc t).teardown = none) (hpc' : (k'.pc t).teardown = none)
    (hmissed : NothingOf k t c) : NothingOf k' t c := by
  intro d hd
  rw [Config.cacheOf_eq_current hpc', cacheCurrent_congr (congrFun hsame.currentState t)
    (congrFun hsame.currentDescriptor t)] at hd
  rw [hsame.others d (by simp)]
  exact hmissed d ((Config.cacheOf_eq_current hpc).trans hd)

end

/-- Neither delivering nor freeing a block leads back into an allocation, and a call starts before its
first miss. -/
theorem deliver_missed {a : Nat} {r : Request} (hdeliver : deliver k t r a = some k') :
    (k'.pc t).missed = none := by
  obtain ⟨s, pc, rfl, rfl | ⟨_, -, rfl⟩⟩ := deliver_cases hdeliver
  · simp [Pc.missed]
  · simp [Pc.missed]

theorem release_missed {v : Variant} {a : Nat} (hrelease : release v w k t a = some k') :
    (k'.pc t).missed = none := by
  obtain ⟨s, pc, leaked, rfl, rfl | ⟨_, _, _, rfl⟩ | ⟨_, _, _, rfl⟩⟩ := release_cases hrelease
  · simp [Pc.missed]
  · simp [Pc.missed]
  · simp [Pc.missed]

theorem enterMalloc_missed {s : State Tid} {r : Request} : (enterMalloc s t r).2.missed = none := by
  unfold enterMalloc
  split
  · rfl
  split
  · rfl
  split <;> rfl

theorem enter_missed {v : Variant} {s s' : State Tid} {call : Call} {pc : Pc}
    (henter : enter v s t call = some (s', pc)) : pc.missed = none := by
  cases call with
  | malloc size =>
      rw [← (Prod.mk.inj (Option.some.inj henter)).2]
      exact enterMalloc_missed
  | calloc count size =>
      unfold enter at henter
      dsimp only at henter
      split at henter
      · rw [← (Prod.mk.inj (Option.some.inj henter)).2]
        rfl
      split at henter
      · rw [← (Prod.mk.inj (Option.some.inj henter)).2]
        rfl
      · rw [← (Prod.mk.inj (Option.some.inj henter)).2]
        exact enterMalloc_missed
  | realloc pointer size =>
      unfold enter at henter
      dsimp only at henter
      split at henter
      · rw [← (Prod.mk.inj (Option.some.inj henter)).2]
        exact enterMalloc_missed
      split at henter
      · rw [← (Prod.mk.inj (Option.some.inj henter)).2]
        rfl
      split at henter
      · rw [← (Prod.mk.inj (Option.some.inj henter)).2]
        rfl
      obtain ⟨header, -, h⟩ := Option.bind_eq_some_iff.mp henter
      obtain ⟨retain, -, h⟩ := Option.bind_eq_some_iff.mp h
      split at h
      · obtain ⟨s₁, -, h⟩ := Option.bind_eq_some_iff.mp h
        rw [← (Prod.mk.inj (Option.some.inj h)).2]
        rfl
      · rw [← (Prod.mk.inj (Option.some.inj h)).2]
        exact enterMalloc_missed
  | free pointer =>
      unfold enter at henter
      dsimp only at henter
      split at henter <;> rw [← (Prod.mk.inj (Option.some.inj henter)).2] <;> rfl
  | threadFlush =>
      unfold enter at henter
      dsimp only at henter
      split at henter
      · rw [← (Prod.mk.inj (Option.some.inj henter)).2]
        rfl
      split at henter <;> rw [← (Prod.mk.inj (Option.some.inj henter)).2] <;> rfl
  | threadExit =>
      unfold enter at henter
      dsimp only at henter
      split at henter <;> rw [← (Prod.mk.inj (Option.some.inj henter)).2] <;> rfl

/-- **The thread's own actions.** From the miss to the refill they leave its cache alone. -/
theorem Inv.missed_advance (hinv : Inv k bases larges g) (hmissed : Missed k)
    (hadvance : advance .cached w k t = some k') (hnext : (k'.pc t).missed = some c) :
    NothingOf k' t c := by
  have hold := hmissed t c
  cases transition_of_advance hadvance with
  | @localMiss r e capacity s₁ s cache hpc _ hacquire htake =>
      obtain ⟨rfl, hempty⟩ := takeLocal_none htake
      have hfor : sizeClassFor r.size = some (e, capacity) := hinv.fits_at hpc
      obtain ⟨s', cache', hacquire', hcache, -, -⟩ := hinv.acquire w (by rw [hpc]; rfl)
        (by rw [hpc]; rfl) (by rw [hpc]; exact fun _ h => h.elim) (by rw [hpc]; exact fun _ => hfor)
      obtain ⟨rfl, rfl⟩ := Prod.mk.inj (Option.some.inj (hacquire'.symm.trans hacquire))
      rw [Config.goto_pc] at hnext
      obtain rfl := Option.some.inj hnext
      intro d hd
      rw [Config.cacheOf_eq_current (by rw [Config.goto_pc]; rfl), Config.goto_state, ← hcache] at hd
      exact hempty d hd
  | detached hpc hdetach _ | detachedNothing hpc hdetach _ | rechecked hpc hdetach _
  | recheckedNothing hpc hdetach _ =>
      rw [Config.goto_pc] at hnext
      refine (transferMutexDetach_work hdetach).sameLifecycle.missed (by rw [hpc]; rfl)
        (by rw [Config.goto_pc]; rfl) (hold ?_)
      rw [hpc]
      exact hnext
  | slabCreated hpc hcreate =>
      rw [Config.goto_pc] at hnext
      refine (createRegisteredSlab_work hcreate).sameLifecycle.missed (by rw [hpc]; rfl)
        (by rw [Config.goto_pc]; rfl) (hold ?_)
      rw [hpc]
      exact hnext
  | registryLocked hpc _ | registryUnlocked hpc =>
      have hnext' := (congrArg Pc.missed (Config.goto_pc k.state _)).symm.trans hnext
      refine SameLifecycle.missed ?_ ?_ (congrArg Pc.teardown (Config.goto_pc k.state _)) (hold ?_)
      · exact SameLifecycle.refl none k.state
      · rw [hpc]
        rfl
      · rw [hpc]
        exact hnext'
  | delivered _ hdeliver => rw [deliver_missed hdeliver] at hnext; cases hnext
  | released _ hrelease => rw [release_missed hrelease] at hnext; cases hnext
  | @flushDone d teardown _ => cases teardown <;> simp [Pc.missed] at hnext
  | _ => simp [Pc.missed] at hnext

omit [DecidableEq Tid] in
/-- What others do leaves the list, and with it the miss. -/
theorem Inv.missed_other {k' : Config Tid} {bases' larges' : List Nat} {g' : Place Tid → List Nat}
    (hinv : Inv k bases larges g) (hinv' : Inv k' bases' larges' g') (hmissed : Missed k) (u : Tid)
    (hpc : k'.pc u = k.pc u) (hsame : ∀ c, g' (.cache u c) = g (.cache u c))
    (hnext : (k'.pc u).missed = some c) : NothingOf k' u c := by
  rw [hpc] at hnext
  exact hinv'.missed_iff.mpr ((hsame c).trans (hinv.missed_iff.mp (hmissed u c hnext)))

theorem Inv.missed_step {e : Option (Tid × Option Call)} (hinv : Inv k bases larges g)
    (hmissed : Missed k) (hstep : Step .cached w k e k') : Missed k' := by
  intro u c hnext
  cases hstep with
  | @call t call s pc hidle hallowed henter =>
      obtain ⟨s', pc', henter', hinv'⟩ := hinv.enter .cached hidle hallowed
      obtain ⟨rfl, rfl⟩ := Prod.mk.inj (Option.some.inj (henter'.symm.trans henter))
      by_cases hu : u = t
      · subst hu
        have hnext' := (congrArg Pc.missed (Config.goto_pc s' pc')).symm.trans hnext
        rw [enter_missed henter] at hnext'
        cases hnext'
      · exact hinv.missed_other hinv' hmissed u (Config.goto_pc_of_ne hu _ _) (fun _ => rfl) hnext
  | @advance _ t hadvance =>
      by_cases hu : u = t
      · subst hu
        exact hinv.missed_advance hmissed hadvance hnext
      · obtain ⟨bases', larges', g', hinv', hforeign⟩ := hinv.of_advance hadvance
        obtain ⟨pc, hpc, -⟩ := hinv.moved hadvance
        have hother : k'.pc u = k.pc u := by rw [hpc, Function.update_of_ne hu]
        exact hinv.missed_other hinv' hmissed u hother (fun c => hforeign _ u rfl hu) hnext
  | write hlive _ hheader hoffset hpayload =>
      exact hinv.missed_other (hinv.write hlive hheader hoffset hpayload _) hmissed u rfl
        (fun _ => rfl) hnext
  | trim hquiescent _ =>
      have hidle : k.pc u = .idle := hquiescent u
      have hnext' : (k.pc u).missed = some c := hnext
      rw [hidle] at hnext'
      cases hnext'

theorem missed_of_reachable (hreach : (machine Tid .cached w).Reachable k) : Missed k := by
  have hboth : Safe k ∧ Missed k := by
    refine hreach.invariant (I := fun k => Safe k ∧ Missed k) ?_ ?_
    · rintro k (rfl : k = Config.initial)
      exact ⟨⟨_, _, _, Inv.initial⟩, fun t c h => by cases h⟩
    · rintro k e k' ⟨hsafe, hmissed⟩ hstep
      refine ⟨hsafe.step hstep, ?_⟩
      obtain ⟨bases, larges, g, hinv⟩ := hsafe
      exact hinv.missed_step hmissed hstep
  exact hboth.2

/-! ### The step -/

/-- What holds of a thread inside `hplf_allocate_small`. -/
structure SmallAllocationStep (w : World) (k : Config Tid) (t : Tid) : Prop where
  /-- The whole function, run without interference, returns; a null pointer means that slab creation was
  called and failed. -/
  returns : ∀ r c capacity, k.pc t = .allocateSmall r c capacity →
    ∃ s pointer, allocateSmallCached w k.state t r.size c capacity = some (s, pointer) ∧
      (pointer = none → ∃ s₁ cache, cacheAcquire w k.state t = some (s₁, cache) ∧
        (slabCreate w s₁ t c capacity).2 = none)
  /-- The same of its actions among those of other threads. -/
  null : ∀ k', advance .cached w k t = some k' → (k.pc t).Allocating →
    (k'.pc t).Allocating ∨ (∃ r a, k'.pc t = .deliver r a) ∨
      k'.pc t = .idle ∧ ∃ r c capacity cache, k.pc t = .createSlab r c capacity cache ∧
        (slabCreate w k.state t c capacity).2 = none
  defensive : ∀ r c available, k.pc t ≠ .publishRest r c available none
  /-- At the refill a nonempty list is at hand, the class is empty in the cache, and the other classes are
  filled within both caps. -/
  miss : ∀ r c capacity cache available, k.pc t = .refill r c capacity cache available →
    capacity = sizeClassCapacities c ∧
      ∃ lists xs shared, Miss k.state cache c lists available xs shared

omit [DecidableEq Tid] in
theorem Inv.not_defensive (hinv : Inv k bases larges g) (r : Request) (c : ClassIndex)
    (available : TransferList) : k.pc t ≠ .publishRest r c available none := by
  intro hpc
  have hcarries := hinv.carries_at hpc
  obtain ⟨a, ys, hblock, -⟩ := hcarries
  cases hblock

theorem Inv.allocating_advance (hinv : Inv k bases larges g)
    (hadvance : advance .cached w k t = some k') (hallocating : (k.pc t).Allocating) :
    (k'.pc t).Allocating ∨ (∃ r a, k'.pc t = .deliver r a) ∨
      k'.pc t = .idle ∧ ∃ r c capacity cache, k.pc t = .createSlab r c capacity cache ∧
        (slabCreate w k.state t c capacity).2 = none := by
  cases transition_of_advance hadvance with
  | lockedFailed _ hv _ _ | lockedServed _ hv _ _ => cases hv
  | localMiss _ _ _ _ | detached _ _ _ | detachedNothing _ _ _ | registryLocked _ _ | rechecked _ _ _
  | recheckedNothing _ _ _ | slabCreated _ _ | registryUnlocked _ | refilled _ _ =>
      exact Or.inl (by simp [Config.goto, Pc.Allocating, Pc.missed])
  | localHit _ _ _ _ _ | handedOut _ _ _ => exact Or.inr (Or.inl ⟨_, _, Config.goto_pc _ _⟩)
  | slabFailed hpc hcreate =>
      refine Or.inr (Or.inr ⟨Function.update_self _ _ _, _, _, _, _, hpc, ?_⟩)
      rw [createRegisteredSlab_none hcreate]
  | gaveUp hpc _ => exact (hinv.not_defensive _ _ _ hpc).elim
  | largeFailed hpc _ _ | largeServed hpc _ _ | delivered hpc _ | released hpc _ | freed hpc _
  | evictionDone hpc _ | evicted hpc _ | evictionPublished hpc _ | flushDone hpc
  | flushedNothing hpc _ | flushed hpc _ | flushPublished hpc _ | descriptorUnmapped hpc _ =>
      rw [hpc] at hallocating
      exact (hallocating rfl).elim

omit [DecidableEq Tid] in
/-- The configuration at the refill in terms of its lists. -/
theorem Inv.miss (hinv : Inv k bases larges g) (hmissed : Missed k) {r : Request} {capacity : Nat}
    (hpc : k.pc t = .refill r c capacity cache available) : capacity = sizeClassCapacities c ∧
      Miss k.state cache c (fun e => g (.cache t e)) available (g (.inflight t)) (g (.shared c)) := by
  obtain ⟨hfor, -⟩ : sizeClassFor r.size = some (c, capacity) ∧ cache = cacheCurrent k.state t :=
    hinv.fits_at hpc
  have hown := hinv.refills_own hpc
  obtain ⟨howns, hne⟩ : available.Owns k.state.memory (g (.inflight t)) ∧ g (.inflight t) ≠ [] :=
    hinv.carries_at hpc
  refine ⟨(sizeClassFor_eq_some hfor).2.2, ?_, hinv.missed_iff.mp (hmissed t c (by rw [hpc]; rfl)), howns,
    hne, hinv.holds (.shared c), ?_, fun a ha ha' => by simpa using hinv.placed.disjoint ha ha'⟩
  · cases cache with
    | none => exact fun e => hinv.cache_eq_nil hown e
    | some d =>
        obtain ⟨descriptor, hcache, hrep⟩ := hinv.cacheRep hown
        exact ⟨descriptor, hcache.ok.mapped, hrep, hcache.ok.caps.withinCaps (by rw [hpc]; rfl)⟩
  · apply hinv.storage.separate
    intro e a ha
    by_cases he : e = c
    · subst he
      rw [Function.update_self] at ha
      rcases List.mem_append.mp ha with ha | ha
      · exact (hinv.free_of_inflight (by rw [hpc]; rfl) ha).1
      · exact (hinv.free_of_shared ha).1
    · rw [Function.update_of_ne he] at ha
      exact (hinv.free_of_cache ha).1

theorem Inv.smallAllocationStep (hinv : Inv k bases larges g) (hmissed : Missed k) :
    SmallAllocationStep w k t where
  returns r c capacity hpc := by
    have hfor : sizeClassFor r.size = some (c, capacity) := hinv.fits_at hpc
    obtain ⟨-, -, rfl⟩ := sizeClassFor_eq_some hfor
    obtain ⟨s, cache, hacquire, -, -, houtcome⟩ := hinv.allocateSmallCached w hpc
    generalize Hplf.allocateSmallCached w k.state t r.size c (sizeClassCapacities c) = result at houtcome ⊢
    cases houtcome with
    | reused => exact ⟨_, _, rfl, fun h => by simp at h⟩
    | created => exact ⟨_, _, rfl, fun h => by simp at h⟩
    | failed _ hcreate _ => exact ⟨_, _, rfl, fun _ => ⟨s, cache, hacquire, by rw [hcreate]⟩⟩
  null k' hadvance hallocating := hinv.allocating_advance hadvance hallocating
  defensive := hinv.not_defensive
  miss r c capacity cache available hpc := by
    obtain ⟨hcapacity, hmiss⟩ := hinv.miss hmissed hpc
    exact ⟨hcapacity, _, _, _, hmiss⟩

/-- **The cached small allocation step.** In every reachable configuration of the cached build
`hplf_allocate_small` returns a null pointer only from a failed slab creation, and never through the
defensive branch. On a local miss, whatever the cache holds of other classes and whatever list is at hand,
one block goes to the client, fewer than `HPLF_CACHE_REFILL_LIMIT` are cached within both caps, and all
others are published. -/
theorem small_allocation (w : World) :
    (∀ k : Config Tid, (machine Tid .cached w).Reachable k → ∀ t, SmallAllocationStep w k t) ∧
    ∀ (s : State Tid) cache c lists available xs shared, Miss s cache c lists available xs shared →
      ∀ t requestedSize, ∃ s' block cached published,
        Splits s t requestedSize cache c lists available xs shared s' block cached published := by
  refine ⟨fun k hreach t => ?_, fun s cache c lists available xs shared hmiss t n => hmiss.splits t n⟩
  obtain ⟨bases, larges, g, hinv⟩ := safe_of_reachable hreach
  exact hinv.smallAllocationStep (missed_of_reachable hreach)

/-- The first allocation of a thread finds nothing and splits the blocks of a new slab. -/
theorem small_allocation_first_malloc : ∃ (k : Config (Fin 2)) (r : Request) (c : ClassIndex)
    (cache : Ptr) (available : TransferList),
    (machine (Fin 2) .cached (bumpWorld fun _ => none)).Reachable k ∧
      k.pc 0 = .refill r c (sizeClassCapacities c) cache available ∧
      ∃ lists xs shared s' block cached published,
        Splits k.state 0 r.size cache c lists available xs shared s' block cached published := by
  obtain ⟨k, hreach, hcheck⟩ := exists_makeMoves .cached (bumpWorld fun _ => none)
    (callMoves (0 : Fin 2) (.malloc maxSmallSize) 6)
    (fun k => match k.pc 0 with | .refill _ _ _ _ _ => true | _ => false) (by decide +kernel)
  split at hcheck
  · rename_i r c capacity cache available hpc
    obtain ⟨rfl, lists, xs, shared, hmiss⟩ :=
      ((small_allocation _).1 k hreach 0).miss r c capacity cache available hpc
    exact ⟨k, r, c, cache, available, hreach, hpc, lists, xs, shared,
      (small_allocation (bumpWorld fun _ => none)).2 k.state cache c lists available xs shared hmiss 0
        r.size⟩
  · cases hcheck

end Hplf
