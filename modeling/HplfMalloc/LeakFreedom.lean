import HplfMalloc.CacheLifecycle
import HplfMalloc.Lib.Intervals
import HplfMalloc.Proof.Transitions

/-!
# Leak freedom

When every small allocation has been freed and every thread with a cache has flushed it last or exited,
no free block is stranded: all of them are on the transfer lists, and a trim gives every slab back. What
carries this through a run is that the cache of a thread whose last call was a flush stays empty.
-/

namespace Hplf

open Lib Memory

variable {Tid : Type} [DecidableEq Tid]

/-- Thread `t` keeps no block back: it has no active cache, since it never activated one or has exited
through `destroy_descriptor`, or its last call was `hplf_thread_flush`. -/
def Config.Retired (k : Config Tid) (t : Tid) : Prop :=
  k.state.currentState t = .active → k.lastCall t = some .threadFlush

/-- Every small allocation has been freed. -/
def Config.NoSmallLive (k : Config Tid) : Prop :=
  ∀ a ∈ k.live, ∀ b, k.state.memory.block a = some b → b.kind = .large

/-- A call to `hplf_thread_flush` is at work. -/
def Pc.Flushing : Pc → Prop
  | .flush _ _ false | .publishFlush _ _ _ _ false => True
  | _ => False

/-- A thread whose last call was a flush is still at it or has an empty cache. -/
def FlushedLast (k : Config Tid) (g : Place Tid → List Nat) : Prop :=
  ∀ t, k.lastCall t = some .threadFlush →
    (k.pc t).Flushing ∨ k.pc t = .idle ∧ ∀ c, g (.cache t c) = []

variable {v : Variant} {w : World} {k k' : Config Tid} {t : Tid} {bases larges : List Nat}
variable {g : Place Tid → List Nat}

/-- The call itself: without a cache there is nothing to flush. -/
theorem Inv.flushedLast_enter (hinv : Inv k bases larges g) (hidle : k.pc t = .idle) {s : State Tid}
    {pc : Pc} (henter : Hplf.enter .cached k.state t .threadFlush = some (s, pc)) :
    pc.Flushing ∨ pc = .idle ∧ ∀ c, g (.cache t c) = [] := by
  simp only [Hplf.enter] at henter
  split at henter
  all_goals obtain ⟨-, rfl⟩ := Prod.mk.inj (Option.some.inj henter)
  · rename_i hnone
    have hcache : k.cacheOf t = none :=
      (Config.cacheOf_eq_current (by rw [hidle]; rfl)).trans hnone
    exact Or.inr ⟨rfl, fun c => hinv.cache_eq_nil hcache c⟩
  · exact Or.inl trivial

/-- The actions of a flush go on flushing until every class has been emptied. -/
theorem Inv.flushedLast_advance (hinv : Inv k bases larges g) (hflushing : (k.pc t).Flushing)
    (htransition : Transition v w k t k') {bases' larges' : List Nat} {g' : Place Tid → List Nat}
    (hinv' : Inv k' bases' larges' g') :
    (k'.pc t).Flushing ∨ k'.pc t = .idle ∧ ∀ c, g' (.cache t c) = [] := by
  cases htransition with
  | @flushDone d teardown hpc =>
      cases teardown with
      | true => simp [hpc, Pc.Flushing] at hflushing
      | false =>
          refine Or.inr ⟨Config.goto_pc .., fun c => ?_⟩
          have hnil : g (.cache t c) = [] :=
            hinv.emptied t c (by rw [hpc]; exact List.not_mem_nil)
          have hcache : (k.goto t k.state .idle).cacheOf t = k.cacheOf t := by
            simp only [Config.cacheOf, Config.goto_pc, hpc, Pc.teardown]
            rfl
          have hholds : Holds (k.goto t k.state .idle) (.cache t c) [] := by
            have hbefore := hinv.holds (.cache t c)
            rw [hnil] at hbefore
            simp only [Holds] at hbefore ⊢
            rwa [hcache]
          exact (hinv'.eq_of_holds_cache hholds).symm
  | @flushedNothing d c rest teardown s hpc _ =>
      cases teardown with
      | true => simp [hpc, Pc.Flushing] at hflushing
      | false => exact Or.inl (by rw [Config.goto_pc]; trivial)
  | @flushed d c rest teardown s list hpc _ =>
      cases teardown with
      | true => simp [hpc, Pc.Flushing] at hflushing
      | false => exact Or.inl (by rw [Config.goto_pc]; trivial)
  | @flushPublished d c rest teardown s list hpc _ =>
      cases teardown with
      | true => simp [hpc, Pc.Flushing] at hflushing
      | false => exact Or.inl (by rw [Config.goto_pc]; trivial)
  | _ => simp_all [Pc.Flushing]

/-- **One step.** What a thread has flushed stays flushed until its next call. -/
theorem Inv.step_flushedLast (hinv : Inv k bases larges g) (hflushed : FlushedLast k g)
    {e : Option (Tid × Option Call)} (hstep : Step .cached w k e k') :
    ∃ bases' larges' g', Inv k' bases' larges' g' ∧ FlushedLast k' g' := by
  cases hstep with
  | @call t call s pc hidle hallowed henter =>
      obtain ⟨s', pc', henter', hinv'⟩ := hinv.enter .cached hidle hallowed
      obtain ⟨rfl, rfl⟩ := Prod.mk.inj (Option.some.inj (henter'.symm.trans henter))
      refine ⟨bases, larges, g, hinv'.congr
        ⟨rfl, rfl, rfl, rfl, rfl, rfl, rfl, rfl, rfl, rfl, rfl, rfl, rfl⟩, fun u hlast => ?_⟩
      by_cases hu : u = t
      · subst hu
        obtain rfl : call = .threadFlush := by simpa using hlast
        simp only [Config.goto, Function.update_self]
        exact hinv.flushedLast_enter hidle henter
      · simp only [Config.goto, Function.update_of_ne hu] at hlast ⊢
        exact hflushed u hlast
  | @advance _ t hadvance =>
      have htransition := transition_of_advance hadvance
      obtain ⟨bases', larges', g', hinv', hforeign⟩ := hinv.of_advance hadvance
      refine ⟨bases', larges', g', hinv', fun u hlast => ?_⟩
      rw [htransition.lastCall_eq] at hlast
      by_cases hu : u = t
      · subst hu
        rcases hflushed u hlast with hflushing | ⟨hidle, -⟩
        · exact hinv.flushedLast_advance hflushing htransition hinv'
        · simp [advance, hidle] at hadvance
      · rw [htransition.pc_of_ne hu]
        refine (hflushed u hlast).imp_right (And.imp_right fun hnil c => ?_)
        rw [hforeign (.cache u c) u rfl hu, hnil c]
  | write hlive _ hheader hoffset hpayload =>
      exact ⟨bases, larges, g, hinv.write hlive hheader hoffset hpayload _, hflushed⟩
  | @trim t s released hquiescent htrim =>
      obtain ⟨k', bases', g', htrim', htrims, -⟩ := hinv.trimQuiescent (hquiescent t) .cached w
      obtain ⟨rfl, -⟩ := Prod.mk.inj (Option.some.inj (htrim'.symm.trans htrim))
      have hinv' := htrims.inv
      have helsewhere := htrims.elsewhere
      obtain ⟨_, _, _, _, _, _, rfl⟩ := htrims.rest
      refine ⟨bases', larges, g', hinv', fun u hlast => ?_⟩
      refine (hflushed u hlast).imp_right (And.imp_right fun hnil c => ?_)
      rw [helsewhere (.cache u c) (by simp), hnil c]

/-- **Invariance.** In every reachable configuration a thread whose last call was a flush, and which has
returned from it, has an empty cache. -/
theorem flushedLast_of_reachable (hreach : (machine Tid .cached w).Reachable k) :
    ∃ bases larges g, Inv k bases larges g ∧ FlushedLast k g := by
  refine hreach.invariant (I := fun k => ∃ bases larges g, Inv k bases larges g ∧ FlushedLast k g) ?_ ?_
  · rintro k (rfl : k = Config.initial)
    exact ⟨_, _, _, Inv.initial, fun t hlast => by simp [Config.initial] at hlast⟩
  · rintro k e k' ⟨bases, larges, g, hinv, hflushed⟩ hstep
    exact hinv.step_flushedLast hflushed hstep

/-! ### The final configuration -/

section

omit [DecidableEq Tid]

/-- In the final configuration every free block is on the list of its class. -/
theorem Inv.mem_shared_of_inClass (hinv : Inv k bases larges g) (hquiescent : k.Quiescent)
    (hlive : k.NoSmallLive) (hcaches : ∀ t c, g (.cache t c) = []) {c : ClassIndex} {a : Nat} :
    a ∈ g (.shared c) ↔ InClass k.state.memory bases c a := by
  refine ⟨fun ha => (hinv.free_of_shared ha).1, fun hclass => ?_⟩
  obtain ⟨p, ha⟩ := (hinv.population a).mpr (Or.inl ⟨c, hclass⟩)
  obtain ⟨base, hbase, h, hh, rfl, hslot⟩ := id hclass
  cases p with
  | live =>
      obtain ⟨b, hb, hslotOf⟩ := hinv.storage.slot base hbase h hh a hslot
      have hlarge := hlive a (hinv.live_eq ▸ ha) b hb
      rw [hslotOf.kind] at hlarge
      simp at hlarge
  | shared c' =>
      obtain ⟨⟨base', hbase', h', hh', rfl, hslot'⟩, -⟩ := hinv.free_of_shared ha
      obtain rfl := hinv.storage.slot_unique hbase hbase' hh hh' hslot hslot'
      obtain rfl := Option.some.inj (hh.symm.trans hh')
      exact ha
  | cache t c' =>
      rw [hcaches t c'] at ha
      simp at ha
  | inflight t =>
      have hmine := hinv.mine (t := t)
      rw [hquiescent t] at hmine
      rw [show g (.inflight t) = [] from hmine] at ha
      simp at ha

/-- The caches of retired threads are empty. -/
theorem Inv.caches_empty (hinv : Inv k bases larges g) (hflushed : FlushedLast k g)
    (hquiescent : k.Quiescent) (hretired : ∀ t, k.Retired t) (t : Tid) (c : ClassIndex) :
    g (.cache t c) = [] := by
  have hcurrent : k.cacheOf t = cacheCurrent k.state t :=
    Config.cacheOf_eq_current (by rw [hquiescent t]; rfl)
  by_cases hactive : k.state.currentState t = .active
  · rcases hflushed t (hretired t hactive) with hflushing | ⟨-, hnil⟩
    · rw [hquiescent t] at hflushing
      exact hflushing.elim
    · exact hnil c
  · exact hinv.cache_eq_nil (hcurrent.trans (by rw [cacheCurrent, if_neg hactive])) c

/-- The mappings of the slabs are apart and fit the address space above its first aligned address. -/
theorem Inv.mappingTotal_lt (hinv : Inv k bases larges g) :
    mappingTotal k.state.memory bases < sizeMax := by
  have hapart := (List.pairwise_append.mp (List.pairwise_append.mp hinv.storage.ledger_apart).1).1
  have hsum : mappingTotal k.state.memory bases ≤ addressSpace - payloadAlignment := by
    apply sum_lengths_le payloadAlignment addressSpace hapart
    intro r hr
    have hvalid := hinv.storage.valid r (List.mem_append_left _
      (hinv.storage.ledger.mem_iff.mpr (by simp [hr])))
    exact ⟨Nat.le_of_dvd hvalid.base_pos hvalid.aligned, hvalid.fits⟩
  apply Nat.lt_of_le_of_lt hsum
  decide

end

/-- If no unmap fails, every slab that is tried is released. -/
theorem releasedSlabs_of_succeeds {call : Nat} (hunmap : ∀ n, call ≤ n → w.munmap n = none)
    (tried : List Nat) : releasedSlabs w call tried = tried := by
  induction tried generalizing call with
  | nil => rfl
  | cons base rest ih =>
      rw [releasedSlabs, if_pos (hunmap call (Nat.le_refl _)),
        ih fun n hn => hunmap n (Nat.le_of_succ_le hn)]

/-- A trim of the final configuration releases everything. -/
theorem Inv.trim_everything (hinv : Inv k bases larges g) (hquiescent : k.Quiescent)
    (hshared : ∀ c a, a ∈ g (.shared c) ↔ InClass k.state.memory bases c a)
    (hunmap : ∀ n, k.state.unmapCalls.length ≤ n → w.munmap n = none) (t : Tid) :
    ∃ s, Hplf.trimQuiescent .cached w k.state t = some (s, mappingTotal k.state.memory bases) ∧
      s.slabs = none ∧ ∀ c, s.sharedHeads c = none := by
  have hfree : bases.filter (allFree k.state.memory (sharedLists g)) = bases := by
    apply List.filter_eq_self.mpr
    intro base hbase
    obtain ⟨h, hh, -⟩ := hinv.storage.slab base hbase
    exact (allFree_iff hh).mpr fun a ha => (hshared _ a).mpr ⟨base, hbase, h, hh, rfl, ha⟩
  obtain ⟨k', bases', g', htrim, htrims, -⟩ := hinv.trimQuiescent (hquiescent t) .cached w
  rw [hfree, releasedSlabs_of_succeeds hunmap, Nat.min_eq_right hinv.mappingTotal_lt.le] at htrim
  rw [hfree, releasedSlabs_of_succeeds hunmap] at htrims
  refine ⟨k'.state, htrim, ?_, fun c => ?_⟩
  · have hnone : bases' = [] := by
      rw [htrims.kept, List.filter_eq_nil_iff]
      intro base hbase
      simpa using hbase
    exact htrims.inv.storage.registry.eq_nil_iff.mpr hnone
  · have hnone : g' (.shared c) = [] := by
      refine (htrims.shared c).trans (List.Perm.of_eq ?_) |>.eq_nil
      rw [without, List.filter_eq_nil_iff]
      intro a ha
      obtain ⟨base, hbase, h, hh, -, hslot⟩ := (hshared c a).mp ha
      obtain ⟨b, hb, hslotOf⟩ := hinv.storage.slot base hbase h hh a hslot
      have howned : ownedBy k.state.memory base a = true := by
        rw [ownedBy_of_block hb, hslotOf.owner]
        exact decide_eq_true rfl
      simpa using ⟨base, hbase, howned⟩
    exact (htrims.inv.holds (.shared c)).eq_nil_iff.mpr hnone

/-- **Leak freedom.** For any number of threads, any interleaved run and whatever the system answers: if no
call is in progress, every small allocation has been freed and every thread is retired, then every thread
cache is empty, each transfer list holds each slot of each registered slab of its class exactly once and
nothing else, and a trim whose unmaps succeed empties the registry and the lists and returns the sum of all
mapping lengths, which is below the largest size. -/
theorem leak_free (w : World) (k : Config Tid) (t : Tid)
    (hreach : (machine Tid .cached w).Reachable k) (hquiescent : k.Quiescent)
    (hlive : k.NoSmallLive) (hretired : ∀ u, k.Retired u) :
    (∀ u d, cacheCurrent k.state u = some d → ∃ descriptor, k.state.descriptor d = some descriptor ∧
      ∀ c, descriptor.cache.heads c = none ∧ descriptor.cache.counts c = 0) ∧
    ∃ bases, Chain k.state.memory.slabNext k.state.slabs bases ∧
      (∀ c, ∃ list, Chain k.state.memory.next (k.state.sharedHeads c) list ∧
        ∀ a, InClass k.state.memory bases c a ∧ list.count a = 1 ∨
          ¬ InClass k.state.memory bases c a ∧ a ∉ list) ∧
      ((∀ n, k.state.unmapCalls.length ≤ n → w.munmap n = none) →
        ∃ s, trimQuiescent .cached w k.state t = some (s, mappingTotal k.state.memory bases) ∧
          s.slabs = none ∧ (∀ c, s.sharedHeads c = none) ∧
          mappingTotal k.state.memory bases < sizeMax) := by
  obtain ⟨bases, larges, g, hinv, hflushed⟩ := flushedLast_of_reachable hreach
  have hcaches := hinv.caches_empty hflushed hquiescent hretired
  have hshared := fun c a => hinv.mem_shared_of_inClass hquiescent hlive hcaches (c := c) (a := a)
  refine ⟨fun u d hcurrent => ?_, bases, hinv.storage.registry, fun c => ?_, fun hunmap => ?_⟩
  · have hd : k.cacheOf u = some d :=
      (Config.cacheOf_eq_current (by rw [hquiescent u]; rfl)).trans hcurrent
    obtain ⟨descriptor, hown⟩ := hinv.ownCache hd
    refine ⟨descriptor, hown.ok.mapped, fun c => ⟨(hown.chain c).eq_nil_iff.mpr (hcaches u c), ?_⟩⟩
    rw [hown.count c, hcaches u c]
    rfl
  · refine ⟨g (.shared c), hinv.holds (.shared c), fun a => ?_⟩
    by_cases hclass : InClass k.state.memory bases c a
    · exact Or.inl ⟨hclass, List.count_eq_one_of_mem (hinv.placed.nodup _) ((hshared c a).mpr hclass)⟩
    · exact Or.inr ⟨hclass, fun ha => hclass ((hshared c a).mp ha)⟩
  · obtain ⟨s, htrim, hslabs, hheads⟩ := hinv.trim_everything hquiescent hshared hunmap t
    exact ⟨s, htrim, hslabs, hheads, hinv.mappingTotal_lt⟩

/-- Thread 0 allocates a block of the largest class, thread 1 frees it, thread 0 flushes its cache and
thread 1 exits. -/
def crossFreeMoves : List (Move (Fin 2)) :=
  mallocMoves 0 ++ callMoves 1 (.free (some 66320)) 2 ++ callMoves 0 .threadFlush 18 ++ callMoves 1 .threadExit 19

/-- Everything has been given back, and a slab is registered. -/
def showsCrossFree (k : Config (Fin 2)) : Bool :=
  decide (∀ t, k.pc t = .idle) && k.live.isEmpty && k.state.slabs.isSome &&
    decide (k.lastCall 0 = some .threadFlush) && decide (k.state.currentState 1 = .uncached)

/-- A block is freed by another thread than the one that allocated it. -/
theorem leak_free_cross_free : ∃ k : Config (Fin 2),
    (machine (Fin 2) .cached (bumpWorld fun _ => none)).Reachable k ∧ k.state.slabs.isSome ∧
      ∃ bases s, Chain k.state.memory.slabNext k.state.slabs bases ∧
        trimQuiescent .cached (bumpWorld fun _ => none) k.state 0
          = some (s, mappingTotal k.state.memory bases) ∧ s.slabs = none := by
  obtain ⟨k, hreach, hk⟩ := exists_makeMoves .cached (bumpWorld fun _ => none) crossFreeMoves showsCrossFree
    (by decide +kernel)
  simp only [showsCrossFree, Bool.and_eq_true, decide_eq_true_eq, List.isEmpty_iff] at hk
  obtain ⟨⟨⟨⟨hidle, hlive⟩, hslabs⟩, hlast⟩, hexited⟩ := hk
  have hretired : ∀ u, k.Retired u := by
    intro u hactive
    match u with
    | 0 => exact hlast
    | 1 =>
        rw [hexited] at hactive
        simp at hactive
  obtain ⟨-, bases, hregistry, -, htrim⟩ := leak_free _ k 0 hreach hidle
    (fun a ha => by simp [hlive] at ha) hretired
  obtain ⟨s, htrim', hnone, -, -⟩ := htrim fun _ _ => rfl
  exact ⟨k, hreach, hslabs, bases, s, hregistry, htrim', hnone⟩

end Hplf
