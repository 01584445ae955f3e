import HplfMalloc.Proof.CacheSteps

/-!
# Acquiring and giving up a cache

What `hplf_cache_acquire` can do to the state, by the outcomes of its system calls, and the invariant
through it and through the steps of a teardown.
-/

namespace Hplf

open Lib Memory

variable {Tid : Type} [DecidableEq Tid]
variable {k : Config Tid} {t : Tid} {bases larges : List Nat} {g : Place Tid → List Nat}
variable {pc : Pc} {d : Nat} {w : World}

/-! ### The outcomes of `hplf_cache_acquire` -/

/-- A fresh descriptor mapped for thread `t`, before it is registered. -/
def State.withFreshDescriptor (s : State Tid) (t : Tid) (d length : Nat) : State Tid :=
  { s with
    descriptor := Function.update s.descriptor d (some ⟨threadCacheInitialize, d, length⟩)
    descriptorMapped := ⟨d, length⟩ :: s.descriptorMapped
    descriptorsMappedBy := Function.update s.descriptorsMappedBy t (s.descriptorsMappedBy t + 1)
    handedToRelease := Function.update s.handedToRelease d 0 }

/-- Only the error number, the key and the counters of lifecycle calls differ. -/
def SetupNoise (s s' : State Tid) : Prop :=
  ∃ cacheKeyOnce cacheKeyError errno onceCalls descriptorQueries descriptorMapCalls registrations
      descriptorUnmapCalls,
    s' = { s with
      cacheKeyOnce := cacheKeyOnce
      cacheKeyError := cacheKeyError
      errno := errno
      onceCalls := onceCalls
      descriptorQueries := descriptorQueries
      descriptorMapCalls := descriptorMapCalls
      registrations := registrations
      descriptorUnmapCalls := descriptorUnmapCalls }

omit [DecidableEq Tid] in
theorem SetupNoise.trans {s₁ s₂ s₃ : State Tid} (h₁ : SetupNoise s₁ s₂) (h₂ : SetupNoise s₂ s₃) :
    SetupNoise s₁ s₃ := by
  obtain ⟨_, _, _, _, _, _, _, _, rfl⟩ := h₁
  obtain ⟨_, _, _, _, _, _, _, _, rfl⟩ := h₂
  exact ⟨_, _, _, _, _, _, _, _, rfl⟩

omit [DecidableEq Tid] in
theorem onceCreateCacheKey_noise (w : World) (s : State Tid) :
    SetupNoise s (onceCreateCacheKey w s).1 := by
  unfold onceCreateCacheKey createCacheKey
  simp only
  split
  · exact ⟨_, _, _, _, _, _, _, _, rfl⟩
  · split
    · exact ⟨_, _, _, _, _, _, _, _, rfl⟩
    · exact ⟨_, _, _, _, _, _, _, _, rfl⟩

theorem mapDescriptor_spec {s s' : State Tid} {result : Ptr}
    (hmap : mapDescriptor w s t = (s', result)) :
    (result = none ∧ SetupNoise s s') ∨
      ∃ d length s₁, result = some d ∧ SetupNoise s s₁ ∧ s' = s₁.withFreshDescriptor t d length ∧
        Mapping.Fresh s.mappings ⟨d, length⟩ ∧ 0 < length := by
  unfold mapDescriptor at hmap
  simp only at hmap
  split at hmap
  · simp only [Prod.mk.injEq] at hmap
    exact Or.inl ⟨hmap.2.symm, hmap.1 ▸ ⟨_, _, _, _, _, _, _, _, rfl⟩⟩
  split at hmap
  · simp only [Prod.mk.injEq] at hmap
    exact Or.inl ⟨hmap.2.symm, hmap.1 ▸ ⟨_, _, _, _, _, _, _, _, rfl⟩⟩
  rename_i mappingLength hround
  have hlength := sizeRoundUpMultiple_eq_some (show sizeofDescriptor ≤ sizeMax by decide) hround
  split at hmap
  · simp only [Prod.mk.injEq] at hmap
    exact Or.inl ⟨hmap.2.symm, hmap.1 ▸ ⟨_, _, _, _, _, _, _, _, rfl⟩⟩
  · rename_i base hbase
    simp only [Prod.mk.injEq] at hmap
    obtain ⟨rfl, rfl⟩ := hmap
    refine Or.inr ⟨base, mappingLength, { s with
        descriptorQueries := s.descriptorQueries + 1
        descriptorMapCalls := s.descriptorMapCalls + 1 }, rfl, ⟨_, _, _, _, _, _, _, _, rfl⟩, rfl,
      w.descriptorMmap_fresh _ _ _ _ hbase, ?_⟩
    have hpos : 0 < sizeofDescriptor := by decide
    omega

omit [DecidableEq Tid] in
theorem flushClasses_zeroed {s : State Tid} (descriptor : CacheDescriptor)
    (hmapped : s.descriptor d = some descriptor) (hzero : descriptor.cache = threadCacheInitialize) :
    ∀ classes published, flushClasses d classes s published = some (s, published) := by
  intro classes
  induction classes with
  | nil => exact fun _ => rfl
  | cons c rest ih =>
      intro published
      have hextract := withCache_eq_some (fun m cache =>
        threadCacheExtractClass m cache c sizeMax) hmapped
        (threadCacheExtractClass_empty (by rw [hzero]; rfl))
      rw [withDescriptorCache_self hmapped] at hextract
      rw [flushClasses, flushExtract, hextract]
      exact ih published

/-- The ways a first call ends, beyond the calls it made. -/
inductive Acquired (s s' : State Tid) (t : Tid) : Ptr → Prop
  /-- No descriptor was mapped. -/
  | declined (hnoise : SetupNoise (setCurrentState s t .uncached) s') : Acquired s s' t none
  /-- The registration failed; the descriptor was unmapped again, or that failed as well. -/
  | released {d length : Nat} {s₁ : State Tid} (hfresh : Mapping.Fresh s.mappings ⟨d, length⟩)
      (hlength : 0 < length)
      (hhanded : s₁ = handToRelease
        ((setCurrentState s t .uncached).withFreshDescriptor t d length) d)
      (hnoise : SetupNoise { s₁ with
          descriptor := Function.update s₁.descriptor d none
          descriptorMapped := s₁.descriptorMapped.erase ⟨d, length⟩ } s' ∨ SetupNoise s₁ s') :
      Acquired s s' t none
  | activated {d length : Nat} (hfresh : Mapping.Fresh s.mappings ⟨d, length⟩) (hlength : 0 < length)
      (hnoise : SetupNoise { (setCurrentState s t .active).withFreshDescriptor t d length with
        keyValue := Function.update s.keyValue t (some d)
        currentDescriptor := Function.update s.currentDescriptor t (some d) } s') :
      Acquired s s' t (some d)

theorem SetupNoise.setCurrentState {s s' : State Tid} (hnoise : SetupNoise s s') (t : Tid)
    (value : LifecycleState) :
    SetupNoise (Hplf.setCurrentState s t value) (Hplf.setCurrentState s' t value) := by
  obtain ⟨_, _, _, _, _, _, _, _, rfl⟩ := hnoise
  exact ⟨_, _, _, _, _, _, _, _, rfl⟩

omit [DecidableEq Tid] in
theorem SetupNoise.mappings {s s' : State Tid} (hnoise : SetupNoise s s') :
    s'.mappings = s.mappings := by
  obtain ⟨_, _, _, _, _, _, _, _, rfl⟩ := hnoise
  rfl

/-- **First use.** An uninitialised thread always gets an answer, and the state is one of these. -/
theorem cacheAcquire_uninitialized (w : World) {s : State Tid}
    (hstate : s.currentState t = .uninitialized) :
    ∃ s' cache, cacheAcquire w s t = some (s', cache) ∧ Acquired s s' t cache := by
  unfold cacheAcquire
  rw [hstate]
  have honce := onceCreateCacheKey_noise w s
  simp only
  split
  · rename_i s₁ e heq
    rw [heq] at honce
    exact ⟨_, _, rfl, .declined (honce.setCurrentState t _)⟩
  rename_i s₁ heq
  rw [heq] at honce
  split
  · exact ⟨_, _, rfl, .declined (honce.setCurrentState t _)⟩
  split
  · rename_i s₂ hmap
    rcases mapDescriptor_spec hmap with ⟨-, hnoise⟩ | ⟨_, _, _, hsome, _⟩
    · exact ⟨_, _, rfl, .declined ((honce.trans hnoise).setCurrentState t _)⟩
    · simp at hsome
  rename_i s₂ d hmap
  rcases mapDescriptor_spec hmap with ⟨hnone, -⟩ | ⟨d', length, s₁', hsome, hnoise, rfl, hfresh, hpos⟩
  · simp at hnone
  obtain rfl := Option.some.inj hsome
  rw [honce.mappings] at hfresh
  obtain ⟨_, _, _, _, _, _, _, _, rfl⟩ := honce.trans hnoise
  split
  · -- The registration failed: the empty cache has nothing to publish.
    rw [releaseDescriptor, flushDescriptor]
    rw [flushClasses_zeroed ⟨threadCacheInitialize, d, length⟩
      (by simp [handToRelease, setCurrentState, State.withFreshDescriptor]) rfl]
    simp only [Option.bind_eq_bind, Option.bind_some, unmapDescriptor]
    rw [show (handToRelease _ d : State Tid).descriptor d
        = some ⟨threadCacheInitialize, d, length⟩ by
      simp [handToRelease, setCurrentState, State.withFreshDescriptor]]
    simp only [Option.bind_some]
    split
    · refine ⟨_, _, rfl, .released hfresh hpos rfl (Or.inr ⟨_, _, _, _, _, _, _, _, rfl⟩)⟩
    · refine ⟨_, _, rfl, .released hfresh hpos rfl (Or.inl ⟨_, _, _, _, _, _, _, _, rfl⟩)⟩
  · exact ⟨_, _, rfl, .activated hfresh hpos ⟨_, _, _, _, _, _, _, _, rfl⟩⟩

/-! ### The invariant through them -/

/-- The invariant after thread `t` changed its lifecycle data and moved no block. -/
theorem Inv.reown (hinv : Inv k bases larges g) {s : State Tid}
    (hmemory : s.memory = k.state.memory) (hmapped : s.mapped = k.state.mapped)
    (hslabs : s.slabs = k.state.slabs) (hheads : s.sharedHeads = k.state.sharedHeads)
    (hapart : s.mappings.Pairwise Mapping.Apart) (hvalid : ∀ r ∈ s.mappings, r.Valid)
    (hothers : ∀ u, u ≠ t → s.currentState u = k.state.currentState u ∧
      s.currentDescriptor u = k.state.currentDescriptor u ∧ s.keyValue u = k.state.keyValue u)
    (hdescriptor : ∀ u, u ≠ t → ∀ d, k.cacheOf u = some d →
      s.descriptor d = k.state.descriptor d ∧
        ∀ r : Mapping, r.base = d → r ∈ k.state.descriptorMapped → r ∈ s.descriptorMapped)
    (hcache : ∀ c, Holds (k.goto t s pc) (.cache t c) (g (.cache t c)))
    (hcarries : pc.Carries k.state.memory (g (.inflight t)))
    (hadmits : ∀ a ∈ g (.inflight t), pc.Admits k.state.memory bases larges a)
    (hemptied : ∀ c, pc.Emptied c → g (.cache t c) = [])
    (hthread : ThreadOk (k.goto t s pc) t)
    (hunique : ∀ d, (k.goto t s pc).cacheOf t = some d → ∀ u, u ≠ t → k.cacheOf u ≠ some d)
    (hargument : ∀ a, pc.argument = some a → (k.pc t).argument = some a)
    (hregistry : pc.InRegistry ↔ (k.pc t).InRegistry) :
    Inv (k.goto t s pc) bases larges g := by
  have hpc : ∀ u, u ≠ t → (k.goto t s pc).pc u = k.pc u := fun u hu =>
    Config.goto_pc_of_ne hu _ _
  have hcacheOf : ∀ u, u ≠ t → (k.goto t s pc).cacheOf u = k.cacheOf u := by
    intro u hu
    obtain ⟨hstate, hcurrent, -⟩ := hothers u hu
    simp only [Config.cacheOf, hpc u hu, Config.goto_state, cacheCurrent_congr hstate hcurrent]
  have harg : ∀ u a, ((k.goto t s pc).pc u).argument = some a → (k.pc u).argument = some a := by
    intro u a ha
    by_cases hu : u = t
    · subst hu
      rw [Config.goto_pc] at ha
      exact hargument a ha
    · rwa [hpc u hu] at ha
  have hst := hinv.storage
  refine ⟨⟨?_, ?_, ?_, ?_, ?_, hapart, hvalid⟩, hinv.placed, ?_, ?_, ?_, ?_, ?_, ?_, ?_, ?_, ?_⟩
  · rw [Config.goto_state, hmemory, hslabs]
    exact hst.registry
  · rw [Config.goto_state, hmemory]
    exact hst.slab
  · rw [Config.goto_state, hmemory]
    exact hst.slot
  · rw [Config.goto_state, hmemory]
    exact hst.large
  · rw [Config.goto_state, hmemory, hmapped]
    exact hst.ledger
  · rw [Config.goto_state, hmemory]
    exact hinv.population
  · intro p
    cases p with
    | live => exact hinv.holds .live
    | shared c =>
        have hholds : Chain _ _ _ := hinv.holds (.shared c)
        rwa [Holds, Config.goto_state, hmemory, hheads]
    | cache u c =>
        by_cases hu : u = t
        · subst hu
          exact hcache c
        · refine (hinv.holds (.cache u c)).congr ⟨hcacheOf u hu, fun d hd descriptor hdesc => ?_⟩
            fun a _ => by rw [Config.goto_state, hmemory]
          exact ⟨descriptor, (hdescriptor u hu d hd).1.trans hdesc, rfl, rfl⟩
    | inflight u =>
        by_cases hu : u = t
        · subst hu
          rwa [Holds, Config.goto_pc, Config.goto_state, hmemory]
        · have hholds := hinv.holds (.inflight u)
          rwa [Holds, hpc u hu, Config.goto_state, hmemory]
  · intro p a ha
    have hold := hinv.admits p a ha
    cases p with
    | inflight u =>
        by_cases hu : u = t
        · subst hu
          rw [Admits, Config.goto_pc, Config.goto_state, hmemory]
          exact hadmits a ha
        · rwa [Admits, hpc u hu, Config.goto_state, hmemory]
    | _ => rwa [Admits, Config.goto_state, hmemory]
  · intro u c hu
    by_cases hut : u = t
    · subst hut
      rw [Config.goto_pc] at hu
      exact hemptied c hu
    · rw [hpc u hut] at hu
      exact hinv.emptied u c hu
  · intro u
    by_cases hu : u = t
    · subst hu
      exact hthread
    · obtain ⟨hstate, hcurrent, hkey⟩ := hothers u hu
      exact (hinv.thread u).congr (hpc u hu) hstate hcurrent hkey (hdescriptor u hu)
  · intro u v e hu hv
    by_cases hut : u = t <;> by_cases hvt : v = t
    · rw [hut, hvt]
    · subst hut
      rw [hcacheOf v hvt] at hv
      exact absurd hv (hunique e hu v hvt)
    · subst hvt
      rw [hcacheOf u hut] at hu
      exact absurd hu (hunique e hv u hut)
    · rw [hcacheOf u hut] at hu
      rw [hcacheOf v hvt] at hv
      exact hinv.owner_unique u v e hu hv
  · intro u a ha
    exact hinv.argument_live u a (harg u a ha)
  · intro u v a hu hv
    exact hinv.argument_unique u v a (harg u a hu) (harg v a hv)
  · intro u
    rw [Config.goto_registryOwner, ← hinv.registry u]
    by_cases hu : u = t
    · subst hu
      rw [Config.goto_pc]
      exact hregistry
    · rw [hpc u hu]

theorem Mapping.Fresh.valid {mapped : List Mapping} {r : Mapping} (hfresh : Mapping.Fresh mapped r)
    (hlength : 0 < r.length) : r.Valid :=
  ⟨hfresh.base_pos, hfresh.aligned, hlength, hfresh.fits⟩

/-- Regions of positive length that are apart start at different addresses. -/
theorem Mapping.Apart.base_ne {r r' : Mapping} (hapart : r.Apart r') (hr : 0 < r.length)
    (hr' : 0 < r'.length) : r.base ≠ r'.base := by
  unfold Mapping.Apart at hapart
  omega

omit [DecidableEq Tid] in
/-- A fresh descriptor is nobody's. -/
theorem Inv.fresh_descriptor (hinv : Inv k bases larges g) {length : Nat}
    (hfresh : Mapping.Fresh k.state.mappings ⟨d, length⟩) (hlength : 0 < length) (u : Tid) :
    k.cacheOf u ≠ some d := by
  intro hd
  obtain ⟨descriptor, hok⟩ := (hinv.thread u).descriptor d hd
  have hmem : (⟨d, descriptor.mappingLength⟩ : Mapping) ∈ k.state.mappings :=
    List.mem_append_right _ hok.region
  exact (hfresh.apart _ hmem).base_ne hlength (hinv.storage.valid _ hmem).length_pos rfl

omit [DecidableEq Tid] in
theorem Inv.fresh_mappings (hinv : Inv k bases larges g) {r : Mapping}
    (hfresh : Mapping.Fresh k.state.mappings r) (hlength : 0 < r.length) :
    (k.state.mapped ++ r :: k.state.descriptorMapped).Pairwise Mapping.Apart ∧
      ∀ r' ∈ k.state.mapped ++ r :: k.state.descriptorMapped, r'.Valid := by
  have hperm : (k.state.mapped ++ r :: k.state.descriptorMapped).Perm (r :: k.state.mappings) :=
    List.perm_middle
  constructor
  · refine (hperm.pairwise_iff fun h => h.symm).mpr (List.pairwise_cons.mpr ⟨hfresh.apart, ?_⟩)
    exact hinv.storage.apart
  · intro r' hr'
    rcases List.mem_cons.mp (hperm.mem_iff.mp hr') with rfl | hold
    · exact hfresh.valid hlength
    · exact hinv.storage.valid r' hold

/-- What acquiring a cache leaves alone. -/
structure SameStorage (s s' : State Tid) : Prop where
  memory : s'.memory = s.memory
  mapped : s'.mapped = s.mapped
  slabs : s'.slabs = s.slabs
  sharedHeads : s'.sharedHeads = s.sharedHeads
  pageQueries : s'.pageQueries = s.pageQueries
  mapOutcomes : s'.mapOutcomes = s.mapOutcomes
  unmapCalls : s'.unmapCalls = s.unmapCalls

omit [DecidableEq Tid] in
theorem SameStorage.refl (s : State Tid) : SameStorage s s := ⟨rfl, rfl, rfl, rfl, rfl, rfl, rfl⟩

theorem Acquired.sameStorage {s s' : State Tid} {cache : Ptr} (hacquired : Acquired s s' t cache) :
    SameStorage s s' := by
  cases hacquired with
  | declined hnoise =>
      obtain ⟨_, _, _, _, _, _, _, _, rfl⟩ := hnoise
      exact ⟨rfl, rfl, rfl, rfl, rfl, rfl, rfl⟩
  | released _ _ hhanded hnoise =>
      subst hhanded
      rcases hnoise with ⟨_, _, _, _, _, _, _, _, rfl⟩ | ⟨_, _, _, _, _, _, _, _, rfl⟩
      · exact ⟨rfl, rfl, rfl, rfl, rfl, rfl, rfl⟩
      · exact ⟨rfl, rfl, rfl, rfl, rfl, rfl, rfl⟩
  | activated _ _ hnoise =>
      obtain ⟨_, _, _, _, _, _, _, _, rfl⟩ := hnoise
      exact ⟨rfl, rfl, rfl, rfl, rfl, rfl, rfl⟩

/-- The thread-local data of the other threads is untouched. -/
theorem Acquired.others {s s' : State Tid} {cache : Ptr} (hacquired : Acquired s s' t cache) {u : Tid}
    (hu : u ≠ t) : s'.currentState u = s.currentState u ∧
      s'.currentDescriptor u = s.currentDescriptor u ∧ s'.keyValue u = s.keyValue u := by
  cases hacquired with
  | declined hnoise =>
      obtain ⟨_, _, _, _, _, _, _, _, rfl⟩ := hnoise
      exact ⟨Function.update_of_ne hu _ _, rfl, rfl⟩
  | released _ _ hhanded hnoise =>
      subst hhanded
      rcases hnoise with ⟨_, _, _, _, _, _, _, _, rfl⟩ | ⟨_, _, _, _, _, _, _, _, rfl⟩
      · exact ⟨Function.update_of_ne hu _ _, rfl, rfl⟩
      · exact ⟨Function.update_of_ne hu _ _, rfl, rfl⟩
  | activated _ _ hnoise =>
      obtain ⟨_, _, _, _, _, _, _, _, rfl⟩ := hnoise
      exact ⟨Function.update_of_ne hu _ _, Function.update_of_ne hu _ _,
        Function.update_of_ne hu _ _⟩

/-- Descriptors in use and their mappings are untouched. -/
theorem Acquired.descriptor {cache : Ptr} {s : State Tid} (hinv : Inv k bases larges g)
    (hacquired : Acquired k.state s t cache) {u : Tid} {e : Nat} (he : k.cacheOf u = some e) :
    s.descriptor e = k.state.descriptor e ∧
      ∀ r : Mapping, r.base = e → r ∈ k.state.descriptorMapped → r ∈ s.descriptorMapped := by
  cases hacquired with
  | declined hnoise =>
      obtain ⟨_, _, _, _, _, _, _, _, rfl⟩ := hnoise
      exact ⟨rfl, fun _ _ h => h⟩
  | @released d length _ hfresh hlength hhanded hnoise =>
      have hne : e ≠ d := fun h => hinv.fresh_descriptor hfresh hlength u (h ▸ he)
      subst hhanded
      rcases hnoise with ⟨_, _, _, _, _, _, _, _, rfl⟩ | ⟨_, _, _, _, _, _, _, _, rfl⟩
      · refine ⟨?_, fun r _ hr => ?_⟩
        · simp [handToRelease, State.withFreshDescriptor, setCurrentState, hne]
        · simpa [handToRelease, State.withFreshDescriptor, setCurrentState] using hr
      · refine ⟨?_, fun r _ hr => List.mem_cons_of_mem _ hr⟩
        simp [handToRelease, State.withFreshDescriptor, setCurrentState, hne]
  | @activated d length hfresh hlength hnoise =>
      have hne : e ≠ d := fun h => hinv.fresh_descriptor hfresh hlength u (h ▸ he)
      obtain ⟨_, _, _, _, _, _, _, _, rfl⟩ := hnoise
      exact ⟨Function.update_of_ne hne _ _, fun r _ hr => List.mem_cons_of_mem _ hr⟩

theorem Acquired.mappings {cache : Ptr} {s : State Tid} (hinv : Inv k bases larges g)
    (hacquired : Acquired k.state s t cache) :
    s.mappings.Pairwise Mapping.Apart ∧ ∀ r ∈ s.mappings, r.Valid := by
  cases hacquired with
  | declined hnoise =>
      obtain ⟨_, _, _, _, _, _, _, _, rfl⟩ := hnoise
      exact ⟨hinv.storage.apart, hinv.storage.valid⟩
  | released hfresh hlength hhanded hnoise =>
      subst hhanded
      rcases hnoise with ⟨_, _, _, _, _, _, _, _, rfl⟩ | ⟨_, _, _, _, _, _, _, _, rfl⟩
      · simp only [State.mappings, handToRelease, State.withFreshDescriptor, setCurrentState,
          List.erase_cons_head]
        exact ⟨hinv.storage.apart, hinv.storage.valid⟩
      · exact hinv.fresh_mappings hfresh hlength
  | activated hfresh hlength hnoise =>
      obtain ⟨_, _, _, _, _, _, _, _, rfl⟩ := hnoise
      exact hinv.fresh_mappings hfresh hlength

/-- A thread that has just acquired has no cache, or an empty one of its own. -/
theorem Acquired.own {cache : Ptr} {s : State Tid} (hacquired : Acquired k.state s t cache)
    (hlifecycle : LifecycleOk k.state t) (hstate : k.state.currentState t = .uninitialized) :
    cacheCurrent s t = cache ∧ LifecycleOk s t ∧ ∀ d, cache = some d →
      ∃ length, Mapping.Fresh k.state.mappings ⟨d, length⟩ ∧ 0 < length ∧
        s.descriptor d = some ⟨threadCacheInitialize, d, length⟩ ∧
        ⟨d, length⟩ ∈ s.descriptorMapped := by
  have hnone : k.state.currentDescriptor t = none ∧ k.state.keyValue t = none := by
    unfold LifecycleOk at hlifecycle
    rwa [hstate] at hlifecycle
  cases hacquired with
  | declined hnoise =>
      obtain ⟨_, _, _, _, _, _, _, _, rfl⟩ := hnoise
      simp [cacheCurrent, LifecycleOk, setCurrentState, hnone]
  | released _ _ hhanded hnoise =>
      subst hhanded
      rcases hnoise with ⟨_, _, _, _, _, _, _, _, rfl⟩ | ⟨_, _, _, _, _, _, _, _, rfl⟩
      · simp [cacheCurrent, LifecycleOk, setCurrentState, handToRelease, State.withFreshDescriptor,
          hnone]
      · simp [cacheCurrent, LifecycleOk, setCurrentState, handToRelease, State.withFreshDescriptor,
          hnone]
  | @activated d length hfresh hlength hnoise =>
      obtain ⟨_, _, _, _, _, _, _, _, rfl⟩ := hnoise
      refine ⟨by simp [cacheCurrent, setCurrentState, State.withFreshDescriptor],
        by simp [LifecycleOk, setCurrentState, State.withFreshDescriptor], ?_⟩
      intro d' hd'
      obtain rfl := Option.some.inj hd'
      exact ⟨length, hfresh, hlength, by simp [State.withFreshDescriptor],
        List.mem_cons_self⟩

/-- **Acquire.** The call always returns, hands out the thread's current cache, and moves no block. -/
theorem Inv.acquire (hinv : Inv k bases larges g) (w : World)
    (hteardown : (k.pc t).teardown = none) (hevicting : (k.pc t).evicting = none)
    (hemptied : ∀ e, ¬ (k.pc t).Emptied e) (hfits : ∀ s : State Tid, (k.pc t).Fits s t) :
    ∃ s cache, cacheAcquire w k.state t = some (s, cache) ∧ cache = cacheCurrent s t ∧
      SameStorage k.state s ∧ Inv (k.goto t s (k.pc t)) bases larges g := by
  have hself : k.goto t k.state (k.pc t) = k := by
    simp [Config.goto]
  cases hstate : k.state.currentState t with
  | active =>
      refine ⟨k.state, k.state.currentDescriptor t, by simp [cacheAcquire, hstate],
        by simp [cacheCurrent, hstate], SameStorage.refl _, ?_⟩
      rwa [hself]
  | uncached =>
      refine ⟨k.state, none, by simp [cacheAcquire, hstate], by simp [cacheCurrent, hstate],
        SameStorage.refl _, ?_⟩
      rwa [hself]
  | uninitialized =>
      obtain ⟨s, cache, hacquire, hacquired⟩ := cacheAcquire_uninitialized w hstate
      have hsame := hacquired.sameStorage
      obtain ⟨hcurrent, hlifecycle, hown⟩ := hacquired.own (hinv.thread t).lifecycle hstate
      obtain ⟨hapart, hvalid⟩ := hacquired.mappings hinv
      have hnil : ∀ c, g (.cache t c) = [] := by
        refine hinv.cache_eq_nil ((Config.cacheOf_eq_current hteardown).trans ?_)
        simp [cacheCurrent, hstate]
      have hcacheOf : (k.goto t s (k.pc t)).cacheOf t = cache := by
        rw [Config.cacheOf_eq_current (by rwa [Config.goto_pc]), Config.goto_state, hcurrent]
      refine ⟨s, cache, hacquire, hcurrent.symm, hsame, ?_⟩
      refine hinv.reown hsame.memory hsame.mapped hsame.slabs hsame.sharedHeads hapart hvalid
        (fun u hu => hacquired.others hu) (fun u _ d hd => hacquired.descriptor hinv hd) ?_
        (hinv.holds (.inflight t)) (hinv.admits (.inflight t)) (fun e he => absurd he (hemptied e))
        ⟨hlifecycle, ?_, by rw [Config.goto_pc]; exact hfits _⟩ ?_ (fun _ h => h) Iff.rfl
      · intro c
        rw [hnil c]
        cases hresult : cache with
        | none => exact (holds_cache_none (hcacheOf.trans hresult)).mpr rfl
        | some d =>
            obtain ⟨length, -, -, hmapped, -⟩ := hown d hresult
            exact (holds_cache_some (hcacheOf.trans hresult)).mpr ⟨_, hmapped, rfl, rfl⟩
      · intro d hd
        obtain ⟨length, -, -, hmapped, hregion⟩ := hown d (hcacheOf.symm.trans hd)
        refine ⟨_, hmapped, rfl, hregion, ThreadCache.sound_zeroed, ?_⟩
        unfold CapsFor
        rw [Config.goto_pc, hevicting]
        exact ThreadCache.withinCaps_zeroed
      · intro d hd u _
        obtain ⟨length, hfresh, hlength, -⟩ := hown d (hcacheOf.symm.trans hd)
        exact hinv.fresh_descriptor hfresh hlength u

/-- **Exit.** The destructor forgets the thread's cache and goes on to flush it. -/
theorem Inv.exit (hinv : Inv k bases larges g) (hidle : k.pc t = .idle)
    (hkey : k.state.keyValue t = some d) :
    Inv (k.goto t (handToRelease (forgetDescriptor
        { k.state with keyValue := Function.update k.state.keyValue t none } t) d)
      (.flush d classIndices true)) bases larges g := by
  have hd : k.cacheOf t = some d := by
    rw [Config.cacheOf_eq_current (by rw [hidle]; rfl)]
    have hlifecycle := (hinv.thread t).lifecycle
    unfold LifecycleOk at hlifecycle
    split at hlifecycle
    · rename_i hactive
      obtain ⟨d', hcurrent, hkey'⟩ := hlifecycle
      rw [cacheCurrent, if_pos hactive, hcurrent, ← hkey', hkey]
    · rw [hlifecycle.2] at hkey
      simp at hkey
  obtain ⟨descriptor, hown⟩ := hinv.ownCache hd
  have hmine : g (.inflight t) = [] := hinv.carries_at hidle
  refine hinv.reown rfl rfl rfl rfl hinv.storage.apart hinv.storage.valid ?_ (fun u _ e _ =>
    ⟨rfl, fun _ _ h => h⟩) ?_ hmine (by simp [hmine]) ?_ ⟨?_, ?_, ?_⟩ ?_ (by simp [Pc.argument]) ?_
  · intro u hu
    simp [forgetDescriptor, handToRelease, hu]
  · intro c
    refine (holds_cache_some (d := d) ?_).mpr ⟨descriptor, hown.ok.mapped, hown.chain c, hown.count c⟩
    rw [Config.cacheOf, Config.goto_pc]
    rfl
  · intro c hc
    exact absurd (mem_classIndices c) hc
  · simp [LifecycleOk, forgetDescriptor, handToRelease]
  · intro d' hd'
    rw [Config.cacheOf, Config.goto_pc] at hd'
    obtain rfl := Option.some.inj hd'
    refine ⟨descriptor, hown.ok.congr rfl rfl ?_⟩
    rw [Config.goto_pc, hidle]
    rfl
  · rw [Config.goto_pc]
    simp [Pc.Fits, forgetDescriptor, handToRelease]
  · intro d' hd' u hu hother
    rw [Config.cacheOf, Config.goto_pc] at hd'
    obtain rfl := Option.some.inj hd'
    exact hu (hinv.owner_unique u t _ hother hd)
  · rw [hidle]
    exact Iff.rfl

/-- **Unmap.** The emptied descriptor goes away, or stays mapped with nobody using it. -/
theorem Inv.unmapDescriptor (hinv : Inv k bases larges g) (w : World)
    (hpc : k.pc t = .unmapDescriptor d) :
    ∃ s, unmapDescriptor w k.state t d = some s ∧ Inv (k.goto t s .idle) bases larges g := by
  have hd : k.cacheOf t = some d := by rw [Config.cacheOf, hpc]; rfl
  obtain ⟨descriptor, hown⟩ := hinv.ownCache hd
  have hmine : g (.inflight t) = [] := hinv.carries_at hpc
  have hnil : ∀ c, g (.cache t c) = [] := fun c => hinv.emptied t c (by rw [hpc]; trivial)
  have huncached : k.state.currentState t = .uncached := hinv.fits_at hpc
  have hother : ∀ u, u ≠ t → ∀ e, k.cacheOf u = some e → e ≠ d := by
    intro u hu e he heq
    exact hu (hinv.owner_unique u t d (heq ▸ he) hd)
  -- What remains is the same whether the system call succeeds or not.
  have hrest : ∀ s : State Tid, s.memory = k.state.memory → s.mapped = k.state.mapped →
      s.slabs = k.state.slabs → s.sharedHeads = k.state.sharedHeads →
      s.descriptorMapped.Sublist k.state.descriptorMapped → s.currentState = k.state.currentState →
      s.currentDescriptor = k.state.currentDescriptor → s.keyValue = k.state.keyValue →
      (∀ e, e ≠ d → s.descriptor e = k.state.descriptor e) →
      (∀ r : Mapping, r.base ≠ d → r ∈ k.state.descriptorMapped → r ∈ s.descriptorMapped) →
      Inv (k.goto t s .idle) bases larges g := by
    intro s hmemory hmapped hslabs hheads hsublist hstate hcurrent hkey hdescriptor hregion
    have hcacheOf : (k.goto t s .idle).cacheOf t = none := by
      rw [Config.cacheOf_eq_current (by rw [Config.goto_pc]; rfl), Config.goto_state, cacheCurrent,
        hstate, huncached]
      rfl
    have hsub : s.mappings.Sublist k.state.mappings := by
      unfold State.mappings
      rw [hmapped]
      exact (List.Sublist.refl _).append hsublist
    refine hinv.reown hmemory hmapped hslabs hheads (hinv.storage.apart.sublist hsub)
      (fun r hr => hinv.storage.valid r (hsub.subset hr))
      (fun u _ => ⟨congrFun hstate u, congrFun hcurrent u, congrFun hkey u⟩) ?_ ?_ hmine
      (by simp [hmine]) (fun e he => he.elim) ⟨?_, ?_, ?_⟩ ?_ (by simp [Pc.argument]) ?_
    · intro u hu e he
      have hne := hother u hu e he
      exact ⟨hdescriptor e hne, fun r hr hmem => hregion r (hr ▸ hne) hmem⟩
    · intro c
      exact (holds_cache_none hcacheOf).mpr (hnil c)
    · have hlifecycle := (hinv.thread t).lifecycle
      unfold LifecycleOk at *
      rwa [Config.goto_state, hstate, hcurrent, hkey]
    · intro e he
      rw [hcacheOf] at he
      simp at he
    · rw [Config.goto_pc]
      trivial
    · intro e he
      rw [hcacheOf] at he
      simp at he
    · rw [hpc]
      exact Iff.rfl
  have hbase := hown.ok.base
  unfold Hplf.unmapDescriptor
  rw [hown.ok.mapped]
  simp only [Option.bind_eq_bind, Option.bind_some]
  split
  · refine ⟨_, rfl, hrest _ rfl rfl rfl rfl (List.Sublist.refl _) rfl rfl rfl (fun _ _ => rfl)
      fun _ _ h => h⟩
  · refine ⟨_, rfl, hrest _ rfl rfl rfl rfl List.erase_sublist rfl rfl rfl ?_ ?_⟩
    · intro e he
      exact Function.update_of_ne (by rw [hbase]; exact he) _ _
    · intro r hr hmem
      refine (List.mem_erase_of_ne ?_).mpr hmem
      rintro rfl
      exact hr hbase

end Hplf
