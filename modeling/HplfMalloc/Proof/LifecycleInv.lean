import HplfMalloc.Proof.LifecycleFrame
import HplfMalloc.Proof.Safety

/-!
# The account of descriptors

Every mapped descriptor is the current one of one active thread, or has been handed to
`release_descriptor` once; a thread maps a descriptor only while it is uninitialised. These facts are kept
by the three kinds of moves an action can make, by thread exit, and by everything that leaves the lifecycle
data alone.
-/

namespace Hplf

open Lib Memory

variable {Tid : Type}

/-- The current descriptor of some active thread. -/
def Current (s : State Tid) (d : Nat) : Prop :=
  ∃ t, s.currentState t = .active ∧ s.currentDescriptor t = some d

/-- The account of descriptors. -/
structure Life (s : State Tid) : Prop where
  region : ∀ d descriptor, s.descriptor d = some descriptor →
    descriptor.mappingBase = d ∧ descriptor.region ∈ s.descriptorMapped
  mapped : ∀ r ∈ s.descriptorMapped, ∃ descriptor, s.descriptor r.base = some descriptor ∧
    descriptor.region = r
  unused : ∀ t, s.currentState t = .uninitialized → s.descriptorsMappedBy t = 0
  once : ∀ t, s.descriptorsMappedBy t ≤ 1
  current : ∀ d, Current s d → s.descriptor d ≠ none ∧ s.handedToRelease d = 0
  handed : ∀ d, s.descriptor d ≠ none → Current s d ∨ s.handedToRelease d = 1

theorem Life.initial : Life (State.initial : State Tid) where
  region := by simp [State.initial]
  mapped := by simp [State.initial]
  unused _ _ := rfl
  once _ := Nat.zero_le 1
  current := by simp [Current, State.initial]
  handed := by simp [State.initial]

section Same

variable {own : Ptr} {s s' : State Tid}

theorem SameLifecycle.exists_descriptor (hsame : SameLifecycle own s s') {d : Nat}
    {descriptor : CacheDescriptor} (hd : s.descriptor d = some descriptor) :
    ∃ descriptor', s'.descriptor d = some descriptor' ∧ descriptor'.region = descriptor.region := by
  have hregion := hsame.region d
  rw [hd, Option.map_some, Option.map_eq_some_iff] at hregion
  exact hregion

theorem SameLifecycle.of_descriptor (hsame : SameLifecycle own s s') {d : Nat}
    {descriptor' : CacheDescriptor} (hd : s'.descriptor d = some descriptor') :
    ∃ descriptor, s.descriptor d = some descriptor ∧ descriptor.region = descriptor'.region := by
  have hregion := hsame.region d
  rw [hd, Option.map_some, eq_comm, Option.map_eq_some_iff] at hregion
  exact hregion

theorem SameLifecycle.ne_none (hsame : SameLifecycle own s s') (d : Nat) :
    s'.descriptor d ≠ none ↔ s.descriptor d ≠ none := by
  have hregion := hsame.region d
  rw [ne_eq, ne_eq, not_iff_not, ← Option.map_eq_none_iff (f := CacheDescriptor.region), hregion,
    Option.map_eq_none_iff]

theorem SameLifecycle.current_iff (hsame : SameLifecycle own s s') (d : Nat) :
    Current s' d ↔ Current s d := by
  unfold Current
  rw [hsame.currentState, hsame.currentDescriptor]

theorem Life.same (hlife : Life s) (hsame : SameLifecycle own s s') : Life s' where
  region d descriptor' hd := by
    obtain ⟨descriptor, hd₀, hregion⟩ := hsame.of_descriptor hd
    obtain ⟨hbase, hmem⟩ := hlife.region d descriptor hd₀
    rw [hsame.descriptorMapped, ← hregion]
    exact ⟨(congrArg Mapping.base hregion).symm.trans hbase, hmem⟩
  mapped r hr := by
    rw [hsame.descriptorMapped] at hr
    obtain ⟨descriptor, hd, rfl⟩ := hlife.mapped r hr
    exact hsame.exists_descriptor hd
  unused t ht := by
    rw [hsame.currentState] at ht
    rw [hsame.descriptorsMappedBy]
    exact hlife.unused t ht
  once t := by
    rw [hsame.descriptorsMappedBy]
    exact hlife.once t
  current d hd := by
    rw [hsame.ne_none, hsame.handedToRelease]
    exact hlife.current d ((hsame.current_iff d).mp hd)
  handed d hd := by
    rw [hsame.current_iff, hsame.handedToRelease]
    exact hlife.handed d ((hsame.ne_none d).mp hd)

end Same

theorem SetupNoise.sameLifecycle {s s' : State Tid} (hnoise : SetupNoise s s') (own : Ptr) :
    SameLifecycle own s s' := by
  obtain ⟨_, _, _, _, _, _, _, _, rfl⟩ := hnoise
  exact ⟨rfl, rfl, rfl, rfl, rfl, rfl, fun _ => rfl, fun _ _ => rfl⟩

variable {k : Config Tid} {t : Tid} {bases larges : List Nat} {g : Place Tid → List Nat}

/-- A fresh mapping starts where no descriptor is mapped. -/
theorem Life.fresh (hlife : Life k.state) (hinv : Inv k bases larges g) {d length : Nat}
    (hfresh : Mapping.Fresh k.state.mappings ⟨d, length⟩) (hlength : 0 < length) :
    k.state.descriptor d = none := by
  by_contra hne
  obtain ⟨descriptor, hd⟩ := Option.ne_none_iff_exists'.mp hne
  obtain ⟨hbase, hmem⟩ := hlife.region d descriptor hd
  have hmem' : descriptor.region ∈ k.state.mappings := List.mem_append_right _ hmem
  exact (hfresh.apart _ hmem').base_ne hlength (hinv.storage.valid _ hmem').length_pos hbase.symm

variable [DecidableEq Tid]

/-- Giving up on a cache before one was mapped. -/
theorem Life.decline {s : State Tid} (hlife : Life s) (hstate : s.currentState t = .uninitialized) :
    Life (setCurrentState s t .uncached) := by
  have hcurrent : ∀ d, Current (setCurrentState s t .uncached) d ↔ Current s d := by
    intro d
    apply exists_congr
    intro u
    by_cases hu : u = t
    · subst hu
      simp [setCurrentState, hstate]
    · simp [setCurrentState, hu]
  refine ⟨hlife.region, hlife.mapped, fun u hu => ?_, hlife.once, fun d hd => ?_, fun d hd => ?_⟩
  · by_cases hut : u = t
    · simp [setCurrentState, hut] at hu
    · simp only [setCurrentState, Function.update_of_ne hut] at hu
      exact hlife.unused u hu
  · exact hlife.current d ((hcurrent d).mp hd)
  · exact (hlife.handed d hd).imp_left (hcurrent d).mpr

/-- Mapping a fresh descriptor keeps the record of mapped descriptors. -/
theorem Life.withFresh {s : State Tid} (hlife : Life s) {d length : Nat}
    (hnone : s.descriptor d = none) :
    (∀ e descriptor, (s.withFreshDescriptor t d length).descriptor e = some descriptor →
        descriptor.mappingBase = e ∧
          descriptor.region ∈ (s.withFreshDescriptor t d length).descriptorMapped) ∧
      ∀ r ∈ (s.withFreshDescriptor t d length).descriptorMapped,
        ∃ descriptor, (s.withFreshDescriptor t d length).descriptor r.base = some descriptor ∧
          descriptor.region = r := by
  constructor
  · intro e descriptor he
    by_cases hed : e = d
    · subst hed
      simp only [State.withFreshDescriptor, Function.update_self, Option.some.injEq] at he
      subst he
      exact ⟨rfl, List.mem_cons_self⟩
    · simp only [State.withFreshDescriptor, Function.update_of_ne hed] at he
      obtain ⟨hbase, hmem⟩ := hlife.region e descriptor he
      exact ⟨hbase, List.mem_cons_of_mem _ hmem⟩
  · intro r hr
    rcases List.mem_cons.mp hr with rfl | hold
    · exact ⟨_, Function.update_self _ _ _, rfl⟩
    · obtain ⟨descriptor, he, hregion⟩ := hlife.mapped r hold
      have hne : r.base ≠ d := fun heq => by simp [← heq, he] at hnone
      exact ⟨descriptor, (Function.update_of_ne hne _ _).trans he, hregion⟩

/-- A thread that leaves its uninitialised state may have mapped its one descriptor. -/
theorem Life.mapsOnce {s : State Tid} (hlife : Life s) (hstate : s.currentState t = .uninitialized)
    {value : LifecycleState} (hvalue : value ≠ .uninitialized) (u : Tid) :
    (Function.update s.currentState t value u = .uninitialized →
        Function.update s.descriptorsMappedBy t (s.descriptorsMappedBy t + 1) u = 0) ∧
      Function.update s.descriptorsMappedBy t (s.descriptorsMappedBy t + 1) u ≤ 1 := by
  by_cases hu : u = t
  · subst hu
    simp [hvalue, hlife.unused u hstate]
  · simpa [hu] using ⟨hlife.unused u, hlife.once u⟩

/-- An active thread other than an uninitialised one is not affected by what the latter does. -/
theorem current_update {s s' : State Tid} (hstate : s.currentState t = .uninitialized)
    (hstate' : ∀ u, u ≠ t → s'.currentState u = s.currentState u)
    (hdescriptor' : ∀ u, u ≠ t → s'.currentDescriptor u = s.currentDescriptor u) (d : Nat) :
    Current s' d ↔ (s'.currentState t = .active ∧ s'.currentDescriptor t = some d) ∨ Current s d := by
  constructor
  · rintro ⟨u, hactive, hcurrent⟩
    by_cases hu : u = t
    · subst hu
      exact Or.inl ⟨hactive, hcurrent⟩
    · rw [hstate' u hu] at hactive
      rw [hdescriptor' u hu] at hcurrent
      exact Or.inr ⟨u, hactive, hcurrent⟩
  · rintro (hmine | ⟨u, hactive, hcurrent⟩)
    · exact ⟨t, hmine⟩
    · have hu : u ≠ t := by
        rintro rfl
        rw [hstate] at hactive
        cases hactive
      exact ⟨u, (hstate' u hu).trans hactive, (hdescriptor' u hu).trans hcurrent⟩

theorem Life.activate {s : State Tid} (hlife : Life s) (hstate : s.currentState t = .uninitialized)
    {d length : Nat} (hnone : s.descriptor d = none) :
    Life { (setCurrentState s t .active).withFreshDescriptor t d length with
      keyValue := Function.update s.keyValue t (some d)
      currentDescriptor := Function.update s.currentDescriptor t (some d) } := by
  obtain ⟨hregion, hmapped⟩ := hlife.withFresh (t := t) hnone
  have honce := hlife.mapsOnce hstate (show LifecycleState.active ≠ .uninitialized by simp)
  have hcurrent : ∀ e, Current { (setCurrentState s t .active).withFreshDescriptor t d length with
      keyValue := Function.update s.keyValue t (some d)
      currentDescriptor := Function.update s.currentDescriptor t (some d) } e ↔ _ :=
    current_update hstate (fun u hu => Function.update_of_ne hu _ _)
      fun u hu => Function.update_of_ne hu _ _
  refine ⟨hregion, hmapped, fun u => (honce u).1, fun u => (honce u).2, fun e he => ?_, fun e he => ?_⟩
  · by_cases hed : e = d
    · subst hed
      simp [State.withFreshDescriptor]
    · rcases (hcurrent e).mp he with ⟨-, hmine⟩ | hold
      · simp only [Function.update_self, Option.some.injEq] at hmine
        exact absurd hmine.symm hed
      · simpa [State.withFreshDescriptor, setCurrentState, hed] using hlife.current e hold
  · by_cases hed : e = d
    · subst hed
      exact Or.inl ((hcurrent e).mpr (Or.inl ⟨Function.update_self _ _ _, Function.update_self _ _ _⟩))
    · simp only [State.withFreshDescriptor, setCurrentState, Function.update_of_ne hed] at he
      refine (hlife.handed e he).imp (fun hold => (hcurrent e).mpr (Or.inr hold)) fun hone => ?_
      simpa [State.withFreshDescriptor, setCurrentState, hed] using hone

/-- Giving up on a cache whose descriptor could not be registered, nor unmapped again. -/
theorem Life.abandon {s : State Tid} (hlife : Life s) (hstate : s.currentState t = .uninitialized)
    {d length : Nat} (hnone : s.descriptor d = none) :
    Life (handToRelease ((setCurrentState s t .uncached).withFreshDescriptor t d length) d) := by
  obtain ⟨hregion, hmapped⟩ := hlife.withFresh (t := t) hnone
  have honce := hlife.mapsOnce hstate (show LifecycleState.uncached ≠ .uninitialized by simp)
  have hcurrent : ∀ e, Current
      (handToRelease ((setCurrentState s t .uncached).withFreshDescriptor t d length) d) e
        ↔ Current s e := by
    intro e
    refine Iff.trans (current_update hstate ?_ ?_ e) ?_
    · exact fun u hu => Function.update_of_ne hu _ _
    · exact fun u _ => rfl
    · simp [handToRelease, State.withFreshDescriptor, setCurrentState]
  refine ⟨hregion, hmapped, fun u => (honce u).1, fun u => (honce u).2, fun e he => ?_, fun e he => ?_⟩
  · have hold := hlife.current e ((hcurrent e).mp he)
    have hed : e ≠ d := fun heq => hold.1 (heq ▸ hnone)
    simpa [handToRelease, State.withFreshDescriptor, setCurrentState, hed] using hold
  · by_cases hed : e = d
    · subst hed
      exact Or.inr (by simp [handToRelease, State.withFreshDescriptor])
    · simp only [handToRelease, State.withFreshDescriptor, setCurrentState,
        Function.update_of_ne hed] at he
      apply (hlife.handed e he).imp (hcurrent e).mpr
      intro hone
      simpa [handToRelease, State.withFreshDescriptor, setCurrentState, hed] using hone

omit [DecidableEq Tid] in
/-- A descriptor that is no thread's current one may be unmapped. -/
theorem Life.unmap {s : State Tid} (hlife : Life s) {d length : Nat}
    (hnodup : s.descriptorMapped.Nodup) (hcurrent : ¬ Current s d)
    (hregion : ⟨d, length⟩ ∈ s.descriptorMapped) :
    Life { s with
      descriptor := Function.update s.descriptor d none
      descriptorMapped := s.descriptorMapped.erase ⟨d, length⟩ } where
  region e descriptor he := by
    have hed : e ≠ d := by
      rintro rfl
      simp at he
    simp only [Function.update_of_ne hed] at he
    obtain ⟨hbase, hmem⟩ := hlife.region e descriptor he
    refine ⟨hbase, (List.mem_erase_of_ne fun heq => hed ?_).mpr hmem⟩
    exact hbase.symm.trans (congrArg Mapping.base heq)
  mapped r hr := by
    obtain ⟨hne, hmem⟩ := hnodup.mem_erase_iff.mp hr
    obtain ⟨descriptor, he, heq⟩ := hlife.mapped r hmem
    obtain ⟨descriptor', hd, heq'⟩ := hlife.mapped _ hregion
    have hbase : r.base ≠ d := by
      rintro rfl
      obtain rfl := Option.some.inj (he.symm.trans hd)
      exact hne (heq.symm.trans heq')
    exact ⟨descriptor, (Function.update_of_ne hbase _ _).trans he, heq⟩
  unused := hlife.unused
  once := hlife.once
  current e he := by
    have hed : e ≠ d := fun heq => hcurrent (heq ▸ he)
    simpa [hed] using hlife.current e he
  handed e he := by
    have hed : e ≠ d := by
      rintro rfl
      simp at he
    simp only [Function.update_of_ne hed] at he
    exact hlife.handed e he

theorem nodup_of_apart {regions : List Mapping} (hapart : regions.Pairwise Mapping.Apart)
    (hvalid : ∀ r ∈ regions, r.Valid) : regions.Nodup := by
  refine List.nodup_iff_pairwise_ne.mpr (hapart.imp_of_mem fun hr hr' hne heq => ?_)
  exact hne.base_ne (hvalid _ hr).length_pos (hvalid _ hr').length_pos (congrArg Mapping.base heq)

omit [DecidableEq Tid] in
theorem Inv.descriptorMapped_nodup (hinv : Inv k bases larges g) : k.state.descriptorMapped.Nodup :=
  (nodup_of_apart hinv.storage.apart hinv.storage.valid).sublist (List.sublist_append_right _ _)

/-- **First use.** Whatever the system answers, the account is kept. -/
theorem Life.acquired (hlife : Life k.state) (hinv : Inv k bases larges g) {s : State Tid}
    {cache : Ptr} (hstate : k.state.currentState t = .uninitialized)
    (hacquired : Acquired k.state s t cache) : Life s := by
  cases hacquired with
  | declined hnoise => exact (hlife.decline hstate).same (hnoise.sameLifecycle none)
  | @released d length s₁ hfresh hlength hhanded hnoise =>
      have hkept : Life s₁ := hhanded ▸ hlife.abandon hstate (hlife.fresh hinv hfresh hlength)
      rcases hnoise with hnoise | hnoise
      · obtain ⟨hapart, hvalid⟩ := hinv.fresh_mappings hfresh hlength
        refine Life.same (hkept.unmap ?_ ?_ ?_) (hnoise.sameLifecycle none)
        · subst hhanded
          exact (nodup_of_apart hapart hvalid).sublist (List.sublist_append_right _ _)
        · intro hcurrent
          have hzero := (hkept.current d hcurrent).2
          simp [hhanded, handToRelease, State.withFreshDescriptor] at hzero
        · subst hhanded
          exact List.mem_cons_self
      · exact hkept.same (hnoise.sameLifecycle none)
  | activated hfresh hlength hnoise =>
      exact (hlife.activate hstate (hlife.fresh hinv hfresh hlength)).same (hnoise.sameLifecycle none)

theorem Life.acquire (hlife : Life k.state) (hinv : Inv k bases larges g) {w : World} {s : State Tid}
    {cache : Ptr} (hacquire : cacheAcquire w k.state t = some (s, cache)) : Life s := by
  cases hstate : k.state.currentState t with
  | active | uncached =>
      simp only [cacheAcquire, hstate, Option.some.injEq, Prod.mk.injEq] at hacquire
      exact hacquire.1 ▸ hlife
  | uninitialized =>
      obtain ⟨s', cache', hacquire', hacquired⟩ := cacheAcquire_uninitialized w hstate
      obtain ⟨rfl, rfl⟩ := Prod.mk.inj (Option.some.inj (hacquire'.symm.trans hacquire))
      exact hlife.acquired hinv hstate hacquired

omit [DecidableEq Tid] in
/-- An active thread is not tearing down, so it owns its current descriptor. -/
theorem Inv.cacheOf_of_active (hinv : Inv k bases larges g) {d : Nat}
    (hactive : k.state.currentState t = .active) (hcurrent : k.state.currentDescriptor t = some d) :
    k.cacheOf t = some d := by
  have hteardown : (k.pc t).teardown = none := by
    have hfits := (hinv.thread t).fits
    cases hpc : k.pc t with
    | flush d rest teardown | publishFlush d c list rest teardown =>
        cases teardown with
        | false => rfl
        | true =>
            rw [hpc, Pc.Fits, hactive] at hfits
            cases hfits
    | unmapDescriptor d =>
        rw [hpc, Pc.Fits, hactive] at hfits
        cases hfits
    | _ => rfl
  rw [Config.cacheOf_eq_current hteardown, cacheCurrent, if_pos hactive, hcurrent]

omit [DecidableEq Tid] in
/-- The key holds the current descriptor of an active thread. -/
theorem Inv.active_of_key (hinv : Inv k bases larges g) {d : Nat}
    (hkey : k.state.keyValue t = some d) :
    k.state.currentState t = .active ∧ k.state.currentDescriptor t = some d := by
  have hlifecycle := (hinv.thread t).lifecycle
  unfold LifecycleOk at hlifecycle
  split at hlifecycle
  · rename_i hactive
    obtain ⟨d', hcurrent, hkey'⟩ := hlifecycle
    exact ⟨hactive, by rw [hcurrent, ← hkey', hkey]⟩
  · rw [hlifecycle.2] at hkey
    cases hkey

/-- **Exit.** The current descriptor of the thread is handed over. -/
theorem Life.exit (hlife : Life k.state) (hinv : Inv k bases larges g) {d : Nat}
    (hkey : k.state.keyValue t = some d) :
    Life (handToRelease (forgetDescriptor
      { k.state with keyValue := Function.update k.state.keyValue t none } t) d) := by
  obtain ⟨hactive, hmine⟩ := hinv.active_of_key hkey
  have hcurrent : ∀ e, Current (handToRelease (forgetDescriptor
      { k.state with keyValue := Function.update k.state.keyValue t none } t) d) e
        ↔ Current k.state e ∧ e ≠ d := by
    intro e
    constructor
    · rintro ⟨u, hu, hdescriptor⟩
      have hut : u ≠ t := by
        rintro rfl
        simp [handToRelease, forgetDescriptor] at hu
      simp only [handToRelease, forgetDescriptor, Function.update_of_ne hut] at hu hdescriptor
      refine ⟨⟨u, hu, hdescriptor⟩, ?_⟩
      rintro rfl
      exact hut (hinv.owner_unique u t e (hinv.cacheOf_of_active hu hdescriptor)
        (hinv.cacheOf_of_active hactive hmine))
    · rintro ⟨⟨u, hu, hdescriptor⟩, hed⟩
      have hut : u ≠ t := by
        rintro rfl
        exact hed (Option.some.inj (hdescriptor.symm.trans hmine))
      refine ⟨u, ?_, ?_⟩
      · simpa [handToRelease, forgetDescriptor, hut] using hu
      · simpa [handToRelease, forgetDescriptor, hut] using hdescriptor
  refine ⟨hlife.region, hlife.mapped, fun u hu => ?_, hlife.once, fun e he => ?_, fun e he => ?_⟩
  · have hut : u ≠ t := by
      rintro rfl
      simp [handToRelease, forgetDescriptor] at hu
    simp only [handToRelease, forgetDescriptor, Function.update_of_ne hut] at hu
    exact hlife.unused u hu
  · obtain ⟨hold, hed⟩ := (hcurrent e).mp he
    simpa [handToRelease, forgetDescriptor, hed] using hlife.current e hold
  · by_cases hed : e = d
    · subst hed
      have hzero := (hlife.current e ⟨t, hactive, hmine⟩).2
      exact Or.inr (by simp [handToRelease, forgetDescriptor, hzero])
    · refine (hlife.handed e he).imp (fun hold => (hcurrent e).mpr ⟨hold, hed⟩) fun hone => ?_
      simpa [handToRelease, forgetDescriptor, hed] using hone

/-- **Unmap.** A descriptor that is being torn down is no thread's current one. -/
theorem Life.unmapDescriptor (hlife : Life k.state) (hinv : Inv k bases larges g) {w : World}
    {s : State Tid} {d : Nat} (hpc : k.pc t = .unmapDescriptor d)
    (hunmap : Hplf.unmapDescriptor w k.state t d = some s) : Life s := by
  have hd : k.cacheOf t = some d := by rw [Config.cacheOf, hpc]; rfl
  obtain ⟨descriptor, hok⟩ := (hinv.thread t).descriptor d hd
  have hcurrent : ¬ Current k.state d := by
    rintro ⟨u, hactive, hmine⟩
    obtain rfl := hinv.owner_unique u t d (hinv.cacheOf_of_active hactive hmine) hd
    have hfits := (hinv.thread u).fits
    rw [hpc, Pc.Fits, hactive] at hfits
    cases hfits
  unfold Hplf.unmapDescriptor at hunmap
  rw [hok.mapped, Option.bind_eq_bind, Option.bind_some] at hunmap
  dsimp only at hunmap
  split at hunmap
  · obtain rfl := Option.some.inj hunmap
    exact hlife.same (SetupNoise.sameLifecycle ⟨_, _, _, _, _, _, _, _, rfl⟩ none)
  · obtain rfl := Option.some.inj hunmap
    have hgone := hlife.unmap hinv.descriptorMapped_nodup hcurrent hok.region
    rw [hok.base]
    exact hgone.same (SetupNoise.sameLifecycle ⟨_, _, _, _, _, _, _, _, rfl⟩ none)

/-! ### Steps -/

variable {k' : Config Tid} {v : Variant} {w : World}

/-- What a step of the system does to the lifecycle data. -/
inductive LifecycleStep (w : World) (k k' : Config Tid) : Prop
  | same {own : Ptr} (hsame : SameLifecycle own k.state k'.state)
  | acquire {t : Tid} {s : State Tid} {cache : Ptr}
      (hacquire : cacheAcquire w k.state t = some (s, cache)) (hsame : SameLifecycle cache s k'.state)
  | exit {t : Tid} {d : Nat} (hkey : k.state.keyValue t = some d)
      (hstate : k'.state = handToRelease (forgetDescriptor
        { k.state with keyValue := Function.update k.state.keyValue t none } t) d)
  | unmap {t : Tid} {d : Nat} (hpc : k.pc t = .unmapDescriptor d)
      (hunmap : unmapDescriptor w k.state t d = some k'.state)

theorem enterMalloc_work {s : State Tid} {r : Request} :
    ListWork none s (enterMalloc s t r).1 := by
  unfold enterMalloc
  split
  · exact .refl _ _
  · split
    · exact ListWork.of_lists ..
    · split <;> exact .refl _ _

/-- Of all calls only a thread's exit touches the lifecycle data when it begins. -/
theorem enter_work {s s' : State Tid} {call : Call} {pc : Pc} (hcall : call ≠ .threadExit)
    (henter : enter v s t call = some (s', pc)) : ListWork none s s' := by
  cases call with
  | malloc size =>
      obtain ⟨rfl, -⟩ := Prod.mk.inj (Option.some.inj henter)
      exact enterMalloc_work
  | calloc count size =>
      simp only [enter] at henter
      split at henter
      · obtain ⟨rfl, -⟩ := Prod.mk.inj (Option.some.inj henter)
        exact .refl _ _
      · split at henter
        · obtain ⟨rfl, -⟩ := Prod.mk.inj (Option.some.inj henter)
          exact ListWork.of_lists ..
        · obtain ⟨rfl, -⟩ := Prod.mk.inj (Option.some.inj henter)
          exact enterMalloc_work
  | realloc pointer size =>
      simp only [enter] at henter
      split at henter
      · obtain ⟨rfl, -⟩ := Prod.mk.inj (Option.some.inj henter)
        exact enterMalloc_work
      · split at henter
        · obtain ⟨rfl, -⟩ := Prod.mk.inj (Option.some.inj henter)
          exact .refl _ _
        · split at henter
          · obtain ⟨rfl, -⟩ := Prod.mk.inj (Option.some.inj henter)
            exact ListWork.of_lists ..
          · obtain ⟨header, -, h⟩ := Option.bind_eq_some_iff.mp henter
            obtain ⟨retain, -, h⟩ := Option.bind_eq_some_iff.mp h
            split at h
            · obtain ⟨s₁, hset, h⟩ := Option.bind_eq_some_iff.mp h
              obtain ⟨rfl, -⟩ := Prod.mk.inj (Option.some.inj h)
              exact setRequestedSize_work hset
            · obtain ⟨rfl, -⟩ := Prod.mk.inj (Option.some.inj h)
              exact enterMalloc_work
  | free pointer =>
      simp only [enter] at henter
      split at henter <;>
        (obtain ⟨rfl, -⟩ := Prod.mk.inj (Option.some.inj henter); exact .refl _ _)
  | threadFlush =>
      cases v with
      | locked =>
          obtain ⟨rfl, -⟩ := Prod.mk.inj (Option.some.inj henter)
          exact .refl _ _
      | cached =>
          simp only [enter] at henter
          split at henter <;>
            (obtain ⟨rfl, -⟩ := Prod.mk.inj (Option.some.inj henter); exact .refl _ _)
  | threadExit => exact absurd rfl hcall

/-- The account of what every step does. -/
theorem Inv.lifecycleStep (hinv : Inv k bases larges g) {e : Option (Tid × Option Call)}
    (hstep : Step v w k e k') : LifecycleStep w k k' := by
  cases hstep with
  | @call t call s pc hidle hallowed henter =>
      by_cases hcall : call = .threadExit
      · subst hcall
        simp only [Hplf.enter] at henter
        split at henter
        · obtain ⟨rfl, -⟩ := Prod.mk.inj (Option.some.inj henter)
          exact .same (SameLifecycle.refl none _)
        · rename_i hkey
          obtain ⟨rfl, -⟩ := Prod.mk.inj (Option.some.inj henter)
          exact .exit hkey rfl
      · exact .same ((enter_work hcall henter).sameLifecycle)
  | advance hadvance =>
      obtain ⟨pc, -, hmove⟩ := hinv.moved hadvance
      cases hmove with
      | same hsame => exact .same hsame
      | acquire _ hacquire hsame => exact .acquire hacquire hsame
      | unmap hpc hunmap => exact .unmap hpc hunmap
  | write => exact .same (show SameLifecycle none _ _ from .of_storage ..)
  | @trim t s released hquiescent htrim =>
      obtain ⟨k', bases', g', htrim', htrims, -⟩ := hinv.trimQuiescent (hquiescent t) v w
      obtain ⟨rfl, -⟩ := Prod.mk.inj (Option.some.inj (htrim'.symm.trans htrim))
      obtain ⟨_, _, _, _, _, _, rfl⟩ := htrims.rest
      exact .same (show SameLifecycle none _ _ from .of_storage ..)

/-- **One step.** Every step keeps the account of descriptors. -/
theorem Life.step (hlife : Life k.state) (hinv : Inv k bases larges g)
    (hstep : LifecycleStep w k k') : Life k'.state := by
  cases hstep with
  | same hsame => exact hlife.same hsame
  | acquire hacquire hsame => exact (hlife.acquire hinv hacquire).same hsame
  | exit hkey hstate => exact hstate ▸ hlife.exit hinv hkey
  | unmap hpc hunmap => exact hlife.unmapDescriptor hinv hpc hunmap

/-- **Invariance.** The account holds in every reachable configuration. -/
theorem life_of_reachable (hreach : (machine Tid v w).Reachable k) : Life k.state := by
  refine (hreach.invariant (I := fun j => Safe j ∧ Life j.state) ?_ ?_).2
  · rintro j (rfl : j = Config.initial)
    exact ⟨⟨_, _, _, Inv.initial⟩, Life.initial⟩
  · rintro j e j' ⟨hsafe, hlife⟩ hstep
    obtain ⟨bases, larges, g, hinv⟩ := id hsafe
    exact ⟨Safe.step hsafe hstep, hlife.step hinv (hinv.lifecycleStep hstep)⟩

/-! ### The state of a thread -/

/-- The transitions of `current_state`. -/
inductive LifecycleState.Moves : LifecycleState → LifecycleState → Prop
  | stay (value : LifecycleState) : Moves value value
  | activate : Moves .uninitialized .active
  | decline : Moves .uninitialized .uncached
  | destroy : Moves .active .uncached

omit [DecidableEq Tid] in
theorem SameLifecycle.moves {own : Ptr} {s s' : State Tid} (hsame : SameLifecycle own s s') (u : Tid) :
    (s.currentState u).Moves (s'.currentState u) := by
  rw [hsame.currentState]
  exact .stay _

theorem Acquired.moves {s s' : State Tid} {cache : Ptr} (hacquired : Acquired s s' t cache)
    (hstate : s.currentState t = .uninitialized) (u : Tid) :
    (s.currentState u).Moves (s'.currentState u) := by
  by_cases hu : u = t
  · subst hu
    rw [hstate]
    cases hacquired with
    | declined hnoise =>
        obtain ⟨_, _, _, _, _, _, _, _, rfl⟩ := hnoise
        simpa [setCurrentState] using LifecycleState.Moves.decline
    | released _ _ hhanded hnoise =>
        subst hhanded
        rcases hnoise with ⟨_, _, _, _, _, _, _, _, rfl⟩ | ⟨_, _, _, _, _, _, _, _, rfl⟩ <;>
          simpa [setCurrentState, State.withFreshDescriptor, handToRelease]
            using LifecycleState.Moves.decline
    | activated _ _ hnoise =>
        obtain ⟨_, _, _, _, _, _, _, _, rfl⟩ := hnoise
        simpa [setCurrentState, State.withFreshDescriptor] using LifecycleState.Moves.activate
  · rw [(hacquired.others hu).1]
    exact .stay _

theorem LifecycleStep.moves (hinv : Inv k bases larges g) (hstep : LifecycleStep w k k') (u : Tid) :
    (k.state.currentState u).Moves (k'.state.currentState u) := by
  cases hstep with
  | same hsame => exact hsame.moves u
  | @acquire t s cache hacquire hsame =>
      rw [hsame.currentState]
      cases hstate : k.state.currentState t with
      | active | uncached =>
          simp only [cacheAcquire, hstate, Option.some.injEq, Prod.mk.injEq] at hacquire
          rw [← hacquire.1]
          exact .stay _
      | uninitialized =>
          obtain ⟨s', cache', hacquire', hacquired⟩ := cacheAcquire_uninitialized w hstate
          obtain ⟨rfl, rfl⟩ := Prod.mk.inj (Option.some.inj (hacquire'.symm.trans hacquire))
          exact hacquired.moves hstate u
  | @exit t d hkey hstate =>
      rw [hstate]
      by_cases hu : u = t
      · subst hu
        rw [(hinv.active_of_key hkey).1]
        simpa [handToRelease, forgetDescriptor] using LifecycleState.Moves.destroy
      · simpa [handToRelease, forgetDescriptor, hu] using LifecycleState.Moves.stay _
  | @unmap t d hpc hunmap =>
      obtain ⟨descriptor, -, h⟩ := Option.bind_eq_some_iff.mp hunmap
      have hsame : k'.state.currentState = k.state.currentState := by
        dsimp only at h
        split at h
        · rw [← Option.some.inj h]
          rfl
        · rw [← Option.some.inj h]
      rw [hsame]
      exact .stay _

end Hplf
