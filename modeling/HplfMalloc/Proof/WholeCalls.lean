import HplfMalloc.Proof.EnterSteps
import HplfMalloc.Proof.LifecycleFrame
import HplfMalloc.Proof.SmallCalls

/-!
# Whole calls

The public functions as a thread between calls runs them while no other thread acts. Each returns, keeps
the invariant, and leaves the blocks of the client alone, apart from the one it was called for.
-/

namespace Hplf

open Lib Memory

variable {Tid : Type} [DecidableEq Tid]
variable {k : Config Tid} {t : Tid} {bases larges : List Nat} {g : Place Tid → List Nat}
variable {v : Variant} {w : World} {c : ClassIndex}

/-- The configuration after a whole call: every thread is where it was. -/
def Config.after (k : Config Tid) (s : State Tid) (live : List Nat) (leaked : List Mapping) :
    Config Tid :=
  { k with state := s, live := live, leaked := leaked }

theorem Config.goto_idle (hidle : k.pc t = .idle) (s : State Tid) (live : List Nat)
    (leaked : List Mapping) :
    { k.goto t s .idle with live := live, leaked := leaked } = k.after s live leaked := by
  have hpc : Function.update k.pc t .idle = k.pc := by
    rw [← hidle, Function.update_eq_self]
  rw [Config.goto, hpc]
  rfl

/-- No thread is inside a call, and the client holds the blocks `live`. -/
def Config.resting (s : State Tid) (live : List Nat) (leaked : List Mapping) : Config Tid :=
  ⟨s, fun _ => .idle, live, none, leaked, fun _ => none⟩

/-- The system was asked for no storage. -/
structure NothingMapped (s s' : State Tid) : Prop where
  queries : s'.pageQueries = s.pageQueries
  outcomes : s'.mapOutcomes = s.mapOutcomes

section

omit [DecidableEq Tid]

theorem NothingMapped.refl (s : State Tid) : NothingMapped s s := ⟨rfl, rfl⟩

theorem NothingMapped.trans {s₁ s₂ s₃ : State Tid} (h₁ : NothingMapped s₁ s₂)
    (h₂ : NothingMapped s₂ s₃) : NothingMapped s₁ s₃ :=
  ⟨h₂.queries.trans h₁.queries, h₂.outcomes.trans h₁.outcomes⟩

theorem ListsOnly.nothingMapped {s s' : State Tid} (hlists : ListsOnly s s') : NothingMapped s s' := by
  obtain ⟨_, _, _, _, rfl⟩ := hlists
  exact ⟨rfl, rfl⟩

theorem SameStorage.nothingMapped {s s' : State Tid} (hsame : SameStorage s s') : NothingMapped s s' :=
  ⟨hsame.pageQueries, hsame.mapOutcomes⟩

/-- Only the client's blocks and the storage matter for what the client sees. -/
theorem KeepsLive.congr {j : Config Tid} {m : Memory} (hkeeps : KeepsLive j m)
    (hlive : ∀ a ∈ k.live, a ∈ j.live) (hmemory : j.state.memory = k.state.memory) : KeepsLive k m := by
  constructor
  · intro a ha
    rw [hkeeps.block a (hlive a ha), hmemory]
  · intro a ha b hb i hi
    rw [← hmemory] at hb ⊢
    exact hkeeps.byte a (hlive a ha) b hb i hi

end

/-! ### Allocation -/

/-- A block of `size` bytes has become the client's, and nothing the client has was touched. -/
structure Delivers (k : Config Tid) (t : Tid) (size : Nat) (bases : List Nat) (g : Place Tid → List Nat)
    (s : State Tid) (a : Nat) (bases' larges' : List Nat) : Prop where
  sized : Sized s.memory bases' larges' size a
  fresh : a ∉ k.live
  keeps : KeepsLive k s.memory
  registered : bases ⊆ bases'
  slabs : ∀ base ∈ bases, s.memory.slab base = k.state.memory.slab base
  inv : ∃ g', Inv (k.after s (a :: k.live) k.leaked) bases' larges' g' ∧ Foreign t g g'

/-- Nothing has become the client's. -/
structure Declines (k : Config Tid) (bases larges : List Nat) (g : Place Tid → List Nat) (s : State Tid) :
    Prop where
  memory : s.memory = k.state.memory
  inv : Inv (k.after s k.live k.leaked) bases larges g

/-- What a whole call of `hplf_malloc` for `size` bytes can come to: the state after it and the block whose
payload it returns. -/
inductive MallocOutcome (v : Variant) (w : World) (k : Config Tid) (t : Tid) (size : Nat)
    (bases larges : List Nat) (g : Place Tid → List Nat) : State Tid → Ptr → Prop
  /-- No block has this size. -/
  | refused {s : State Tid} (hsize : size = 0 ∨ ptrdiffMax < size) (hsame : NothingMapped k.state s)
      (hdeclines : Declines k bases larges g s) :
      MallocOutcome v w k t size bases larges g s none
  /-- A free block of the class was at hand. -/
  | reused {c : ClassIndex} {capacity a : Nat} {s : State Tid}
      (hsize : 0 < size ∧ size ≤ ptrdiffMax) (hfor : sizeClassFor size = some (c, capacity))
      (hfree : g (.shared c) ≠ [] ∨ v = .cached ∧ g (.cache t c) ≠ [])
      (hsame : NothingMapped k.state s) (hdelivers : Delivers k t size bases g s a bases larges) :
      MallocOutcome v w k t size bases larges g s (some a)
  /-- There was none, and a slab was mapped. -/
  | created {c : ClassIndex} {capacity a base : Nat} {free : Ptr} {s₀ s₁ s : State Tid} {h : Slab}
      (hsize : 0 < size ∧ size ≤ ptrdiffMax) (hfor : sizeClassFor size = some (c, capacity))
      (hnone : g (.shared c) = [] ∧ (v = .cached → g (.cache t c) = []))
      (hbefore : NothingMapped k.state s₀)
      (hcreate : slabCreate w s₀ t c (sizeClassCapacities c) = (s₁, some (base, free)))
      (hafter : s.pageQueries = s₁.pageQueries ∧ s.mapOutcomes = s₁.mapOutcomes)
      (hnew : base ∉ bases) (hheader : s.memory.slab base = some h)
      (hclass : h.classIndex = c)
      (hcount : h.slotCount = slabSlots c (w.sysconf k.state.pageQueries).toNat)
      (hdelivers : Delivers k t size bases g s a (base :: bases) larges) :
      MallocOutcome v w k t size bases larges g s (some a)
  /-- There was none, and slab creation failed. -/
  | slabFailed {c : ClassIndex} {capacity : Nat} {s₀ s₁ : State Tid}
      (hsize : 0 < size ∧ size ≤ ptrdiffMax) (hfor : sizeClassFor size = some (c, capacity))
      (hnone : g (.shared c) = [] ∧ (v = .cached → g (.cache t c) = []))
      (hbefore : NothingMapped k.state s₀)
      (hcreate : slabCreate w s₀ t c (sizeClassCapacities c) = (s₁, none))
      (hdeclines : Declines k bases larges g (s₁.setErrno t .ENOMEM)) :
      MallocOutcome v w k t size bases larges g (s₁.setErrno t .ENOMEM) none
  /-- A large block was mapped. -/
  | mapped {a : Nat} {s : State Tid} (hsize : 0 < size ∧ size ≤ ptrdiffMax)
      (hfor : sizeClassFor size = none)
      (hallocate : allocateLarge w k.state t size = (s, blockPayload (some a)))
      (hdelivers : Delivers k t size bases g s a bases (a :: larges)) :
      MallocOutcome v w k t size bases larges g s (some a)
  /-- A large block was not mapped. -/
  | mapFailed {s : State Tid} (hsize : 0 < size ∧ size ≤ ptrdiffMax) (hfor : sizeClassFor size = none)
      (hallocate : allocateLarge w k.state t size = (s, none))
      (hdeclines : Declines k bases larges g s) :
      MallocOutcome v w k t size bases larges g s none

/-- The block a finished allocation delivers. -/
theorem Inv.delivers (hidle : k.pc t = .idle) {size a : Nat} {s : State Tid} {bases' larges' : List Nat}
    {g' : Place Tid → List Nat}
    (hinv : Inv (k.goto t s (.deliver ⟨.malloc, size⟩ a)) bases' larges' g') (hforeign : Foreign t g g')
    (hkeeps : KeepsLive k s.memory) (hregistered : bases ⊆ bases')
    (hslabs : ∀ base ∈ bases, s.memory.slab base = k.state.memory.slab base) :
    Delivers k t size bases g s a bases' larges' := by
  have hpc : (k.goto t s (.deliver ⟨.malloc, size⟩ a)).pc t = .deliver ⟨.malloc, size⟩ a :=
    Config.goto_pc _ _
  have hmem : a ∈ g' (.inflight t) := by
    have hcarries := hinv.carries_at hpc
    rw [show g' (.inflight t) = [a] from hcarries]
    exact List.mem_singleton_self a
  have hover := hinv.handOver .idle hpc (Or.inl rfl)
  rw [Config.goto_goto] at hover
  refine ⟨?_, hinv.not_live (by simp) hmem, hkeeps, hregistered, hslabs,
    replace₂ g' .live (.inflight t) (a :: k.live) [], ?_, hforeign.trans (Foreign.live _ _)⟩
  · have hadmits := hinv.admits (.inflight t) a hmem
    rw [Admits, hpc] at hadmits
    exact hadmits
  · rw [← Config.goto_idle hidle]
    exact hover

omit [DecidableEq Tid] in
theorem Inv.declines (hinv : Inv k bases larges g) {s : State Tid} (hnoise : OsNoise k.state s) :
    Declines k bases larges g s := by
  obtain ⟨_, _, _, rfl⟩ := hnoise
  exact ⟨rfl, hinv.congr ⟨rfl, rfl, rfl, rfl, rfl, rfl, rfl, rfl, rfl, rfl, rfl, rfl, rfl⟩⟩

/-- A call that gives up between its start and its return. -/
theorem Inv.gaveUp (hidle : k.pc t = .idle) {s : State Tid} {r : Request} {capacity : Nat}
    (hinv : Inv (k.goto t s (.allocateSmall r c capacity)) bases larges g) :
    Inv (k.after s k.live k.leaked) bases larges g := by
  have hmine : g (.inflight t) = [] := by
    have hcarries := hinv.mine (t := t)
    rwa [Config.goto_pc] at hcarries
  have hup := hinv.giveUp k.registryOwner hmine (by rw [Config.goto_pc]; rfl)
    (by rw [Config.goto_pc]; rfl) (hinv.outside_registry (by rw [Config.goto_pc]; exact fun h => h.elim))
  rw [Config.goto_goto] at hup
  rw [← Config.goto_idle hidle]
  exact hup

theorem Inv.allocateSmall_outcome (hinv : Inv k bases larges g) (v : Variant) (w : World)
    (hidle : k.pc t = .idle) {size capacity : Nat} (hsize : 0 < size ∧ size ≤ ptrdiffMax)
    (hfor : sizeClassFor size = some (c, capacity)) :
    ∃ s block, allocateSmall v w k.state t size c capacity = some (s, blockPayload block) ∧
      MallocOutcome v w k t size bases larges g s block := by
  have hstart : Inv (k.goto t k.state (.allocateSmall ⟨.malloc, size⟩ c capacity)) bases larges g :=
    hinv.start hidle rfl rfl (fun _ h => h.elim) (fun h => h.elim) (fun _ => rfl) hfor
      fun a h => by simp [Pc.argument] at h
  have hpc := Config.goto_pc (k := k) (t := t) k.state (.allocateSmall ⟨.malloc, size⟩ c capacity)
  cases v with
  | locked =>
      rcases hstart.allocateSmallLocked w hpc with ⟨s, hresult, hnoise, hnil, hcreate⟩ |
        ⟨a, rest, s, hresult, hlist, hquiet, hinv'⟩ |
        ⟨a, s, s₁, base, free, h, g', hresult, hkeeps, hslabs, hnil, hcreate, hqueries, houtcomes, hnew,
          hheader, hclass, hcount, hinv', hforeign⟩
      · exact ⟨_, none, hresult, .slabFailed hsize hfor ⟨hnil, fun h => by simp at h⟩ (.refl _) hcreate
          (hinv.declines (hnoise.setErrno t _))⟩
      · rw [Config.goto_goto] at hinv'
        exact ⟨s, some a, hresult, .reused hsize hfor (Or.inl (by simp [hlist]))
          hquiet.lists.nothingMapped (Inv.delivers hidle hinv' (Foreign.shared _ _ _)
            (hquiet.keepsLive.congr (fun _ h => h) rfl) (List.Subset.refl _)
            fun base _ => congrFun hquiet.slab base)⟩
      · rw [Config.goto_goto] at hinv'
        exact ⟨s, some a, hresult, .created hsize hfor ⟨hnil, fun h => by simp at h⟩ (.refl _) hcreate
          ⟨hqueries, houtcomes⟩ hnew hheader hclass hcount (Inv.delivers hidle hinv' hforeign
            (hkeeps.congr (fun _ h => h) rfl) (List.subset_cons_self _ _) hslabs)⟩
  | cached =>
      obtain ⟨s₀, cache, hacquire, hstorage, hinv₀, houtcome⟩ := hstart.allocateSmallCached w hpc
      simp only [Config.goto_state] at houtcome hstorage
      rw [hpc, Config.goto_goto] at hinv₀
      rw [allocateSmall]
      generalize Hplf.allocateSmallCached w k.state t size c capacity = result at houtcome ⊢
      cases houtcome with
      | @reused a s' g' hfree hquiet hinv' hforeign =>
          rw [Config.goto_goto] at hinv'
          refine ⟨s', some a, rfl, .reused hsize hfor (hfree.symm.imp_right fun h => ⟨rfl, h⟩)
            (hstorage.nothingMapped.trans hquiet.lists.nothingMapped)
            (Inv.delivers hidle hinv' hforeign (hquiet.keepsLive.congr (fun _ h => h) hstorage.memory)
              (List.Subset.refl _) fun base _ => ?_)⟩
          rw [hquiet.slab, Config.goto_state, hstorage.memory]
      | @created a base free s₁ s' h g' hnone hcreate hqueries houtcomes hkeeps hslabs hnew hheader hclass
          hcount hinv' hforeign =>
          rw [Config.goto_goto] at hinv'
          rw [hstorage.pageQueries] at hcount
          exact ⟨s', some a, rfl, .created hsize hfor ⟨hnone.2, fun _ => hnone.1⟩ hstorage.nothingMapped
            hcreate ⟨hqueries, houtcomes⟩ hnew hheader hclass hcount (Inv.delivers hidle hinv' hforeign
              (hkeeps.congr (fun _ h => h) rfl) (List.subset_cons_self _ _) hslabs)⟩
      | @failed s₁ hnone hcreate hnoise =>
          have hdeclines := (Inv.gaveUp hidle hinv₀).declines (s := s₁.setErrno t .ENOMEM)
            (hnoise.setErrno t _)
          exact ⟨_, none, rfl, .slabFailed hsize hfor ⟨hnone.2, fun _ => hnone.1⟩ hstorage.nothingMapped
            hcreate ⟨hdeclines.memory.trans hstorage.memory, hdeclines.inv⟩⟩

/-- **A whole call of `hplf_malloc`.** It returns, with one of the outcomes above. -/
theorem Inv.malloc (hinv : Inv k bases larges g) (v : Variant) (w : World) (hidle : k.pc t = .idle)
    (size : Nat) :
    ∃ s block, malloc v w k.state t size = some (s, blockPayload block) ∧
      MallocOutcome v w k t size bases larges g s block := by
  unfold Hplf.malloc
  split
  · rename_i hzero
    exact ⟨_, none, rfl, .refused (Or.inl hzero) (.refl _) (hinv.declines (OsNoise.refl _))⟩
  split
  · rename_i hhuge
    exact ⟨_, none, rfl, .refused (Or.inr hhuge) ⟨rfl, rfl⟩
      (hinv.declines ((OsNoise.refl _).setErrno t _))⟩
  rename_i hpos hbound
  have hsize : 0 < size ∧ size ≤ ptrdiffMax := ⟨Nat.pos_of_ne_zero hpos, Nat.le_of_not_lt hbound⟩
  split
  · rename_i c capacity hfor
    exact hinv.allocateSmall_outcome v w hidle hsize hfor
  · rename_i hfor
    have hlarge : maxSmallSize < size := by
      rcases sizeClassFor_eq_none_iff.mp hfor with h | h
      · exact absurd h hpos
      · exact h
    have hmine : g (.inflight t) = [] := hinv.carries_at hidle
    rcases hinv.allocateLarge w hmine (r := ⟨.malloc, size⟩) hlarge (by rw [hidle]; rfl)
        (fun a => by rw [hidle]; exact ⟨rfl, by simp [Pc.argument], Iff.rfl⟩) with
      ⟨s, hresult, hnoise⟩ | ⟨s, a, hresult, hkeeps, hslabs, hinv'⟩
    · exact ⟨s, none, congrArg some hresult, .mapFailed hsize hfor hresult (hinv.declines hnoise)⟩
    · exact ⟨s, some a, congrArg some hresult, .mapped hsize hfor hresult
        (Inv.delivers hidle hinv' (Foreign.inflight _) hkeeps (List.Subset.refl _) hslabs)⟩

theorem MallocOutcome.declines {size : Nat} {s : State Tid}
    (houtcome : MallocOutcome v w k t size bases larges g s none) : Declines k bases larges g s := by
  cases houtcome with
  | refused _ _ hdeclines => exact hdeclines
  | slabFailed _ _ _ _ _ hdeclines => exact hdeclines
  | mapFailed _ _ _ hdeclines => exact hdeclines

theorem MallocOutcome.delivers {size a : Nat} {s : State Tid}
    (houtcome : MallocOutcome v w k t size bases larges g s (some a)) :
    0 < size ∧ ∃ bases' larges', Delivers k t size bases g s a bases' larges' := by
  cases houtcome with
  | reused hsize _ _ _ hdelivers => exact ⟨hsize.1, _, _, hdelivers⟩
  | created hsize _ _ _ _ _ _ _ _ _ hdelivers => exact ⟨hsize.1, _, _, hdelivers⟩
  | mapped hsize _ _ hdelivers => exact ⟨hsize.1, _, _, hdelivers⟩

/-! ### Eviction and flush -/

/-- The number of blocks in the cache of a thread. -/
def cachedTotal (g : Place Tid → List Nat) (t : Tid) : Nat := ∑ c, (g (.cache t c)).length

theorem cachedTotal_shared (xs : List Nat) (e : ClassIndex) :
    cachedTotal (replace₂ g (.shared e) (.inflight t) xs []) t = cachedTotal g t := by
  unfold cachedTotal
  apply Finset.sum_congr rfl
  intro c _
  rw [replace₂_of_ne (by simp) (by simp)]

theorem cachedTotal_evict {e : ClassIndex} {n : Nat} (hne : (g (.cache t e)).take n ≠ [])
    (zs : List Nat) :
    cachedTotal (replace₂ g (.cache t e) (.inflight t) ((g (.cache t e)).drop n) zs) t
      < cachedTotal g t := by
  unfold cachedTotal
  apply Finset.sum_lt_sum
  · intro c _
    by_cases hc : c = e
    · subst hc
      rw [replace₂_left (by simp), List.length_drop]
      exact Nat.sub_le _ _
    · rw [replace₂_of_ne (by simp [hc]) (by simp)]
  · refine ⟨e, Finset.mem_univ e, ?_⟩
    have htake := List.length_pos_iff.mpr hne
    rw [List.length_take] at htake
    rw [replace₂_left (by simp), List.length_drop]
    omega

omit [DecidableEq Tid] in
/-- A cache never holds as many blocks as there are addresses. -/
theorem Inv.cachedTotal_lt (hinv : Inv k bases larges g) {d : Nat} (hd : k.cacheOf t = some d) :
    cachedTotal g t < addressSpace := by
  obtain ⟨descriptor, hown⟩ := hinv.ownCache hd
  have hsound := hown.ok.sound
  calc cachedTotal g t = ∑ c, descriptor.cache.counts c :=
        Finset.sum_congr rfl fun c _ => (hown.count c).symm
    _ ≤ ∑ c, descriptor.cache.counts c * sizeClassCapacities c :=
        Finset.sum_le_sum fun c _ => Nat.le_mul_of_pos_right _ (sizeClassCapacities_pos c)
    _ = descriptor.cache.totalSlotBytes := hsound.balanced.symm
    _ < addressSpace := hsound.bounded

/-- **The eviction loop.** It ends, after at most as many rounds as the cache holds blocks. -/
theorem Inv.evictLoop {d : Nat} {e : Errno} (fuel : Nat) : ∀ {k : Config Tid} {g : Place Tid → List Nat},
    Inv k bases larges g → k.pc t = .evict c d e → cachedTotal g t < fuel →
    ∃ s g', evictLoop d c fuel k.state = some s ∧ Quiet k s ∧
      Inv (k.goto t s .idle) bases larges g' ∧ Foreign t g g' := by
  induction fuel with
  | zero => exact fun _ _ hlt => absurd hlt (Nat.not_lt_zero _)
  | succ fuel ih =>
      intro k g hinv hpc hlt
      rw [Hplf.evictLoop]
      rcases hinv.evict hpc with ⟨hdone, hinv'⟩ | ⟨s₁, f, n, list, hevict, hquiet₁, hne, -, hinv₁⟩
      · refine ⟨k.state, g, ?_, Quiet.refl, hinv', Foreign.refl _ _⟩
        simp only [hdone, Option.bind_eq_bind, Option.bind_some]
      · -- What was taken out of the cache is published before the next round.
        have hpc₁ := Config.goto_pc (k := k) (t := t) s₁ (.publishEviction c d f list e)
        have hmine := hinv₁.carries_at hpc₁
        have hfits := hinv₁.fits_at hpc₁
        obtain ⟨s₂, hpublish, hquiet₂, hinv₂⟩ := hinv₁.publishAllHeld (.evict c d e) hmine
          (by rw [hpc₁]; rfl) (by rw [hpc₁]; exact ⟨rfl, by simp [Pc.argument], Iff.rfl⟩)
          (by rw [hpc₁]; rfl) (fun _ h => h.elim) hfits fun _ => rfl
        rw [Config.goto_goto] at hinv₂
        rw [Config.goto_state] at hpublish
        obtain ⟨s, g', hloop, hquiet₃, hinv', hforeign⟩ := ih hinv₂ (Config.goto_pc _ _) (by
          have hless := cachedTotal_evict hne ((g (.cache t f)).take n)
          rw [cachedTotal_shared]
          omega)
        rw [Config.goto_state] at hloop
        rw [Config.goto_goto] at hinv'
        refine ⟨s, g', ?_, ?_, hinv', ?_⟩
        · simp only [hevict, hpublish, hloop, Option.bind_eq_bind, Option.bind_some]
        · exact (hquiet₁.trans (j := k.goto t s₁ _) rfl hquiet₂).trans (j := k.goto t s₂ _) rfl hquiet₃
        · exact ((Foreign.cache _ _ _).trans (Foreign.shared _ _ _)).trans hforeign

/-- **The flush loop.** -/
theorem Inv.flushClasses {d : Nat} (rest : List ClassIndex) :
    ∀ {k : Config Tid} {g : Place Tid → List Nat} (published : Nat), Inv k bases larges g →
    k.pc t = .flush d rest false →
    ∃ s n g', flushClasses d rest k.state published = some (s, n) ∧ Quiet k s ∧
      Inv (k.goto t s .idle) bases larges g' ∧ Foreign t g g' := by
  induction rest with
  | nil =>
      intro k g published hinv hpc
      have hmine : g (.inflight t) = [] := hinv.carries_at hpc
      exact ⟨k.state, published, g, rfl, Quiet.refl, hinv.giveUp k.registryOwner hmine (by rw [hpc]; rfl)
        (by rw [hpc]; rfl) (hinv.outside_registry (by rw [hpc]; exact fun h => h.elim)),
        Foreign.refl _ _⟩
  | cons c rest ih =>
      intro k g published hinv hpc
      rw [Hplf.flushClasses]
      rcases hinv.flushExtract hpc with ⟨hempty, hinv₁⟩ | ⟨s₁, list, hextract, hquiet₁, -, hinv₁⟩
      · obtain ⟨s, n, g', hflush, hquiet, hinv', hforeign⟩ := ih published hinv₁ (Config.goto_pc _ _)
        rw [Config.goto_state] at hflush
        rw [Config.goto_goto] at hinv'
        refine ⟨s, n, g', ?_, Quiet.trans (j := k.goto t k.state _) Quiet.refl rfl hquiet, hinv', hforeign⟩
        simp only [hempty, hflush, Option.bind_eq_bind, Option.bind_some]
      · obtain ⟨s₂, hpublish, hquiet₂, hinv₂⟩ := hinv₁.publishFlush (Config.goto_pc _ _)
        rw [Config.goto_state] at hpublish
        rw [Config.goto_goto] at hinv₂
        obtain ⟨s, n, g', hflush, hquiet₃, hinv', hforeign⟩ :=
          ih (published + list.count) hinv₂ (Config.goto_pc _ _)
        rw [Config.goto_state] at hflush
        rw [Config.goto_goto] at hinv'
        refine ⟨s, n, g', ?_, ?_, hinv', ?_⟩
        · simp only [hextract, hpublish, hflush, Option.bind_eq_bind, Option.bind_some]
        · exact (hquiet₁.trans (j := k.goto t s₁ _) rfl hquiet₂).trans (j := k.goto t s₂ _) rfl hquiet₃
        · exact ((Foreign.cache _ _ _).trans (Foreign.shared _ _ _)).trans hforeign

/-- **A whole call of `hplf_thread_flush`.** -/
theorem Inv.threadFlush (hinv : Inv k bases larges g) (v : Variant) (hidle : k.pc t = .idle) :
    ∃ s g', threadFlush v k.state t = some s ∧ Quiet k s ∧
      Inv (k.after s k.live k.leaked) bases larges g' ∧ Foreign t g g' := by
  have hself : Inv (k.after k.state k.live k.leaked) bases larges g := hinv
  cases v with
  | locked => exact ⟨k.state, g, rfl, Quiet.refl, hself, Foreign.refl _ _⟩
  | cached =>
      unfold Hplf.threadFlush cacheFlushCurrent
      dsimp only
      split
      · rename_i hactive
        have hlifecycle := (hinv.thread t).lifecycle
        rw [LifecycleOk, hactive] at hlifecycle
        obtain ⟨d, hd, -⟩ := hlifecycle
        have hcurrent : cacheCurrent k.state t = some d := by rw [cacheCurrent, if_pos hactive, hd]
        have hstart : Inv (k.goto t k.state (.flush d classIndices false)) bases larges g :=
          hinv.start hidle rfl rfl (fun e h => h (mem_classIndices e)) (fun h => h.elim) (fun _ => rfl)
            hcurrent fun a h => by simp [Pc.argument] at h
        obtain ⟨s, n, g', hflush, hquiet, hinv', hforeign⟩ :=
          Inv.flushClasses classIndices 0 hstart (Config.goto_pc _ _)
        rw [Config.goto_state] at hflush
        rw [Config.goto_goto] at hinv'
        refine ⟨s, g', ?_, Quiet.trans (j := k.goto t k.state _) Quiet.refl rfl hquiet, ?_, hforeign⟩
        · simp only [hd, flushDescriptor, hflush, Option.bind_eq_bind, Option.bind_some]
        · rw [← Config.goto_idle hidle]
          exact hinv'
      · exact ⟨k.state, g, rfl, Quiet.refl, hself, Foreign.refl _ _⟩

/-! ### Release -/

/-- The block at `a` is no longer the client's, and nothing else the client has was touched. -/
structure Releases (k : Config Tid) (t : Tid) (a : Nat) (bases : List Nat) (g : Place Tid → List Nat)
    (s : State Tid) : Prop where
  keeps : KeepsLive { k with live := k.live.erase a } s.memory
  slabs : ∀ base ∈ bases, s.memory.slab base = k.state.memory.slab base
  same : NothingMapped k.state s
  inv : ∃ leaked larges' g', Inv (k.after s (k.live.erase a) leaked) bases larges' g' ∧ Foreign t g g'

omit [DecidableEq Tid] in
theorem Releases.of_quiet {a : Nat} {s : State Tid} (hquiet : Quiet { k with live := k.live.erase a } s)
    (hinv : ∃ leaked larges' g', Inv (k.after s (k.live.erase a) leaked) bases larges' g' ∧
      Foreign t g g') : Releases k t a bases g s :=
  ⟨hquiet.keepsLive, fun base _ => congrFun hquiet.slab base, hquiet.lists.nothingMapped, hinv⟩

theorem Releases.setErrno {a : Nat} {s : State Tid} (hreleases : Releases k t a bases g s) (e : Errno) :
    Releases k t a bases g (s.setErrno t e) := by
  obtain ⟨leaked, larges', g', hinv, hforeign⟩ := hreleases.inv
  refine ⟨hreleases.keeps, hreleases.slabs, ⟨hreleases.same.queries, hreleases.same.outcomes⟩, leaked,
    larges', g', hinv.congr ?_, hforeign⟩
  exact ⟨rfl, rfl, rfl, rfl, rfl, rfl, rfl, rfl, rfl, rfl, rfl, rfl, rfl⟩

theorem osUnmap_nothingMapped (w : World) (s : State Tid) (t : Tid) (r : Mapping) :
    NothingMapped s (osUnmap w s t r).1 := by
  unfold osUnmap
  split
  · exact ⟨rfl, rfl⟩
  dsimp only
  split
  · exact ⟨rfl, rfl⟩
  · exact ⟨rfl, rfl⟩

/-- The cached path of `hplf_free`, from the lookup of the cache on. -/
theorem Inv.freeSmallCached (hinv : Inv k bases larges g) (w : World) {a : Nat} (hidle : k.pc t = .idle)
    (hstart : Inv (k.goto t k.state (.release a)) bases larges g)
    (hclass : InClass k.state.memory bases c a) :
    ∃ s, freeSmallCached w k.state t a c (sizeClassCapacities c) = some s ∧
      Releases k t a bases g s := by
  have hnodup := hinv.live_nodup
  obtain ⟨s₁, cache, hacquire, rfl, hstorage, hinv₁⟩ := hstart.acquire w (by rw [Config.goto_pc]; rfl)
    (by rw [Config.goto_pc]; rfl) (by rw [Config.goto_pc]; exact fun _ h => h.elim)
    (by rw [Config.goto_pc]; exact fun _ => trivial)
  rw [Config.goto_state] at hacquire
  rw [Config.goto_pc, Config.goto_goto] at hinv₁
  have hmemory : s₁.memory = k.state.memory := hstorage.memory
  have hclass₁ : InClass (k.goto t s₁ (.release a)).state.memory bases c a := by
    rw [Config.goto_state, hmemory]
    exact hclass
  -- Whatever follows works on the freed block and on the lists.
  have hfinish : ∀ {s s' : State Tid} {pc : Pc} {g' : Place Tid → List Nat},
      ListsOnly s₁ s → Framed [a] s₁.memory s.memory →
      Quiet { k.goto t s pc with live := k.live.erase a } s' →
      Inv { k.goto t s' .idle with live := k.live.erase a } bases larges g' → Foreign t g g' →
      Releases k t a bases g s' := by
    intro s s' pc g' hlists hframe hquiet hinv' hforeign
    have hblock : ∀ x ∈ k.live.erase a, s'.memory.block x = k.state.memory.block x := by
      intro x hx
      rw [hquiet.live x hx, ← hmemory]
      apply hframe.block x
      intro hmem
      rw [List.mem_singleton.mp hmem] at hx
      exact (List.Nodup.not_mem_erase hnodup) hx
    have hbyte : s'.memory.byte = k.state.memory.byte := by
      rw [hquiet.byte, ← hmemory]
      exact hframe.byte
    have hslab : s'.memory.slab = k.state.memory.slab := by
      rw [hquiet.slab, ← hmemory]
      exact hframe.slab
    refine ⟨⟨hblock, fun x _ b _ i _ => ?_⟩, fun base _ => congrFun hslab base, ?_, k.leaked, larges, g',
      ?_, hforeign⟩
    · rw [hbyte]
    · have hbefore : NothingMapped k.state s₁ := hstorage.nothingMapped
      exact (hbefore.trans hlists.nothingMapped).trans hquiet.lists.nothingMapped
    · rw [← Config.goto_idle hidle]
      exact hinv'
  unfold Hplf.freeSmallCached
  rcases hinv₁.storeFreed (by rw [Config.goto_pc]) hclass₁ (k.state.errno t) with
    ⟨s₂, list, hstore, hcurrent, hlists, hframe, hinv₂⟩ |
    ⟨s₂, d, hstore, hcurrent, hlists, hframe, g₂, hinv₂, hforeign₂⟩
  · rw [Config.goto_state] at hstore hcurrent
    rw [Config.goto_goto] at hinv₂
    have hpc₂ : ({ k.goto t s₂ (.publishFreed c list (k.state.errno t)) with
        live := k.live.erase a } : Config Tid).pc t = .publishFreed c list (k.state.errno t) :=
      Config.goto_pc s₂ _
    have hmine := hinv₂.carries_at hpc₂
    obtain ⟨s₃, hpublish, hquiet, hinv₃⟩ := hinv₂.publishAllHeld .idle hmine (by rw [hpc₂]; rfl)
      (by rw [hpc₂]; exact ⟨rfl, by simp [Pc.argument], Iff.rfl⟩) (by rw [hpc₂]; rfl)
      (fun _ h => h.elim) trivial fun _ => rfl
    refine ⟨s₃, ?_, hfinish hlists hframe hquiet (hinv₃.congr ?_)
      ((Foreign.live _ _).trans (Foreign.shared _ _ _))⟩
    · simp only [hacquire, hstore, Option.bind_eq_bind, Option.bind_some]
      exact hpublish
    · refine ⟨rfl, rfl, rfl, rfl, rfl, rfl, rfl, rfl, rfl, ?_, rfl, rfl, rfl⟩
      simp [Config.goto]
  · rw [Config.goto_state] at hstore hcurrent
    rw [Config.goto_goto] at hinv₂
    have hpc₂ : ({ k.goto t s₂ (.evict c d (k.state.errno t)) with
        live := k.live.erase a } : Config Tid).pc t = .evict c d (k.state.errno t) := Config.goto_pc s₂ _
    have hd := hinv₂.evicts_own hpc₂
    obtain ⟨s₃, g', hloop, hquiet, hinv₃, hforeign⟩ :=
      Inv.evictLoop addressSpace hinv₂ hpc₂ (hinv₂.cachedTotal_lt hd)
    refine ⟨s₃, ?_, hfinish hlists hframe hquiet (hinv₃.congr ?_) (hforeign₂.trans hforeign)⟩
    · rw [hcurrent] at hstore
      simp only [hacquire, hcurrent, hstore, Option.bind_eq_bind, Option.bind_some]
      exact hloop
    · refine ⟨rfl, rfl, rfl, rfl, rfl, rfl, rfl, rfl, rfl, ?_, rfl, rfl, rfl⟩
      simp [Config.goto]

/-- **A whole call of `hplf_free`.** -/
theorem Inv.free (hinv : Inv k bases larges g) (v : Variant) (w : World) (hidle : k.pc t = .idle) {a : Nat}
    (ha : a ∈ k.live) (hunused : k.Unused a) :
    ∃ s, free v w k.state t (blockPayload (some a)) = some s ∧ Releases k t a bases g s := by
  have hstart : Inv (k.goto t k.state (.release a)) bases larges g :=
    hinv.start hidle rfl rfl (fun _ h => h.elim) (fun h => h.elim) (fun _ => rfl) trivial
      fun b hb => by
        obtain rfl := Option.some.inj hb
        exact ⟨ha, hunused⟩
  have hpc := Config.goto_pc (k := k) (t := t) k.state (.release a)
  have hblock : ∃ s, freeBlock v w k.state t a = some s ∧ Releases k t a bases g s := by
    rcases hinv.live_cases ha with
      ⟨c, base, h, b, hbase, hh, hc, hslot, hb, hslotOf, hcapacity, hfor⟩ | ⟨b, hlarge, hb, hat, -, -⟩
    · have hclass : InClass k.state.memory bases c a := ⟨base, hbase, h, hh, hc, hslot⟩
      have howner : b.owner.slab = base := by
        rw [hslotOf.owner]
        rfl
      cases v with
      | locked =>
          obtain ⟨s, hfree, hlists, hframe, g', hinv', hforeign⟩ := hstart.freeLocked hpc hclass
          rw [Config.goto_state] at hfree hlists hframe
          rw [Config.goto_goto] at hinv'
          refine ⟨s, ?_, Releases.of_quiet ?_ ⟨k.leaked, larges, g', ?_, hforeign⟩⟩
          · simp only [freeBlock, hb, hslotOf.kind, howner, hh, hc, hfree, Option.bind_eq_bind,
              Option.bind_some]
          · refine Quiet.of_framed hlists hframe fun x hx => ?_
            rw [List.mem_singleton.mp hx]
            exact List.Nodup.not_mem_erase hinv.live_nodup
          · rw [← Config.goto_idle hidle]
            exact hinv'
      | cached =>
          obtain ⟨s, hfree, hreleases⟩ := hinv.freeSmallCached w hidle hstart hclass
          refine ⟨s, ?_, hreleases⟩
          simp only [freeBlock, hb, hslotOf.kind, howner, hh, hc, hcapacity, hfree, Option.bind_eq_bind,
            Option.bind_some]
    · obtain ⟨s, result, leaked, hunmap, -, hkeeps, hslabs, hinv'⟩ :=
        hstart.freeLarge w hpc hlarge hb (k.state.errno t)
      rw [Config.goto_state] at hunmap hslabs
      rw [Config.goto_goto] at hinv'
      refine ⟨s, ?_, hkeeps.congr (fun _ h => h) rfl, hslabs, ?_, leaked, larges.erase a, _, ?_,
        Foreign.update (p := .live) (by simp [Place.owner]) (k.live.erase a)⟩
      · simp only [freeBlock, hb, hat.kind, Option.bind_eq_bind, Option.bind_some]
        rw [show (⟨b.owner.mapping.1, b.owner.mapping.2⟩ : Mapping) = b.mapping from rfl, hunmap]
      · have hsame := osUnmap_nothingMapped w k.state t b.mapping
        rwa [hunmap] at hsame
      · rw [Config.goto_idle hidle] at hinv'
        exact hinv'.congr ⟨rfl, rfl, rfl, rfl, rfl, rfl, rfl, rfl, rfl, rfl, rfl, rfl, rfl⟩
  obtain ⟨s, hfree, hreleases⟩ := hblock
  refine ⟨s.setErrno t (k.state.errno t), ?_, hreleases.setErrno _⟩
  rw [Hplf.free, blockFromPayload_blockPayload]
  simp only [hfree, Option.bind_eq_bind, Option.bind_some]

/-! ### Payloads -/

omit [DecidableEq Tid] in
/-- **Writing into a live block.** Headers stay, and so do the bytes of the other live blocks. -/
theorem Inv.overwrite (hinv : Inv k bases larges g) {a : Nat} (ha : a ∈ k.live) {b : Block}
    (hb : k.state.memory.block a = some b) (lo length : Nat) (value : Nat → Option UInt8)
    (hlo : a + sizeofBlock ≤ lo) (hhi : lo + length ≤ a + (sizeofBlock + b.capacity)) :
    Inv (k.after { k.state with memory := k.state.memory.writeBytes lo length value } k.live k.leaked)
        bases larges g ∧
      SameHeaders bases larges k.state.memory (k.state.memory.writeBytes lo length value) ∧
      KeepsLive { k with live := k.live.erase a } (k.state.memory.writeBytes lo length value) := by
  have hpop := hinv.live_populated ha
  have hheaders := hinv.storage.sameHeaders_of_payload hpop hb
    (SameOutside.writeBytes k.state.memory lo length value) hlo hhi
  refine ⟨hinv.writePayload hpop hb value hlo hhi, hheaders, ?_⟩
  constructor
  · intro x hx
    exact hheaders.block x (hinv.live_populated (List.mem_of_mem_erase hx))
  · intro x hx b' hb' i hi
    have hne : x ≠ a := fun heq => List.Nodup.not_mem_erase hinv.live_nodup (heq ▸ hx)
    have hlive := List.mem_of_mem_erase hx
    have hle := (hinv.live_size_le hlive hb').2
    have hapart := hinv.storage.blocks_apart (hinv.live_populated hlive) hpop hne hb' hb
    apply if_neg
    intro hmem
    omega

/-- The state after `n` bytes of a new block have been stored. -/
def State.filled (s : State Tid) (a n : Nat) (value : Nat → Option UInt8) : State Tid :=
  { s with memory := s.memory.writeBytes (a + sizeofBlock) n value }

omit [DecidableEq Tid] in
/-- The new block is filled from its start; it stays the client's. -/
theorem Delivers.fill {size a n : Nat} {s : State Tid} {bases' larges' : List Nat}
    (hdelivers : Delivers k t size bases g s a bases' larges') (hn : n ≤ size)
    (value : Nat → Option UInt8) :
    Delivers k t size bases g (s.filled a n value) a bases' larges' := by
  obtain ⟨g', hinv, hforeign⟩ := hdelivers.inv
  have hlive : a ∈ (k.after s (a :: k.live) k.leaked).live := List.mem_cons_self
  obtain ⟨b, hb⟩ := hinv.exists_block (p := .live) (hinv.live_eq ▸ hlive)
  have hsize : b.requestedSize = size := by
    have hsized := hdelivers.sized.1
    rw [size_eq_some (show s.memory.block a = some b from hb)] at hsized
    exact Option.some.inj hsized
  have hle := (hinv.live_size_le hlive hb).2
  obtain ⟨hinv', hheaders, hkeeps⟩ := hinv.overwrite hlive hb (a + sizeofBlock) n value
    (Nat.le_refl _) (by omega)
  have hpersists := hheaders.persists (hinv.live_populated hlive)
  refine ⟨hpersists.sized hdelivers.sized, hdelivers.fresh, ?_, hdelivers.registered, ?_, g', hinv',
    hforeign⟩
  · refine hdelivers.keeps.trans (j := k.after s k.live k.leaked) rfl (hkeeps.congr (fun x hx => ?_) rfl)
    have hne : x ≠ a := fun heq => hdelivers.fresh (heq ▸ hx)
    exact (List.mem_erase_of_ne hne).mpr (List.mem_cons_of_mem a hx)
  · intro base hbase
    exact (hheaders.slab base (hdelivers.registered hbase)).trans (hdelivers.slabs base hbase)

/-! ### `hplf_calloc` and `hplf_realloc` -/

/-- What a whole call of `hplf_calloc` can come to. -/
inductive CallocOutcome (v : Variant) (w : World) (k : Config Tid) (t : Tid) (count size : Nat)
    (bases larges : List Nat) (g : Place Tid → List Nat) : State Tid → Ptr → Prop
  | refused {s : State Tid} (hsize : count = 0 ∨ size = 0 ∨ sizeMultiply count size = none)
      (hsame : NothingMapped k.state s) (hdeclines : Declines k bases larges g s) :
      CallocOutcome v w k t count size bases larges g s none
  | failed {total : Nat} {s : State Tid} (hsize : count ≠ 0 ∧ size ≠ 0)
      (hproduct : sizeMultiply count size = some total)
      (hmalloc : MallocOutcome v w k t total bases larges g s none) :
      CallocOutcome v w k t count size bases larges g s none
  | cleared {total a : Nat} {s : State Tid} (hsize : count ≠ 0 ∧ size ≠ 0)
      (hproduct : sizeMultiply count size = some total)
      (hmalloc : MallocOutcome v w k t total bases larges g s (some a)) :
      CallocOutcome v w k t count size bases larges g (s.filled a total fun _ => some 0) (some a)

/-- **A whole call of `hplf_calloc`.** -/
theorem Inv.calloc (hinv : Inv k bases larges g) (v : Variant) (w : World) (hidle : k.pc t = .idle)
    (count size : Nat) :
    ∃ s block, calloc v w k.state t count size = some (s, blockPayload block) ∧
      CallocOutcome v w k t count size bases larges g s block := by
  unfold Hplf.calloc
  split
  · rename_i hzero
    exact ⟨_, none, rfl, .refused (hzero.imp_right Or.inl) (.refl _) (hinv.declines (OsNoise.refl _))⟩
  rename_i hnonzero
  obtain ⟨hcount, hsize⟩ := not_or.mp hnonzero
  split
  · rename_i hproduct
    exact ⟨_, none, rfl, .refused (Or.inr (Or.inr hproduct)) ⟨rfl, rfl⟩
      (hinv.declines ((OsNoise.refl _).setErrno t _))⟩
  · rename_i total hproduct
    obtain ⟨s, block, hmalloc, houtcome⟩ := hinv.malloc v w hidle total
    cases block with
    | none =>
        refine ⟨s, none, ?_, .failed ⟨hcount, hsize⟩ hproduct houtcome⟩
        simp only [hmalloc, blockPayload_none, Option.bind_eq_bind, Option.bind_some]
    | some a =>
        refine ⟨_, some a, ?_, .cleared ⟨hcount, hsize⟩ hproduct houtcome⟩
        simp only [hmalloc, blockPayload_some, Option.bind_eq_bind, Option.bind_some]
        rfl

/-- What a whole call of `hplf_realloc` on the live block at `a` can come to. -/
inductive ReallocOutcome (v : Variant) (w : World) (k : Config Tid) (t : Tid) (a size : Nat)
    (bases larges : List Nat) (g : Place Tid → List Nat) : State Tid → Ptr → Prop
  | released {s : State Tid} (hsize : size = 0) (hreleases : Releases k t a bases g s) :
      ReallocOutcome v w k t a size bases larges g s none
  | refused {s : State Tid} (hsize : ptrdiffMax < size) (hsame : NothingMapped k.state s)
      (hdeclines : Declines k bases larges g s) : ReallocOutcome v w k t a size bases larges g s none
  | retained {b : Block} {m : Memory} (hsize : 0 < size ∧ size ≤ ptrdiffMax)
      (hb : k.state.memory.block a = some b) (hretain : reallocCanRetain k.state b size = some true)
      (hset : k.state.memory.setRequestedSize a size = some m) (hframe : Framed [a] k.state.memory m)
      (hinv : Inv (k.after { k.state with memory := m } k.live k.leaked) bases larges g) :
      ReallocOutcome v w k t a size bases larges g { k.state with memory := m } (some a)
  | failed {b : Block} {s : State Tid} (hsize : 0 < size ∧ size ≤ ptrdiffMax)
      (hb : k.state.memory.block a = some b) (hretain : reallocCanRetain k.state b size = some false)
      (hmalloc : MallocOutcome v w k t size bases larges g s none) :
      ReallocOutcome v w k t a size bases larges g s none
  | moved {b : Block} {a' : Nat} {s s' : State Tid} {bases' larges' : List Nat}
      {g' : Place Tid → List Nat} (hsize : 0 < size ∧ size ≤ ptrdiffMax)
      (hb : k.state.memory.block a = some b) (hretain : reallocCanRetain k.state b size = some false)
      (hmalloc : MallocOutcome v w k t size bases larges g s (some a'))
      (hdelivers : Delivers k t size bases g
        (s.filled a' (min b.requestedSize size) fun i => s.memory.byte (a + sizeofBlock + i)) a'
        bases' larges')
      (hinv : Inv (k.after
        (s.filled a' (min b.requestedSize size) fun i => s.memory.byte (a + sizeofBlock + i))
        (a' :: k.live) k.leaked) bases' larges' g') (hforeign : Foreign t g g')
      (hreleases : Releases (k.after
        (s.filled a' (min b.requestedSize size) fun i => s.memory.byte (a + sizeofBlock + i))
        (a' :: k.live) k.leaked) t a bases' g' s') :
      ReallocOutcome v w k t a size bases larges g s' (some a')

/-- **A whole call of `hplf_realloc`** on a live block no other call works on. -/
theorem Inv.realloc (hinv : Inv k bases larges g) (v : Variant) (w : World) (hidle : k.pc t = .idle)
    {a : Nat} (ha : a ∈ k.live) (hunused : k.Unused a) (size : Nat) :
    ∃ s block, realloc v w k.state t (blockPayload (some a)) size = some (s, blockPayload block) ∧
      ReallocOutcome v w k t a size bases larges g s block := by
  unfold Hplf.realloc
  simp only [blockFromPayload_blockPayload]
  rw [blockPayload_some]
  dsimp only
  split
  · rename_i hzero
    obtain ⟨s, hfree, hreleases⟩ := hinv.free v w hidle ha hunused
    rw [blockPayload_some] at hfree
    refine ⟨s, none, ?_, .released hzero hreleases⟩
    simp only [hfree, Option.bind_eq_bind, Option.bind_some, blockPayload_none]
  split
  · rename_i hhuge
    exact ⟨_, none, rfl, .refused hhuge ⟨rfl, rfl⟩ (hinv.declines ((OsNoise.refl _).setErrno t _))⟩
  rename_i hpos hbound
  have hsize : 0 < size ∧ size ≤ ptrdiffMax := ⟨Nat.pos_of_ne_zero hpos, Nat.le_of_not_lt hbound⟩
  obtain ⟨b, hb⟩ := hinv.exists_block (p := .live) (hinv.live_eq ▸ ha)
  obtain ⟨retain, hretain, hiff⟩ := hinv.reallocCanRetain ha hb size
  simp only [hb, hretain, Option.bind_eq_bind, Option.bind_some]
  cases retain with
  | true =>
      obtain ⟨m, hset, hframe, -, hinv'⟩ := hinv.retain hidle ha
        (Sized.retained hb hpos (hiff.mp rfl))
      refine ⟨_, some a, ?_, .retained hsize hb hretain hset hframe ?_⟩
      · simp only [if_true, setRequestedSize_eq hset, Option.bind_some, blockPayload_some]
      · rw [← Config.goto_idle hidle]
        exact hinv'
  | false =>
      obtain ⟨s, block, hmalloc, houtcome⟩ := hinv.malloc v w hidle size
      simp only [Bool.false_eq_true, if_false, hmalloc, Option.bind_some]
      cases block with
      | none => exact ⟨s, none, rfl, .failed hsize hb hretain houtcome⟩
      | some a' =>
          obtain ⟨-, bases', larges', hdelivers⟩ := houtcome.delivers
          have hkept : s.memory.block a = some b := (hdelivers.keeps.block a ha).trans hb
          have hfilled := hdelivers.fill (Nat.min_le_right b.requestedSize size)
            fun i => s.memory.byte (a + sizeofBlock + i)
          obtain ⟨g', hinv', hforeign⟩ := hfilled.inv
          obtain ⟨s', hfree, hreleases⟩ := hinv'.free v w (t := t) hidle
            (List.mem_cons_of_mem a' ha) hunused
          refine ⟨s', some a', ?_, .moved hsize hb hretain houtcome hfilled hinv' hforeign
            hreleases⟩
          have hcopy : (if b.requestedSize < size then b.requestedSize else size)
              = min b.requestedSize size := by
            rw [Nat.min_def]
            split <;> split <;> omega
          rw [blockPayload_some] at hfree ⊢
          simp only [hkept, Option.bind_some, hcopy]
          change (Hplf.free v w (s.filled a' (min b.requestedSize size) fun i =>
            s.memory.byte (a + sizeofBlock + i)) t (some (a + 48))).bind _ = _
          rw [show Hplf.free v w (s.filled a' (min b.requestedSize size) fun i =>
            s.memory.byte (a + sizeofBlock + i)) t (some (a + 48)) = some s' from hfree]
          rfl

end Hplf
