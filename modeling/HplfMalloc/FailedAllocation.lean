import HplfMalloc.Proof.LifecycleInv
import HplfMalloc.Proof.SmallCalls
import HplfMalloc.Schedule

/-!
# Failed allocations

A call of `hplf_malloc`, `hplf_calloc` or `hplf_realloc` that returns a null pointer for a nonzero size has
done nothing: slabs, lists, caches, prefixes, live bytes and mappings are as before, and `errno` is
`ENOMEM`. Only the lifecycle of the calling thread may have moved, with an empty descriptor mapped for it.
-/

namespace Hplf

open Lib Memory

variable {Tid : Type}

/-- Nothing but the lifecycle of thread `t` and one empty cache descriptor differs. -/
structure Kept (t : Tid) (s s' : State Tid) : Prop where
  memory : s'.memory = s.memory
  mapped : s'.mapped = s.mapped
  unmapCalls : s'.unmapCalls = s.unmapCalls
  slabs : s'.slabs = s.slabs
  sharedHeads : s'.sharedHeads = s.sharedHeads
  descriptors : (s'.descriptor = s.descriptor ∧ s'.descriptorMapped = s.descriptorMapped) ∨
    ∃ d length, s.descriptor d = none ∧
      s'.descriptor = Function.update s.descriptor d (some ⟨threadCacheInitialize, d, length⟩) ∧
      s'.descriptorMapped = ⟨d, length⟩ :: s.descriptorMapped
  others : ∀ u, u ≠ t → s'.currentState u = s.currentState u ∧
    s'.currentDescriptor u = s.currentDescriptor u ∧ s'.keyValue u = s.keyValue u

/-- What a failed call leaves behind. -/
structure Failed (t : Tid) (s s' : State Tid) : Prop where
  errno : s'.errno t = .ENOMEM
  kept : Kept t s s'

variable {s s₁ s₂ : State Tid} {t : Tid} {w : World}

theorem Kept.refl (t : Tid) (s : State Tid) : Kept t s s :=
  ⟨rfl, rfl, rfl, rfl, rfl, Or.inl ⟨rfl, rfl⟩, fun _ _ => ⟨rfl, rfl, rfl⟩⟩

/-- Answers of the system and error numbers are not among the kept data. -/
theorem Kept.noise (hkept : Kept t s s₁) (hnoise : OsNoise s₁ s₂) : Kept t s s₂ := by
  obtain ⟨_, _, _, rfl⟩ := hnoise
  exact ⟨hkept.memory, hkept.mapped, hkept.unmapCalls, hkept.slabs, hkept.sharedHeads,
    hkept.descriptors, hkept.others⟩

variable [DecidableEq Tid]

theorem Kept.failed (hkept : Kept t s s₁) : Failed t s (s₁.setErrno t .ENOMEM) := by
  refine ⟨Function.update_self _ _ _, hkept.noise ?_⟩
  exact (OsNoise.refl s₁).setErrno t .ENOMEM

variable {k : Config Tid} {bases larges : List Nat} {g : Place Tid → List Nat}

omit [DecidableEq Tid] in
/-- No descriptor is known at the address of a region that was free. -/
theorem Inv.descriptor_of_fresh (hinv : Inv k bases larges g) (hlife : Life k.state) {d length : Nat}
    (hfresh : Mapping.Fresh k.state.mappings ⟨d, length⟩) (hlength : 0 < length) :
    k.state.descriptor d = none := by
  by_contra hne
  obtain ⟨descriptor, hd⟩ := Option.ne_none_iff_exists'.mp hne
  obtain ⟨hbase, hmem⟩ := hlife.region d descriptor hd
  have hmapped : descriptor.region ∈ k.state.mappings := List.mem_append_right _ hmem
  have hapart := hfresh.apart _ hmapped
  have hpos := (hinv.storage.valid _ hmapped).length_pos
  have hstart : descriptor.region.base = d := hbase
  simp only [Mapping.Apart] at hapart
  omega

/-- **First use.** Asking for a cache touches neither storage nor the caches there are. -/
theorem Inv.acquired_kept (hinv : Inv k bases larges g) (hlife : Life k.state) {cache : Ptr}
    (hacquired : Acquired k.state s t cache) : Kept t k.state s := by
  have hsame := hacquired.sameStorage
  have hothers := fun u hu => hacquired.others (u := u) hu
  refine ⟨hsame.memory, hsame.mapped, hsame.unmapCalls, hsame.slabs, hsame.sharedHeads, ?_, hothers⟩
  cases hacquired with
  | declined hnoise =>
      obtain ⟨_, _, _, _, _, _, _, _, rfl⟩ := hnoise
      exact Or.inl ⟨rfl, rfl⟩
  | @released d length _ hfresh hlength hhanded hnoise =>
      have hnone := hinv.descriptor_of_fresh hlife hfresh hlength
      subst hhanded
      rcases hnoise with ⟨_, _, _, _, _, _, _, _, rfl⟩ | ⟨_, _, _, _, _, _, _, _, rfl⟩
      · -- The descriptor is gone again.
        refine Or.inl ⟨?_, List.erase_cons_head _ _⟩
        change Function.update (Function.update k.state.descriptor d _) d none = _
        rw [Function.update_idem, ← hnone, Function.update_eq_self]
      · exact Or.inr ⟨d, length, hnone, rfl, rfl⟩
  | @activated d length hfresh hlength hnoise =>
      have hnone := hinv.descriptor_of_fresh hlife hfresh hlength
      obtain ⟨_, _, _, _, _, _, _, _, rfl⟩ := hnoise
      exact Or.inr ⟨d, length, hnone, rfl, rfl⟩

theorem Inv.acquire_kept (hinv : Inv k bases larges g) (hlife : Life k.state) {cache : Ptr}
    (hacquire : cacheAcquire w k.state t = some (s, cache)) : Kept t k.state s := by
  cases hstate : k.state.currentState t with
  | active | uncached =>
      rw [cacheAcquire, hstate] at hacquire
      obtain ⟨rfl, -⟩ := Prod.mk.inj (Option.some.inj hacquire)
      exact Kept.refl t _
  | uninitialized =>
      obtain ⟨s', cache', hacquire', hacquired⟩ := cacheAcquire_uninitialized w hstate
      obtain ⟨rfl, rfl⟩ := Prod.mk.inj (Option.some.inj (hacquire'.symm.trans hacquire))
      exact hinv.acquired_kept hlife hacquired

/-! ### The calls -/

/-- A small allocation that fails. -/
theorem Inv.allocateSmall_failed (hinv : Inv k bases larges g) (hlife : Life k.state) {v : Variant}
    {r : Request} {c : ClassIndex} {capacity : Nat} (hpc : k.pc t = .allocateSmall r c capacity)
    (hallocate : allocateSmall v w k.state t r.size c capacity = some (s, none)) :
    Failed t k.state s := by
  cases v with
  | locked =>
      rw [Hplf.allocateSmall] at hallocate
      rcases hinv.allocateSmallLocked w hpc with ⟨s₁, hresult, hnoise, -⟩ |
        ⟨a, rest, s₁, hresult, -⟩ | ⟨a, s₁, s₂, base, free, h, g', hresult, -⟩
      · obtain ⟨rfl, -⟩ := Prod.mk.inj (Option.some.inj (hresult.symm.trans hallocate))
        exact ((Kept.refl t _).noise hnoise).failed
      · simp [hresult] at hallocate
      · simp [hresult] at hallocate
  | cached =>
      rw [Hplf.allocateSmall] at hallocate
      obtain ⟨s₀, cache, hacquire, -, -, houtcome⟩ := hinv.allocateSmallCached w hpc
      rw [hallocate] at houtcome
      generalize hresult : some (s, (none : Ptr)) = result at houtcome
      cases houtcome with
      | reused => simp at hresult
      | created => simp at hresult
      | failed _ _ hnoise =>
          obtain ⟨rfl, -⟩ := Prod.mk.inj (Option.some.inj hresult)
          exact ((hinv.acquire_kept hlife hacquire).noise hnoise).failed

/-- Every failing branch of `hplf_allocate_large` sets the error number. -/
theorem allocateLarge_errno {n : Nat} (hallocate : allocateLarge w s t n = (s₁, none)) :
    s₁.errno t = .ENOMEM := by
  unfold allocateLarge at hallocate
  split at hallocate
  · rw [← (Prod.mk.inj hallocate).1]
    exact Function.update_self _ _ _
  split at hallocate
  · rw [← (Prod.mk.inj hallocate).1]
    exact Function.update_self _ _ _
  split at hallocate
  · rw [← (Prod.mk.inj hallocate).1]
    exact Function.update_self _ _ _
  · simp at hallocate

theorem Inv.malloc_failed (hinv : Inv k bases larges g) (hlife : Life k.state) (hidle : k.pc t = .idle)
    {v : Variant} {size : Nat} (hsize : size ≠ 0)
    (hmalloc : Hplf.malloc v w k.state t size = some (s, none)) : Failed t k.state s := by
  have hstart := hinv.enterMalloc (r := ⟨.malloc, size⟩) hidle fun old h => by simp at h
  unfold Hplf.enterMalloc at hstart
  unfold Hplf.malloc at hmalloc
  rw [if_neg hsize] at hmalloc hstart
  split at hmalloc
  · obtain ⟨rfl, -⟩ := Prod.mk.inj (Option.some.inj hmalloc)
    exact (Kept.refl t _).failed
  rename_i hbound
  rw [if_neg hbound] at hstart
  dsimp only at hstart
  cases hfor : sizeClassFor size with
  | some entry =>
      obtain ⟨c, capacity⟩ := entry
      simp only [hfor] at hmalloc hstart
      exact hstart.allocateSmall_failed hlife (Config.goto_pc _ _) hmalloc
  | none =>
      simp only [hfor] at hmalloc hstart
      have hmine : g (.inflight t) = [] := hinv.carries_at hidle
      have hfits := (hstart.thread t).fits
      rw [Config.goto_pc] at hfits
      have hlarge := Option.some.inj hmalloc
      rcases hstart.allocateLarge w hmine (r := ⟨.malloc, size⟩) hfits.1 (by rw [Config.goto_pc]; rfl)
          (fun a => by rw [Config.goto_pc]; exact .of_request rfl rfl Iff.rfl) with
        ⟨s₁, hresult, hnoise⟩ | ⟨s₁, a, hresult, -⟩
      · obtain ⟨rfl, -⟩ := Prod.mk.inj (hresult.symm.trans hlarge)
        exact ⟨allocateLarge_errno hlarge, (Kept.refl t _).noise hnoise⟩
      · have hpair := hresult.symm.trans hlarge
        simp at hpair

theorem Inv.calloc_failed (hinv : Inv k bases larges g) (hlife : Life k.state) (hidle : k.pc t = .idle)
    {v : Variant} {count size : Nat} (hcount : count ≠ 0) (hsize : size ≠ 0)
    (hcalloc : Hplf.calloc v w k.state t count size = some (s, none)) : Failed t k.state s := by
  unfold Hplf.calloc at hcalloc
  rw [if_neg (not_or.mpr ⟨hcount, hsize⟩)] at hcalloc
  cases hproduct : sizeMultiply count size with
  | none =>
      simp only [hproduct] at hcalloc
      obtain ⟨rfl, -⟩ := Prod.mk.inj (Option.some.inj hcalloc)
      exact (Kept.refl t _).failed
  | some totalSize =>
      simp only [hproduct] at hcalloc
      have htotal : totalSize ≠ 0 := by
        rw [(sizeMultiply_eq_some hproduct).1]
        exact Nat.mul_ne_zero hcount hsize
      obtain ⟨⟨s₁, pointer⟩, hmalloc, h⟩ := Option.bind_eq_some_iff.mp hcalloc
      cases pointer with
      | none =>
          obtain ⟨rfl, -⟩ := Prod.mk.inj (Option.some.inj h)
          exact hinv.malloc_failed hlife hidle htotal hmalloc
      | some p => simp at h

theorem Inv.realloc_failed (hinv : Inv k bases larges g) (hlife : Life k.state) (hidle : k.pc t = .idle)
    {v : Variant} {pointer : Ptr} {size : Nat} (hsize : size ≠ 0)
    (hrealloc : Hplf.realloc v w k.state t pointer size = some (s, none)) : Failed t k.state s := by
  unfold Hplf.realloc at hrealloc
  split at hrealloc
  · rw [if_neg hsize] at hrealloc
    split at hrealloc
    · obtain ⟨rfl, -⟩ := Prod.mk.inj (Option.some.inj hrealloc)
      exact (Kept.refl t _).failed
    obtain ⟨header, -, h⟩ := Option.bind_eq_some_iff.mp hrealloc
    obtain ⟨retain, -, h⟩ := Option.bind_eq_some_iff.mp h
    split at h
    · -- A block that is retained is returned.
      obtain ⟨s₁, -, h⟩ := Option.bind_eq_some_iff.mp h
      simp at h
    · obtain ⟨⟨s₁, replacement⟩, hmalloc, h⟩ := Option.bind_eq_some_iff.mp h
      cases replacement with
      | none =>
          obtain ⟨rfl, -⟩ := Prod.mk.inj (Option.some.inj h)
          exact hinv.malloc_failed hlife hidle hsize hmalloc
      | some q =>
          obtain ⟨header', -, h⟩ := Option.bind_eq_some_iff.mp h
          obtain ⟨s₂, -, h⟩ := Option.bind_eq_some_iff.mp h
          simp at h
  · exact hinv.malloc_failed hlife hidle hsize hrealloc

/-- **Failed allocations are atomic.** In either build and every reachable configuration, a call by a thread
between calls that returns a null pointer for nonzero operands sets `errno` to `ENOMEM` and leaves the
slabs, the lists, the caches, the prefixes, the bytes and the mappings exactly as they were. -/
theorem failed_allocation (v : Variant) (w : World) (k : Config Tid)
    (hreach : (machine Tid v w).Reachable k) (t : Tid) (hidle : k.pc t = .idle) (s : State Tid) :
    (∀ size, size ≠ 0 → malloc v w k.state t size = some (s, none) → Failed t k.state s) ∧
    (∀ count size, count ≠ 0 → size ≠ 0 → calloc v w k.state t count size = some (s, none) →
      Failed t k.state s) ∧
    ∀ pointer size, size ≠ 0 → realloc v w k.state t pointer size = some (s, none) →
      Failed t k.state s := by
  obtain ⟨bases, larges, g, hinv⟩ := safe_of_reachable hreach
  have hlife := life_of_reachable hreach
  exact ⟨fun size => hinv.malloc_failed hlife hidle, fun count size => hinv.calloc_failed hlife hidle,
    fun pointer size => hinv.realloc_failed hlife hidle⟩

/-- The bytes in the cache of a thread. -/
def cachedBytes (s : State Tid) (t : Tid) : Option Nat := do
  let d ← s.currentDescriptor t
  let descriptor ← s.descriptor d
  some descriptor.cache.totalSlotBytes

/-- Two blocks are live, one cache holds more of their slabs, and none of the calls gets a block. -/
def showsExhaustion (k : Config (Fin 2)) : Bool :=
  decide (∀ t, k.pc t = .idle) && k.live.length == 2 && (cachedBytes k.state 0).any (fun bytes => bytes > 0) &&
    (malloc .cached (scarceWorld 2) k.state 1 2048).any (fun result => result.2 == none) &&
    (calloc .cached (scarceWorld 2) k.state 0 3 512).any (fun result => result.2 == none) &&
    (realloc .cached (scarceWorld 2) k.state 0 (some 66320) 100000).any fun result => result.2 == none

/-- Two slabs use up the memory there is. An allocation that sets up its thread's cache, a cleared one and the
resize of a live block to a large one fail. -/
theorem failed_allocation_exhausted : ∃ k : Config (Fin 2), (machine (Fin 2) .cached (scarceWorld 2)).Reachable k ∧
    k.live.length = 2 ∧ (cachedBytes k.state 0).any (fun bytes => bytes > 0) = true ∧
      (∃ s, malloc .cached (scarceWorld 2) k.state 1 2048 = some (s, none) ∧ Failed 1 k.state s) ∧
      (∃ s, calloc .cached (scarceWorld 2) k.state 0 3 512 = some (s, none) ∧ Failed 0 k.state s) ∧
      ∃ s, realloc .cached (scarceWorld 2) k.state 0 (some 66320) 100000 = some (s, none) ∧ Failed 0 k.state s := by
  obtain ⟨k, hreach, hcheck⟩ := exists_makeMoves .cached (scarceWorld 2)
    (callMoves 0 (.malloc 4096) 9 ++ callMoves 0 (.malloc 3072) 9) showsExhaustion (by decide +kernel)
  simp only [showsExhaustion, Bool.and_eq_true, decide_eq_true_eq, beq_iff_eq] at hcheck
  obtain ⟨⟨⟨⟨⟨hidle, hlive⟩, hcached⟩, hmalloc⟩, hcalloc⟩, hrealloc⟩ := hcheck
  have hnull : ∀ {result : Option (State (Fin 2) × Ptr)}, result.any (fun r => r.2 == none) = true →
      ∃ s, result = some (s, none) := by
    intro result hresult
    obtain ⟨⟨s, pointer⟩, rfl, hpointer⟩ := (Option.any_eq_true _ _).mp hresult
    obtain rfl : pointer = none := beq_iff_eq.mp hpointer
    exact ⟨s, rfl⟩
  obtain ⟨s₁, hmalloc⟩ := hnull hmalloc
  obtain ⟨s₂, hcalloc⟩ := hnull hcalloc
  obtain ⟨s₃, hrealloc⟩ := hnull hrealloc
  refine ⟨k, hreach, hlive, hcached, ⟨s₁, hmalloc, ?_⟩, ⟨s₂, hcalloc, ?_⟩, s₃, hrealloc, ?_⟩
  · exact (failed_allocation _ _ k hreach 1 (hidle 1) s₁).1 2048 (by decide) hmalloc
  · exact (failed_allocation _ _ k hreach 0 (hidle 0) s₂).2.1 3 512 (by decide) (by decide) hcalloc
  · exact (failed_allocation _ _ k hreach 0 (hidle 0) s₃).2.2 (some 66320) 100000 (by decide) hrealloc

end Hplf
