import HplfMalloc.Proof.LifecycleInv

/-!
# What the functions of the allocator do to `errno`

A thread changes no error number but its own, and its own only where a query, a mapping or an unmapping
fails. The operations on lists, caches and blocks change none at all.
-/

namespace Hplf

variable {Tid : Type} {s s' s₁ : State Tid} {c : ClassIndex} {capacity n a d : Nat}
variable {cache block : Ptr} {list : TransferList} {w : World} {v : Variant}

/-! ### Lists, caches and blocks -/

theorem setRequestedSize_errno (h : setRequestedSize s a n = some s') : s'.errno = s.errno := by
  obtain ⟨m, -, heq⟩ := Option.bind_eq_some_iff.mp h
  rw [← Option.some.inj heq]

theorem transferMutexPublish_errno (h : transferMutexPublish s c list = some s') : s'.errno = s.errno := by
  unfold transferMutexPublish at h
  split at h
  · rw [Option.some.inj h]
  · obtain ⟨last, -, h⟩ := Option.bind_eq_some_iff.mp h
    obtain ⟨m, -, h⟩ := Option.bind_eq_some_iff.mp h
    rw [← Option.some.inj h]

theorem transferMutexDetach_errno (h : transferMutexDetach s c = some (s', list)) : s'.errno = s.errno := by
  obtain ⟨list', -, h⟩ := Option.bind_eq_some_iff.mp h
  obtain ⟨rfl, -⟩ := Prod.mk.inj (Option.some.inj h)
  rfl

theorem withCache_errno {α : Type} {result : α}
    {operation : Memory → ThreadCache → Option (Memory × ThreadCache × α)}
    (h : withCache s d operation = some (s', result)) : s'.errno = s.errno := by
  obtain ⟨descriptor, -, h⟩ := Option.bind_eq_some_iff.mp h
  obtain ⟨⟨m, cache, result'⟩, -, h⟩ := Option.bind_eq_some_iff.mp h
  obtain ⟨rfl, -⟩ := Prod.mk.inj (Option.some.inj h)
  rfl

theorem takeLocal_errno (h : takeLocal s cache c capacity = some (s', block)) : s'.errno = s.errno := by
  cases cache with
  | none =>
      obtain ⟨rfl, -⟩ := Prod.mk.inj (Option.some.inj h)
      rfl
  | some d =>
      rw [takeLocal] at h
      exact withCache_errno h

/-- The block for the client comes off the list if the cache gave none. -/
theorem takeDirect_errno (block : Ptr) {available list' : TransferList}
    (h : (match block with
      | some a => some (s, available, some a)
      | none => do
          let (m, available, direct) ← transferListTakePrefix s.memory available 1
          some ({ s with memory := m }, available, direct.first)) = some (s', list', cache)) :
    s'.errno = s.errno := by
  cases block with
  | none =>
      obtain ⟨⟨m, available', direct⟩, -, h⟩ := Option.bind_eq_some_iff.mp h
      obtain ⟨rfl, -⟩ := Prod.mk.inj (Option.some.inj h)
      rfl
  | some a =>
      obtain ⟨rfl, -⟩ := Prod.mk.inj (Option.some.inj h)
      rfl

theorem refillAndTake_errno {available list' : TransferList}
    (h : refillAndTake s cache c capacity available = some (s', list', block)) : s'.errno = s.errno := by
  unfold refillAndTake at h
  cases cache with
  | none => exact takeDirect_errno none h
  | some d =>
      obtain ⟨⟨s₁, available₁⟩, hrefill, h⟩ := Option.bind_eq_some_iff.mp h
      obtain ⟨⟨s₂, block₂⟩, htake, h⟩ := Option.bind_eq_some_iff.mp h
      calc s'.errno = s₂.errno := takeDirect_errno block₂ h
        _ = s₁.errno := takeLocal_errno htake
        _ = s.errno := withCache_errno hrefill

theorem storeFreed_errno {result : Option TransferList}
    (h : storeFreed s cache a c capacity = some (s', result)) : s'.errno = s.errno := by
  obtain ⟨s₁, hset, h⟩ := Option.bind_eq_some_iff.mp h
  rw [← setRequestedSize_errno hset]
  cases cache with
  | none =>
      obtain ⟨m, -, h⟩ := Option.bind_eq_some_iff.mp h
      obtain ⟨rfl, -⟩ := Prod.mk.inj (Option.some.inj h)
      rfl
  | some d =>
      obtain ⟨⟨s₂, u⟩, hstore, h⟩ := Option.bind_eq_some_iff.mp h
      obtain ⟨rfl, -⟩ := Prod.mk.inj (Option.some.inj h)
      exact withCache_errno hstore

theorem freeSmallLocked_errno (h : freeSmallLocked s a c = some s') : s'.errno = s.errno := by
  obtain ⟨m₁, -, h⟩ := Option.bind_eq_some_iff.mp h
  obtain ⟨m₂, -, h⟩ := Option.bind_eq_some_iff.mp h
  rw [← Option.some.inj h]

theorem popShared_errno (h : popShared s n c a = some (s', block)) : s'.errno = s.errno := by
  obtain ⟨rest, -, h⟩ := Option.bind_eq_some_iff.mp h
  obtain ⟨m₁, -, h⟩ := Option.bind_eq_some_iff.mp h
  obtain ⟨m₂, -, h⟩ := Option.bind_eq_some_iff.mp h
  obtain ⟨rfl, -⟩ := Prod.mk.inj (Option.some.inj h)
  rfl

theorem registerSlab_errno (h : registerSlab s a = some s') : s'.errno = s.errno := by
  obtain ⟨m, -, heq⟩ := Option.bind_eq_some_iff.mp h
  rw [← Option.some.inj heq]

theorem flushClasses_errno {classes : List ClassIndex} :
    ∀ {s s' : State Tid} {published published' : Nat},
      flushClasses d classes s published = some (s', published') → s'.errno = s.errno := by
  induction classes with
  | nil =>
      intro s s' published published' h
      obtain ⟨rfl, -⟩ := Prod.mk.inj (Option.some.inj h)
      rfl
  | cons c rest ih =>
      intro s s' published published' h
      obtain ⟨⟨s₁, output⟩, hextract, h⟩ := Option.bind_eq_some_iff.mp h
      rw [← withCache_errno hextract]
      cases output with
      | none => exact ih h
      | some list =>
          obtain ⟨s₂, hpublish, h⟩ := Option.bind_eq_some_iff.mp h
          rw [← transferMutexPublish_errno hpublish]
          exact ih h

theorem onceCreateCacheKey_errno {result : Option Errno} (h : onceCreateCacheKey w s = (s', result)) :
    s'.errno = s.errno := by
  unfold onceCreateCacheKey createCacheKey at h
  dsimp only at h
  split at h
  · obtain ⟨rfl, -⟩ := Prod.mk.inj h
    rfl
  split at h
  · obtain ⟨rfl, -⟩ := Prod.mk.inj h
    rfl
  · obtain ⟨rfl, -⟩ := Prod.mk.inj h
    rfl

theorem writeLink_errno {link : RegistryLink} {target : Ptr} (h : writeLink s link target = some s') :
    s'.errno = s.errno := by
  cases link with
  | head => rw [← Option.some.inj h]
  | next slab =>
      obtain ⟨m, -, h⟩ := Option.bind_eq_some_iff.mp h
      rw [← Option.some.inj h]

theorem detachAll_errno {classes : List ClassIndex} :
    ∀ {s s' : State Tid} {freeLists freeLists' : ClassIndex → Ptr},
      detachAll classes s freeLists = some (s', freeLists') → s'.errno = s.errno := by
  induction classes with
  | nil =>
      intro s s' freeLists freeLists' h
      obtain ⟨rfl, -⟩ := Prod.mk.inj (Option.some.inj h)
      rfl
  | cons c rest ih =>
      intro s s' freeLists freeLists' h
      obtain ⟨⟨s₁, list⟩, hdetach, h⟩ := Option.bind_eq_some_iff.mp h
      exact (ih h).trans (transferMutexDetach_errno hdetach)

theorem publishAll_errno {freeLists : ClassIndex → Ptr} {classes : List ClassIndex} :
    ∀ {s s' : State Tid}, publishAll freeLists classes s = some s' → s'.errno = s.errno := by
  induction classes with
  | nil =>
      intro s s' h
      rw [Option.some.inj h]
  | cons c rest ih =>
      intro s s' h
      obtain ⟨list, -, h⟩ := Option.bind_eq_some_iff.mp h
      obtain ⟨s₁, hpublish, h⟩ := Option.bind_eq_some_iff.mp h
      exact (ih h).trans (transferMutexPublish_errno hpublish)

theorem blockFromPayload_eq_none_iff {pointer : Ptr} : blockFromPayload pointer = none ↔ pointer = none := by
  cases pointer with
  | none => simp
  | some p => simp

/-! ### Queries, mappings and the thread's cache -/

/-- Thread `t` changes no other error number, and not its own one if `p` holds. -/
def ErrnoKept (t : Tid) (p : Prop) (s s' : State Tid) : Prop := ∀ u, u ≠ t ∨ p → s'.errno u = s.errno u

variable {t : Tid} {p q : Prop}

theorem ErrnoKept.of_eq (heq : s'.errno = s.errno) : ErrnoKept t p s s' := fun u _ => congrFun heq u

theorem ErrnoKept.trans {s₂ : State Tid} (h₁ : ErrnoKept t p s s₁) (h₂ : ErrnoKept t p s₁ s₂) :
    ErrnoKept t p s s₂ := fun u hu => (h₂ u hu).trans (h₁ u hu)

theorem ErrnoKept.mono (h : ErrnoKept t p s s') (himp : q → p) : ErrnoKept t q s s' :=
  fun u hu => h u (hu.imp_right himp)

theorem ErrnoKept.after (h : ErrnoKept t p s₁ s') (heq : s₁.errno = s.errno) : ErrnoKept t p s s' :=
  (ErrnoKept.of_eq heq).trans h

theorem ErrnoKept.before (h : ErrnoKept t p s s₁) (heq : s'.errno = s₁.errno) : ErrnoKept t p s s' :=
  h.trans (ErrnoKept.of_eq heq)

variable [DecidableEq Tid]

theorem ErrnoKept.setErrno (hnot : ¬ p) (h : ErrnoKept t p s s') (e : Errno) :
    ErrnoKept t p s (s'.setErrno t e) := by
  intro u hu
  have hne := hu.resolve_right hnot
  calc (s'.setErrno t e).errno u = s'.errno u := Function.update_of_ne hne _ _
    _ = s.errno u := h u hu

theorem osPageSize_errno {size : Option Nat} (h : osPageSize w s t = (s', size)) :
    ErrnoKept t (size ≠ none) s s' := by
  unfold osPageSize at h
  dsimp only at h
  split at h
  · obtain ⟨rfl, rfl⟩ := Prod.mk.inj h
    exact ErrnoKept.setErrno (by simp) (.of_eq rfl) _
  · obtain ⟨rfl, rfl⟩ := Prod.mk.inj h
    exact .of_eq rfl

theorem osMap_errno {mapping : Option Mapping} (h : osMap w s t n = (s', mapping)) :
    ErrnoKept t (mapping ≠ none) s s' := by
  unfold osMap at h
  split at h
  · obtain ⟨rfl, rfl⟩ := Prod.mk.inj h
    exact ErrnoKept.setErrno (by simp) (.of_eq rfl) _
  split at h
  · rename_i hquery
    obtain ⟨rfl, rfl⟩ := Prod.mk.inj h
    exact (osPageSize_errno hquery).mono (by simp)
  rename_i s₁ pageSize hquery
  have hkept : ErrnoKept t (mapping ≠ none) s s₁ := (osPageSize_errno hquery).mono (by simp)
  split at h
  · obtain ⟨rfl, rfl⟩ := Prod.mk.inj h
    exact hkept.setErrno (by simp) _
  dsimp only at h
  split at h
  · obtain ⟨rfl, rfl⟩ := Prod.mk.inj h
    exact ErrnoKept.setErrno (by simp) (hkept.before rfl) _
  · obtain ⟨rfl, rfl⟩ := Prod.mk.inj h
    exact hkept.before rfl

theorem osUnmap_errno {r : Mapping} {length : Option Nat} (h : osUnmap w s t r = (s', length)) :
    ErrnoKept t (length ≠ none) s s' := by
  unfold osUnmap at h
  split at h
  · obtain ⟨rfl, rfl⟩ := Prod.mk.inj h
    exact ErrnoKept.setErrno (by simp) (.of_eq rfl) _
  dsimp only at h
  split at h
  · obtain ⟨rfl, rfl⟩ := Prod.mk.inj h
    exact ErrnoKept.setErrno (by simp) (.of_eq rfl) _
  · obtain ⟨rfl, rfl⟩ := Prod.mk.inj h
    exact .of_eq rfl

/-! ### Trimming -/

/-- Only an unmapping that fails changes the error number of the thread that trims. -/
theorem trimLoop_errno : ∀ {fuel : Nat} {s s' : State Tid} {freeLists freeLists' : ClassIndex → Ptr}
    {link : RegistryLink} {total total' : Nat},
    trimLoop w t fuel s freeLists link total = some (s', freeLists', total') → ErrnoKept t False s s' := by
  intro fuel
  induction fuel with
  | zero => simp [trimLoop]
  | succ fuel ih =>
      intro s s' freeLists freeLists' link total total' h
      rw [trimLoop] at h
      obtain ⟨current, -, h⟩ := Option.bind_eq_some_iff.mp h
      cases current with
      | none =>
          obtain ⟨rfl, -⟩ := Prod.mk.inj (Option.some.inj h)
          exact .of_eq rfl
      | some slab =>
          obtain ⟨header, -, h⟩ := Option.bind_eq_some_iff.mp h
          obtain ⟨count, -, h⟩ := Option.bind_eq_some_iff.mp h
          split at h
          · exact ih h
          obtain ⟨⟨m, removed, remaining⟩, -, h⟩ := Option.bind_eq_some_iff.mp h
          obtain ⟨s₁, hskip, h⟩ := Option.bind_eq_some_iff.mp h
          split at h
          · rename_i s₂ releasedBytes hunmap
            have hunmapped := ((osUnmap_errno hunmap).mono False.elim).after (writeLink_errno hskip)
            exact hunmapped.trans (ih h)
          · rename_i s₂ hunmap
            have hunmapped := ((osUnmap_errno hunmap).mono False.elim).after (writeLink_errno hskip)
            obtain ⟨⟨m₁, joined⟩, -, h⟩ := Option.bind_eq_some_iff.mp h
            obtain ⟨m₂, -, h⟩ := Option.bind_eq_some_iff.mp h
            obtain ⟨s₃, hrestore, h⟩ := Option.bind_eq_some_iff.mp h
            have hrestored := writeLink_errno hrestore
            exact (hunmapped.before hrestored).trans (ih h)

theorem trimQuiescent_errno {released : Nat} (h : trimQuiescent v w s t = some (s', released)) :
    ErrnoKept t False s s' := by
  cases v with
  | locked =>
      obtain ⟨⟨s₁, freeLists, total⟩, hloop, h⟩ := Option.bind_eq_some_iff.mp h
      obtain ⟨rfl, -⟩ := Prod.mk.inj (Option.some.inj h)
      exact (trimLoop_errno hloop).before rfl
  | cached =>
      obtain ⟨⟨s₁, freeLists₁⟩, hdetach, h⟩ := Option.bind_eq_some_iff.mp h
      obtain ⟨⟨s₂, freeLists₂, total⟩, hloop, h⟩ := Option.bind_eq_some_iff.mp h
      obtain ⟨s₃, hpublish, h⟩ := Option.bind_eq_some_iff.mp h
      obtain ⟨rfl, -⟩ := Prod.mk.inj (Option.some.inj h)
      exact ((trimLoop_errno hloop).after (detachAll_errno hdetach)).before (publishAll_errno hpublish)

/-! ### Allocating -/

theorem slabCreate_errno {result : Option (Nat × Ptr)} (h : slabCreate w s t c capacity = (s', result)) :
    ErrnoKept t (result ≠ none) s s' := by
  unfold slabCreate at h
  split at h
  · rename_i hquery
    obtain ⟨rfl, rfl⟩ := Prod.mk.inj h
    exact (osPageSize_errno hquery).mono (by simp)
  rename_i s₁ pageSize hquery
  have hkept : ErrnoKept t (result ≠ none) s s₁ := (osPageSize_errno hquery).mono (by simp)
  split at h
  · obtain ⟨rfl, rfl⟩ := Prod.mk.inj h
    exact hkept.setErrno (by simp) _
  split at h
  · rename_i hmap
    obtain ⟨rfl, rfl⟩ := Prod.mk.inj h
    exact hkept.trans ((osMap_errno hmap).mono (by simp))
  · rename_i hmap
    obtain ⟨rfl, rfl⟩ := Prod.mk.inj h
    exact (hkept.trans ((osMap_errno hmap).mono (by simp))).before rfl

theorem createRegisteredSlab_errno {created : Option TransferList}
    (h : createRegisteredSlab w s t c capacity = some (s', created)) :
    ErrnoKept t (created ≠ none) s s' := by
  unfold createRegisteredSlab at h
  split at h
  · rename_i hcreate
    obtain ⟨rfl, rfl⟩ := Prod.mk.inj (Option.some.inj h)
    exact (slabCreate_errno hcreate).mono (by simp)
  · rename_i hcreate
    obtain ⟨s₂, hregister, h⟩ := Option.bind_eq_some_iff.mp h
    obtain ⟨available, -, h⟩ := Option.bind_eq_some_iff.mp h
    obtain ⟨rfl, rfl⟩ := Prod.mk.inj (Option.some.inj h)
    exact ((slabCreate_errno hcreate).mono (by simp)).before (registerSlab_errno hregister)

/-- A large allocation that fails sets `ENOMEM`. -/
theorem allocateLarge_kept {pointer : Ptr} (h : allocateLarge w s t n = (s', pointer)) :
    ErrnoKept t (pointer ≠ none) s s' ∧ (pointer = none → s'.errno t = .ENOMEM) := by
  unfold allocateLarge at h
  split at h
  · rename_i hquery
    obtain ⟨rfl, rfl⟩ := Prod.mk.inj h
    have hkept := (osPageSize_errno hquery).mono (q := (none : Ptr) ≠ none) (by simp)
    exact ⟨hkept.setErrno (by simp) _, fun _ => Function.update_self ..⟩
  rename_i s₁ pageSize hquery
  have hkept : ErrnoKept t (pointer ≠ none) s s₁ := (osPageSize_errno hquery).mono (by simp)
  split at h
  · obtain ⟨rfl, rfl⟩ := Prod.mk.inj h
    exact ⟨hkept.setErrno (by simp) _, fun _ => Function.update_self ..⟩
  split at h
  · rename_i hmap
    obtain ⟨rfl, rfl⟩ := Prod.mk.inj h
    have hmapped := hkept.trans ((osMap_errno hmap).mono (by simp))
    exact ⟨hmapped.setErrno (by simp) _, fun _ => Function.update_self ..⟩
  · rename_i hmap
    obtain ⟨rfl, rfl⟩ := Prod.mk.inj h
    refine ⟨(hkept.trans ((osMap_errno hmap).mono (by simp))).before rfl, fun hnone => ?_⟩
    simp [blockPayload_some] at hnone

theorem allocateSmallLocked_kept {pointer : Ptr}
    (h : allocateSmallLocked w s t n c capacity = some (s', pointer)) :
    ErrnoKept t (pointer ≠ none) s s' ∧ (pointer = none → s'.errno t = .ENOMEM) := by
  have hpopped : ∀ {s₁ s' : State Tid} {a : Nat}, popShared s₁ n c a = some (s', pointer) →
      pointer ≠ none := by
    intro s₁ s' a hpop
    obtain ⟨rest, -, hpop⟩ := Option.bind_eq_some_iff.mp hpop
    obtain ⟨m₁, -, hpop⟩ := Option.bind_eq_some_iff.mp hpop
    obtain ⟨m₂, -, hpop⟩ := Option.bind_eq_some_iff.mp hpop
    obtain ⟨-, rfl⟩ := Prod.mk.inj (Option.some.inj hpop)
    simp [blockPayload_some]
  unfold allocateSmallLocked at h
  split at h
  · exact ⟨.of_eq (popShared_errno h), fun hnone => absurd hnone (hpopped h)⟩
  split at h
  · rename_i hcreate
    obtain ⟨rfl, rfl⟩ := Prod.mk.inj (Option.some.inj h)
    have hkept := (slabCreate_errno hcreate).mono (q := (none : Ptr) ≠ none) (by simp)
    exact ⟨hkept.setErrno (by simp) _, fun _ => Function.update_self ..⟩
  · rename_i hcreate
    obtain ⟨s₂, hregister, h⟩ := Option.bind_eq_some_iff.mp h
    obtain ⟨a, -, h⟩ := Option.bind_eq_some_iff.mp h
    refine ⟨?_, fun hnone => absurd hnone (hpopped h)⟩
    have hkept := (slabCreate_errno hcreate).mono (q := pointer ≠ none) (by simp)
    have hregistered := hkept.before (registerSlab_errno hregister)
    exact fun u hu => (congrFun (popShared_errno h) u).trans (hregistered u hu)

/-- The error number an unmapping of a descriptor leaves is that of `munmap` if it fails. -/
theorem unmapDescriptor_errno (h : unmapDescriptor w s t d = some s') :
    s'.errno = s.errno ∨ ∃ call e, w.descriptorMunmap call = some e ∧
      s'.errno = Function.update s.errno t e := by
  obtain ⟨descriptor, -, h⟩ := Option.bind_eq_some_iff.mp h
  dsimp only at h
  split at h
  · rename_i e hanswer
    obtain rfl := Option.some.inj h
    exact Or.inr ⟨_, e, hanswer, rfl⟩
  · obtain rfl := Option.some.inj h
    exact Or.inl rfl

theorem releaseDescriptor_errno (h : releaseDescriptor w s t d = some s') : ErrnoKept t False s s' := by
  obtain ⟨⟨s₁, published⟩, hflush, h⟩ := Option.bind_eq_some_iff.mp h
  have hflushed : s₁.errno = (handToRelease s d).errno := flushClasses_errno hflush
  intro u hu
  have hne := hu.resolve_right id
  rcases unmapDescriptor_errno h with heq | ⟨call, e, -, heq⟩
  · rw [heq, hflushed]
    rfl
  · rw [heq, Function.update_of_ne hne, hflushed]
    rfl

theorem mapDescriptor_errno {result : Ptr} (h : mapDescriptor w s t = (s', result)) :
    ErrnoKept t (result ≠ none) s s' := by
  unfold mapDescriptor at h
  dsimp only at h
  split at h
  · obtain ⟨rfl, rfl⟩ := Prod.mk.inj h
    exact .of_eq rfl
  split at h
  · obtain ⟨rfl, rfl⟩ := Prod.mk.inj h
    exact .of_eq rfl
  split at h
  · obtain ⟨rfl, rfl⟩ := Prod.mk.inj h
    exact ErrnoKept.setErrno (by simp) (.of_eq rfl) _
  · obtain ⟨rfl, rfl⟩ := Prod.mk.inj h
    exact .of_eq rfl

/-- Only a set-up that fails may change the thread's error number. -/
theorem cacheAcquire_errno (h : cacheAcquire w s t = some (s', cache)) :
    ErrnoKept t (s.currentState t = .uninitialized → cache ≠ none) s s' := by
  unfold cacheAcquire at h
  split at h
  · obtain ⟨rfl, -⟩ := Prod.mk.inj (Option.some.inj h)
    exact .of_eq rfl
  · obtain ⟨rfl, -⟩ := Prod.mk.inj (Option.some.inj h)
    exact .of_eq rfl
  rename_i hstate
  split at h
  · rename_i honce
    obtain ⟨rfl, -⟩ := Prod.mk.inj (Option.some.inj h)
    exact (ErrnoKept.of_eq (onceCreateCacheKey_errno honce)).before rfl
  rename_i s₁ honce
  have hkey := onceCreateCacheKey_errno honce
  split at h
  · obtain ⟨rfl, -⟩ := Prod.mk.inj (Option.some.inj h)
    exact (ErrnoKept.of_eq hkey).before rfl
  split at h
  · rename_i s₂ hmap
    obtain ⟨rfl, rfl⟩ := Prod.mk.inj (Option.some.inj h)
    have hkept := (mapDescriptor_errno hmap).after hkey
    exact (hkept.before rfl).mono fun himp => absurd rfl (himp hstate)
  rename_i s₂ d hmap
  have hmapped := ((mapDescriptor_errno hmap).mono (q := True) (by simp)).after hkey
  dsimp only at h
  split at h
  · obtain ⟨s₃, hrelease, h⟩ := Option.bind_eq_some_iff.mp h
    obtain ⟨rfl, rfl⟩ := Prod.mk.inj (Option.some.inj h)
    have hreleased := releaseDescriptor_errno hrelease
    refine fun u hu => (hreleased u (Or.inl ?_)).trans (hmapped u (Or.inr trivial))
    exact hu.resolve_right fun himp => himp hstate rfl
  · obtain ⟨rfl, -⟩ := Prod.mk.inj (Option.some.inj h)
    exact (hmapped.mono fun _ => trivial).before rfl

/-- The set-up has failed if it gives no cache. -/
theorem Acquired.uncached (hacquired : Acquired s s' t none) : s'.currentState t = .uncached := by
  cases hacquired with
  | declined hnoise =>
      obtain ⟨_, _, _, _, _, _, _, _, rfl⟩ := hnoise
      exact Function.update_self ..
  | released _ _ hhanded hnoise =>
      subst hhanded
      rcases hnoise with ⟨_, _, _, _, _, _, _, _, rfl⟩ | ⟨_, _, _, _, _, _, _, _, rfl⟩
      · exact Function.update_self ..
      · exact Function.update_self ..

end Hplf
