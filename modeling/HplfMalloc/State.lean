import HplfMalloc.ThreadCache

/-!
# The allocator's state and the world it runs in

`World` holds everything the operating system and the thread library may answer: the result of each
page-size query, mapping, unmapping, key creation and registration, by the number of the call. `State` is
the static and thread-local data of the translation units, the storage, and the calls made so far. A
thread is any value of a type `Tid`.
-/

namespace Hplf

inductive Errno
  | success
  | EAGAIN
  | EINVAL
  | EIO
  | ENOMEM
  | other (code : Nat)
  deriving DecidableEq, Repr

/-- `struct hplf_os_mapping`. -/
structure Mapping where
  base : Nat
  length : Nat
  deriving DecidableEq, Repr

/-- The two regions have no address in common. -/
def Mapping.Apart (left right : Mapping) : Prop :=
  left.base + left.length ≤ right.base ∨ right.base + right.length ≤ left.base

instance (left right : Mapping) : Decidable (left.Apart right) :=
  inferInstanceAs (Decidable (_ ∨ _))

/-- What a successful anonymous `mmap` promises: nonnull storage aligned for any fundamental type, inside
the address space and apart from every region mapped at that moment. -/
structure Mapping.Fresh (mapped : List Mapping) (region : Mapping) : Prop where
  base_pos : 0 < region.base
  aligned : payloadAlignment ∣ region.base
  fits : region.base + region.length ≤ addressSpace
  apart : ∀ other ∈ mapped, region.Apart other

structure World where
  /-- `sysconf(_SC_PAGESIZE)` as asked by `hplf_os_page_size`. -/
  sysconf : Nat → Int
  /-- `mmap` as called by `hplf_os_map`, given the regions mapped then and the length. -/
  mmap : Nat → List Mapping → Nat → Except Errno Nat
  /-- `munmap` as called by `hplf_os_unmap`; `none` is success. -/
  munmap : Nat → Option Errno
  pthreadOnce : Nat → Option Errno
  pthreadKeyCreate : Option Errno
  /-- `sysconf(_SC_PAGESIZE)` as asked by `map_descriptor`. -/
  descriptorSysconf : Nat → Int
  descriptorMmap : Nat → List Mapping → Nat → Except Errno Nat
  pthreadSetspecific : Nat → Option Errno
  descriptorMunmap : Nat → Option Errno
  mmap_fresh : ∀ call mapped length base, mmap call mapped length = .ok base →
    Mapping.Fresh mapped ⟨base, length⟩
  descriptorMmap_fresh : ∀ call mapped length base, descriptorMmap call mapped length = .ok base →
    Mapping.Fresh mapped ⟨base, length⟩

/-- The two builds: one lock around shared free lists, or thread caches over the mutex transfer. -/
inductive Variant
  | locked
  | cached
  deriving DecidableEq, Repr

/-- `enum hplf_cache_lifecycle_state`. -/
inductive LifecycleState
  | uninitialized
  | active
  | uncached
  deriving DecidableEq, Repr

/-- `struct hplf_cache_descriptor`. -/
structure CacheDescriptor where
  cache : ThreadCache
  mappingBase : Nat
  mappingLength : Nat

structure State (Tid : Type) where
  memory : Memory
  /-- Regions obtained by `hplf_os_map` and not unmapped since. -/
  mapped : List Mapping
  /-- Regions obtained by `map_descriptor` and not unmapped since. -/
  descriptorMapped : List Mapping
  /-- `allocator_state.slabs`. -/
  slabs : Ptr
  /-- `allocator_state.free_lists` of the locked build, `transfers.heads` of the cached one. -/
  sharedHeads : ClassIndex → Ptr
  /-- Whether `cache_key_once` has run `create_cache_key`. -/
  cacheKeyOnce : Bool
  cacheKeyError : Option Errno
  descriptor : Nat → Option CacheDescriptor
  currentState : Tid → LifecycleState
  currentDescriptor : Tid → Ptr
  /-- The value a thread has registered under `cache_key`. -/
  keyValue : Tid → Ptr
  errno : Tid → Errno
  pageQueries : Nat
  /-- Whether each `mmap` call made by `hplf_os_map` succeeded, oldest first. -/
  mapOutcomes : List Bool
  /-- The arguments of the `munmap` calls made by `hplf_os_unmap`, oldest first. -/
  unmapCalls : List Mapping
  onceCalls : Nat
  descriptorQueries : Nat
  descriptorMapCalls : Nat
  registrations : Nat
  descriptorUnmapCalls : Nat
  /-- How many descriptors a thread has mapped so far. -/
  descriptorsMappedBy : Tid → Nat
  /-- How often the descriptor now mapped at an address was handed to `release_descriptor`. -/
  handedToRelease : Nat → Nat

namespace State

variable {Tid : Type}

/-- The state before any call: static storage is zero-initialised and nothing is mapped. -/
def initial : State Tid where
  memory := .empty
  mapped := []
  descriptorMapped := []
  slabs := none
  sharedHeads := fun _ => none
  cacheKeyOnce := false
  cacheKeyError := none
  descriptor := fun _ => none
  currentState := fun _ => .uninitialized
  currentDescriptor := fun _ => none
  keyValue := fun _ => none
  errno := fun _ => .success
  pageQueries := 0
  mapOutcomes := []
  unmapCalls := []
  onceCalls := 0
  descriptorQueries := 0
  descriptorMapCalls := 0
  registrations := 0
  descriptorUnmapCalls := 0
  descriptorsMappedBy := fun _ => 0
  handedToRelease := fun _ => 0

variable [DecidableEq Tid]

def setErrno (s : State Tid) (t : Tid) (e : Errno) : State Tid :=
  { s with errno := Function.update s.errno t e }

/-- Every region the process has mapped. -/
def mappings (s : State Tid) : List Mapping := s.mapped ++ s.descriptorMapped

end State

end Hplf
