import HplfMalloc.Lifecycle

/-!
# The public allocation functions

`allocator.c` without trimming. The mutexes of the source are statically initialised defaults, whose lock
and unlock operations do not fail; the branches for their errors are not modelled. `none` is a fault or a
traversal that never ends; a `NULL` result is `some (_, none)`.
-/

namespace Hplf

variable {Tid : Type}

def setRequestedSize (s : State Tid) (block : Nat) (size : Nat) : Option (State Tid) := do
  let m ← s.memory.setRequestedSize block size
  some { s with memory := m }

/-- `cache != NULL ? hplf_thread_cache_take(...) : NULL`. -/
def takeLocal (s : State Tid) (cache : Ptr) (classIndex : ClassIndex) (classCapacity : Nat) :
    Option (State Tid × Ptr) :=
  match cache with
  | none => some (s, none)
  | some d => withCache s d fun m cache => threadCacheTake m cache classIndex classCapacity

/-- A local miss moves blocks into the cache and takes one for the client, from the cache if it accepted
any and from the list otherwise. Returns the rest of the list and the block. -/
def refillAndTake (s : State Tid) (cache : Ptr) (classIndex : ClassIndex) (classCapacity : Nat)
    (available : TransferList) : Option (State Tid × TransferList × Ptr) := do
  let (s, available, block) ← match cache with
    | none => some (s, available, none)
    | some d => do
        let (s, available) ← withCache s d fun m cache =>
          threadCacheRefill m cache classIndex classCapacity available
        let (s, block) ← takeLocal s (some d) classIndex classCapacity
        some (s, available, block)
  match block with
  | some a => some (s, available, some a)
  | none => do
      let (m, available, direct) ← transferListTakePrefix s.memory available 1
      some ({ s with memory := m }, available, direct.first)

/-- `slab->next = allocator_state.slabs; allocator_state.slabs = slab;`. -/
def registerSlab (s : State Tid) (slab : Nat) : Option (State Tid) := do
  let m ← s.memory.setSlabNext slab s.slabs
  some { s with memory := m, slabs := some slab }

variable [DecidableEq Tid]

/-- Slab creation under the registry mutex; the inner option is `none` if it fails. -/
def createRegisteredSlab (w : World) (s : State Tid) (t : Tid) (classIndex : ClassIndex)
    (classCapacity : Nat) : Option (State Tid × Option TransferList) :=
  match slabCreate w s t classIndex classCapacity with
  | (s, none) => some (s, none)
  | (s, some (slab, newFreeList)) => do
      let s ← registerSlab s slab
      let available ← transferListFromChain s.memory newFreeList
      some (s, some available)

/-- The part of the cached `hplf_allocate_small` that follows once blocks are at hand. -/
def allocateFrom (s : State Tid) (t : Tid) (cache : Ptr) (requestedSize : Nat)
    (classIndex : ClassIndex) (classCapacity : Nat) (available : TransferList) :
    Option (State Tid × Ptr) := do
  let (s, available, block) ← refillAndTake s cache classIndex classCapacity available
  match block with
  | none => do
      let s ← transferMutexPublish s classIndex available
      some (s.setErrno t .ENOMEM, none)
  | some a => do
      let s ← transferMutexPublish s classIndex available
      let s ← setRequestedSize s a requestedSize
      some (s, blockPayload (some a))

def allocateSmallCached (w : World) (s : State Tid) (t : Tid) (requestedSize : Nat)
    (classIndex : ClassIndex) (classCapacity : Nat) : Option (State Tid × Ptr) := do
  let (s, cache) ← cacheAcquire w s t
  let (s, block) ← takeLocal s cache classIndex classCapacity
  match block with
  | some a => do
      let s ← setRequestedSize s a requestedSize
      some (s, blockPayload (some a))
  | none => do
      let (s, available) ← transferMutexDetach s classIndex
      if available.first ≠ none then
        allocateFrom s t cache requestedSize classIndex classCapacity available
      else do
        -- The registry mutex is held from here to the end of slab creation.
        let (s, available) ← transferMutexDetach s classIndex
        if available.first ≠ none then
          allocateFrom s t cache requestedSize classIndex classCapacity available
        else do
          let (s, created) ← createRegisteredSlab w s t classIndex classCapacity
          match created with
          | none => some (s.setErrno t .ENOMEM, none)
          | some available =>
              allocateFrom s t cache requestedSize classIndex classCapacity available

/-- Unlinks the head of a shared free list for the client. -/
def popShared (s : State Tid) (requestedSize : Nat) (classIndex : ClassIndex) (block : Nat) :
    Option (State Tid × Ptr) := do
  let rest ← s.memory.next block
  let m ← s.memory.setNextFree block none
  let m ← m.setRequestedSize block requestedSize
  some ({ s with memory := m, sharedHeads := Function.update s.sharedHeads classIndex rest },
    blockPayload (some block))

def allocateSmallLocked (w : World) (s : State Tid) (t : Tid) (requestedSize : Nat)
    (classIndex : ClassIndex) (classCapacity : Nat) : Option (State Tid × Ptr) :=
  match s.sharedHeads classIndex with
  | some block => popShared s requestedSize classIndex block
  | none =>
      match slabCreate w s t classIndex classCapacity with
      | (s, none) => some (s.setErrno t .ENOMEM, none)
      | (s, some (slab, newFreeList)) => do
          let s ← registerSlab s slab
          let s := { s with sharedHeads := Function.update s.sharedHeads classIndex newFreeList }
          let block ← newFreeList
          popShared s requestedSize classIndex block

def allocateSmall (v : Variant) (w : World) (s : State Tid) (t : Tid) (requestedSize : Nat)
    (classIndex : ClassIndex) (classCapacity : Nat) : Option (State Tid × Ptr) :=
  match v with
  | .cached => allocateSmallCached w s t requestedSize classIndex classCapacity
  | .locked => allocateSmallLocked w s t requestedSize classIndex classCapacity

def allocateLarge (w : World) (s : State Tid) (t : Tid) (requestedSize : Nat) : State Tid × Ptr :=
  match osPageSize w s t with
  | (s, none) => (s.setErrno t .ENOMEM, none)
  | (s, some pageSize) =>
      match largeLayoutCompute requestedSize pageSize with
      | none => (s.setErrno t .ENOMEM, none)
      | some layout =>
          match osMap w s t layout.mappingLength with
          | (s, none) => (s.setErrno t .ENOMEM, none)
          | (s, some mapping) =>
              let m := s.memory.initBlock mapping.base
                { owner := .large mapping.base mapping.length
                  nextFree := none
                  requestedSize := requestedSize
                  capacity := sizeSub mapping.length layout.payloadOffset
                  kind := .large }
              ({ s with memory := m }, blockPayload (some mapping.base))

def malloc (v : Variant) (w : World) (s : State Tid) (t : Tid) (size : Nat) :
    Option (State Tid × Ptr) :=
  if size = 0 then
    some (s, none)
  else if size > ptrdiffMax then
    some (s.setErrno t .ENOMEM, none)
  else
    match sizeClassFor size with
    | some (classIndex, classCapacity) => allocateSmall v w s t size classIndex classCapacity
    | none => some (allocateLarge w s t size)

/-- The eviction loop of `hplf_free`. -/
def evictLoop (d : Nat) (classIndex : ClassIndex) : Nat → State Tid → Option (State Tid)
  | 0, _ => none
  | fuel + 1, s => do
      let (s, eviction) ← withCache s d fun m cache =>
        threadCacheExtractEviction m cache classIndex
      match eviction with
      | none => some s
      | some (evictionClass, list) => do
          let s ← transferMutexPublish s evictionClass list
          evictLoop d classIndex fuel s

/-- Clears the size of a freed block and hands it to the cache, or makes it a list of its own if there is
no cache. -/
def storeFreed (s : State Tid) (cache : Ptr) (block : Nat) (classIndex : ClassIndex)
    (classCapacity : Nat) : Option (State Tid × Option TransferList) := do
  let s ← setRequestedSize s block 0
  match cache with
  | none => do
      let m ← s.memory.setNextFree block none
      some ({ s with memory := m }, some { first := some block, last := some block, count := 1 })
  | some d => do
      let (s, _) ← withCache s d fun m cache =>
        (threadCacheStore m cache classIndex classCapacity block).map fun (m, cache) => (m, cache, ())
      some (s, none)

def freeSmallCached (w : World) (s : State Tid) (t : Tid) (block : Nat) (classIndex : ClassIndex)
    (classCapacity : Nat) : Option (State Tid) := do
  let (s, cache) ← cacheAcquire w s t
  let (s, eviction) ← storeFreed s cache block classIndex classCapacity
  match eviction with
  | some list => transferMutexPublish s classIndex list
  | none => do
      let d ← cache
      evictLoop d classIndex addressSpace s

def freeSmallLocked (s : State Tid) (block : Nat) (classIndex : ClassIndex) : Option (State Tid) := do
  let m ← s.memory.setRequestedSize block 0
  let m ← m.setNextFree block (s.sharedHeads classIndex)
  some { s with
    memory := m
    sharedHeads := Function.update s.sharedHeads classIndex (some block) }

def freeBlock (v : Variant) (w : World) (s : State Tid) (t : Tid) (block : Nat) :
    Option (State Tid) := do
  let header ← s.memory.block block
  match header.kind with
  | .large =>
      -- All prefix fields are read before the unmap destroys them.
      let mapping : Mapping := ⟨header.owner.mapping.1, header.owner.mapping.2⟩
      some (osUnmap w s t mapping).1
  | .small => do
      let slab ← s.memory.slab header.owner.slab
      match v with
      | .cached => freeSmallCached w s t block slab.classIndex header.capacity
      | .locked => freeSmallLocked s block slab.classIndex

def free (v : Variant) (w : World) (s : State Tid) (t : Tid) (pointer : Ptr) : Option (State Tid) :=
  match blockFromPayload pointer with
  | none => some s
  | some block => do
      let savedErrno := s.errno t
      let s ← freeBlock v w s t block
      some (s.setErrno t savedErrno)

def calloc (v : Variant) (w : World) (s : State Tid) (t : Tid) (count size : Nat) :
    Option (State Tid × Ptr) :=
  if count = 0 ∨ size = 0 then
    some (s, none)
  else
    match sizeMultiply count size with
    | none => some (s.setErrno t .ENOMEM, none)
    | some totalSize => do
        let (s, pointer) ← malloc v w s t totalSize
        match pointer with
        | none => some (s, none)
        | some p =>
            some ({ s with memory := s.memory.writeBytes p totalSize fun _ => some 0 }, some p)

def reallocCanRetain (s : State Tid) (header : Block) (requestedSize : Nat) : Option Bool :=
  match header.kind with
  | .small =>
      match sizeClassFor requestedSize with
      | none => some false
      | some (classIndex, _) => do
          let slab ← s.memory.slab header.owner.slab
          some (classIndex = slab.classIndex)
  | .large =>
      some ((sizeClassFor requestedSize).isNone && requestedSize ≤ header.capacity)

/-- `memcpy(destination, source, length)`. -/
def copyBytes (s : State Tid) (destination source length : Nat) : State Tid :=
  { s with memory := s.memory.writeBytes destination length fun i => s.memory.byte (source + i) }

def realloc (v : Variant) (w : World) (s : State Tid) (t : Tid) (pointer : Ptr) (size : Nat) :
    Option (State Tid × Ptr) :=
  match pointer, blockFromPayload pointer with
  | some p, some oldBlock =>
      if size = 0 then do
        let s ← free v w s t pointer
        some (s, none)
      else if size > ptrdiffMax then
        some (s.setErrno t .ENOMEM, none)
      else do
        let header ← s.memory.block oldBlock
        let retain ← reallocCanRetain s header size
        if retain then do
          let s ← setRequestedSize s oldBlock size
          some (s, pointer)
        else do
          -- Allocate first: failure must leave both the bytes and ownership unchanged.
          let (s, replacement) ← malloc v w s t size
          match replacement with
          | none => some (s, none)
          | some q => do
              let header ← s.memory.block oldBlock
              let copySize := if header.requestedSize < size then header.requestedSize else size
              let s ← free v w (copyBytes s q p copySize) t pointer
              some (s, some q)
  | _, _ => malloc v w s t size

def threadFlush (v : Variant) (s : State Tid) (t : Tid) : Option (State Tid) :=
  match v with
  | .cached => do
      let (s, _) ← cacheFlushCurrent s t
      some s
  | .locked => some s

end Hplf
