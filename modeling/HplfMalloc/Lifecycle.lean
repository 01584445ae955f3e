import HplfMalloc.TransferMutex

/-!
# Cache lifecycle

`thread_cache_lifecycle.c`: a thread maps a descriptor for its cache on first use and registers it under
a process-wide key, whose destructor publishes the cached blocks and unmaps the descriptor when the thread
exits. Any failure on the way leaves the thread without a cache for good.
-/

namespace Hplf

variable {Tid : Type}

/-- `sizeof(struct hplf_cache_descriptor)`. -/
def sizeofDescriptor : Nat := 280

/-- Runs a cache operation on the cache of the descriptor at `d`; a fault if none is mapped there. -/
def withCache {α : Type} (s : State Tid) (d : Nat)
    (operation : Memory → ThreadCache → Option (Memory × ThreadCache × α)) :
    Option (State Tid × α) := do
  let descriptor ← s.descriptor d
  let (m, cache, result) ← operation s.memory descriptor.cache
  some ({ s with
    memory := m
    descriptor := Function.update s.descriptor d (some { descriptor with cache := cache }) }, result)

/-- One iteration of `flush_descriptor` up to its publish. -/
def flushExtract (s : State Tid) (d : Nat) (classIndex : ClassIndex) :
    Option (State Tid × Option TransferList) :=
  withCache s d fun m cache => threadCacheExtractClass m cache classIndex sizeMax

/-- The loop of `flush_descriptor` over the remaining classes. -/
def flushClasses (d : Nat) : List ClassIndex → State Tid → Nat → Option (State Tid × Nat)
  | [], s, published => some (s, published)
  | classIndex :: rest, s, published => do
      let (s, output) ← flushExtract s d classIndex
      match output with
      | none => flushClasses d rest s published
      | some list => do
          let s ← transferMutexPublish s classIndex list
          flushClasses d rest s (published + list.count)

def flushDescriptor (s : State Tid) (d : Nat) : Option (State Tid × Nat) :=
  flushClasses d classIndices s 0

variable [DecidableEq Tid]

/-- The end of `release_descriptor`: base and length are read before the storage goes away. -/
def unmapDescriptor (w : World) (s : State Tid) (t : Tid) (d : Nat) : Option (State Tid) := do
  let descriptor ← s.descriptor d
  let answer := w.descriptorMunmap s.descriptorUnmapCalls
  let s := { s with descriptorUnmapCalls := s.descriptorUnmapCalls + 1 }
  match answer with
  | some e => some (s.setErrno t e)
  | none => some { s with
      descriptor := Function.update s.descriptor descriptor.mappingBase none
      descriptorMapped :=
        s.descriptorMapped.erase ⟨descriptor.mappingBase, descriptor.mappingLength⟩ }

/-- Marks the descriptor as handed over. -/
def handToRelease (s : State Tid) (d : Nat) : State Tid :=
  { s with handedToRelease := Function.update s.handedToRelease d (s.handedToRelease d + 1) }

def releaseDescriptor (w : World) (s : State Tid) (t : Tid) (d : Nat) : Option (State Tid) := do
  let s := handToRelease s d
  let (s, _) ← flushDescriptor s d
  unmapDescriptor w s t d

/-- The assignments of `destroy_descriptor`: later destructors must use the uncached paths. -/
def forgetDescriptor (s : State Tid) (t : Tid) : State Tid :=
  { s with
    currentDescriptor := Function.update s.currentDescriptor t none
    currentState := Function.update s.currentState t .uncached }

def destroyDescriptor (w : World) (s : State Tid) (t : Tid) (value : Ptr) : Option (State Tid) :=
  match value with
  | none => some s
  | some d => releaseDescriptor w (forgetDescriptor s t) t d

/-- What the thread library does for `cache_key` when a thread exits: the registered value is replaced
by `NULL` and handed to the destructor. -/
def threadExit (w : World) (s : State Tid) (t : Tid) : Option (State Tid) :=
  destroyDescriptor w { s with keyValue := Function.update s.keyValue t none } t (s.keyValue t)

def createCacheKey (w : World) (s : State Tid) : State Tid :=
  { s with cacheKeyError := w.pthreadKeyCreate }

/-- `pthread_once(&cache_key_once, create_cache_key)` and the error it returns. -/
def onceCreateCacheKey (w : World) (s : State Tid) : State Tid × Option Errno :=
  let answer := w.pthreadOnce s.onceCalls
  let s := { s with onceCalls := s.onceCalls + 1 }
  match answer with
  | some e => (s, some e)
  | none =>
      if s.cacheKeyOnce then (s, none) else (createCacheKey w { s with cacheKeyOnce := true }, none)

def mapDescriptor (w : World) (s : State Tid) (t : Tid) : State Tid × Ptr :=
  let pageSizeValue := w.descriptorSysconf s.descriptorQueries
  let s := { s with descriptorQueries := s.descriptorQueries + 1 }
  if pageSizeValue ≤ 0 then
    (s, none)
  else
    match sizeRoundUpMultiple sizeofDescriptor pageSizeValue.toNat with
    | none => (s, none)
    | some mappingLength =>
        let answer := w.descriptorMmap s.descriptorMapCalls s.mappings mappingLength
        let s := { s with descriptorMapCalls := s.descriptorMapCalls + 1 }
        match answer with
        | .error e => (s.setErrno t e, none)
        | .ok base =>
            let descriptor : CacheDescriptor :=
              { cache := threadCacheInitialize, mappingBase := base, mappingLength := mappingLength }
            ({ s with
                descriptor := Function.update s.descriptor base (some descriptor)
                descriptorMapped := ⟨base, mappingLength⟩ :: s.descriptorMapped
                descriptorsMappedBy :=
                  Function.update s.descriptorsMappedBy t (s.descriptorsMappedBy t + 1)
                handedToRelease := Function.update s.handedToRelease base 0 }, some base)

def setCurrentState (s : State Tid) (t : Tid) (value : LifecycleState) : State Tid :=
  { s with currentState := Function.update s.currentState t value }

/-- Returns the descriptor whose cache the thread may use, or `NULL`. -/
def cacheAcquire (w : World) (s : State Tid) (t : Tid) : Option (State Tid × Ptr) :=
  match s.currentState t with
  | .active => some (s, s.currentDescriptor t)
  | .uncached => some (s, none)
  | .uninitialized =>
      match onceCreateCacheKey w s with
      | (s, some _) => some (setCurrentState s t .uncached, none)
      | (s, none) =>
          if s.cacheKeyError ≠ none then
            some (setCurrentState s t .uncached, none)
          else
            match mapDescriptor w s t with
            | (s, none) => some (setCurrentState s t .uncached, none)
            | (s, some d) =>
                let answer := w.pthreadSetspecific s.registrations
                let s := { s with registrations := s.registrations + 1 }
                match answer with
                | some _ => do
                    -- The key never owned this mapping, so this is setup cleanup, not exit.
                    let s ← releaseDescriptor w (setCurrentState s t .uncached) t d
                    some (s, none)
                | none =>
                    let s := { s with
                      keyValue := Function.update s.keyValue t (some d)
                      currentDescriptor := Function.update s.currentDescriptor t (some d) }
                    some (setCurrentState s t .active, some d)

/-- `hplf_cache_current`. -/
def cacheCurrent (s : State Tid) (t : Tid) : Ptr :=
  if s.currentState t = .active then s.currentDescriptor t else none

def cacheFlushCurrent (s : State Tid) (t : Tid) : Option (State Tid × Nat) :=
  if s.currentState t = .active then do
    let d ← s.currentDescriptor t
    flushDescriptor s d
  else
    some (s, 0)

end Hplf
