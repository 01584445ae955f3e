import HplfMalloc.Trim
import HplfMalloc.Lib.Transition

/-!
# Threads

Any number of threads run the public functions. A thread's program counter names the next action of the
call it is in, with the local variables that are still needed; between two actions any other thread may
act. The actions are a detach, a publish, each part of the registry-locked section, and the thread-private
stretches in between. `live` lists the blocks whose payload a client holds: a client frees or resizes only
such blocks, at most one call at a time, and writes only inside the requested bytes of those no call is
working on. Trimming runs when no thread is inside a call.
-/

namespace Hplf

/-- The public call an allocation serves. -/
inductive Purpose
  | malloc
  | calloc
  | realloc (old : Nat)
  deriving DecidableEq, Repr

structure Request where
  purpose : Purpose
  size : Nat
  deriving DecidableEq, Repr

inductive Call
  | malloc (size : Nat)
  | calloc (count size : Nat)
  | realloc (pointer : Ptr) (size : Nat)
  | free (pointer : Ptr)
  | threadFlush
  | threadExit
  deriving DecidableEq, Repr

inductive Pc
  | idle
  /-- At the entry of `hplf_allocate_small`. -/
  | allocateSmall (r : Request) (c : ClassIndex) (capacity : Nat)
  /-- After a local miss, before the first detach. -/
  | detach (r : Request) (c : ClassIndex) (capacity : Nat) (cache : Ptr)
  | lockRegistry (r : Request) (c : ClassIndex) (capacity : Nat) (cache : Ptr)
  /-- Holding the registry mutex, before the second detach. -/
  | recheck (r : Request) (c : ClassIndex) (capacity : Nat) (cache : Ptr)
  | createSlab (r : Request) (c : ClassIndex) (capacity : Nat) (cache : Ptr)
  | unlockRegistry (r : Request) (c : ClassIndex) (capacity : Nat) (cache : Ptr)
      (available : TransferList)
  | refill (r : Request) (c : ClassIndex) (capacity : Nat) (cache : Ptr) (available : TransferList)
  | publishRest (r : Request) (c : ClassIndex) (available : TransferList) (block : Ptr)
  | allocateLarge (r : Request)
  /-- An allocation has succeeded and returns to the function that asked for it. -/
  | deliver (r : Request) (block : Nat)
  /-- At the entry of `hplf_free`. -/
  | release (block : Nat)
  | publishFreed (c : ClassIndex) (list : TransferList) (savedErrno : Errno)
  | evict (c : ClassIndex) (cache : Nat) (savedErrno : Errno)
  | publishEviction (c : ClassIndex) (cache : Nat) (evictionClass : ClassIndex)
      (list : TransferList) (savedErrno : Errno)
  /-- In `flush_descriptor`; `teardown` if `release_descriptor` called it. -/
  | flush (d : Nat) (rest : List ClassIndex) (teardown : Bool)
  | publishFlush (d : Nat) (c : ClassIndex) (list : TransferList) (rest : List ClassIndex)
      (teardown : Bool)
  | unmapDescriptor (d : Nat)
  deriving DecidableEq, Repr

/-- The live block a call in progress was given. -/
def Pc.argument : Pc → Option Nat
  | .allocateSmall r _ _ | .detach r _ _ _ | .lockRegistry r _ _ _ | .recheck r _ _ _
  | .createSlab r _ _ _ | .unlockRegistry r _ _ _ _ | .refill r _ _ _ _ | .publishRest r _ _ _
  | .allocateLarge r | .deliver r _ =>
      match r.purpose with
      | .realloc old => some old
      | _ => none
  | .release block => some block
  | _ => none

structure Config (Tid : Type) where
  state : State Tid
  pc : Tid → Pc
  live : List Nat
  registryOwner : Option Tid
  /-- Large mappings whose unmap failed inside `hplf_free`. -/
  leaked : List Mapping
  /-- The call each thread entered last. -/
  lastCall : Tid → Option Call

variable {Tid : Type} [DecidableEq Tid]

namespace Config

def initial : Config Tid where
  state := .initial
  pc := fun _ => .idle
  live := []
  registryOwner := none
  leaked := []
  lastCall := fun _ => none

/-- Continues thread `t` at `pc` in state `s`. -/
def goto (k : Config Tid) (t : Tid) (s : State Tid) (pc : Pc) : Config Tid :=
  { k with state := s, pc := Function.update k.pc t pc }

def Quiescent (k : Config Tid) : Prop := ∀ t, k.pc t = .idle

/-- No call in progress works on `block`. -/
def Unused (k : Config Tid) (block : Nat) : Prop := ∀ t, (k.pc t).argument ≠ some block

/-- A client may pass this pointer: it is null, or the payload of a live block no call works on. -/
def MayPass (k : Config Tid) (pointer : Ptr) : Prop :=
  pointer = none ∨ ∃ block ∈ k.live, pointer = blockPayload (some block) ∧ k.Unused block

/-- The client's side of the contract. -/
def Allowed (k : Config Tid) : Call → Prop
  | .realloc pointer _ => k.MayPass pointer
  | .free pointer => k.MayPass pointer
  | _ => True

end Config

/-- `hplf_malloc` up to the choice of path. -/
def enterMalloc (s : State Tid) (t : Tid) (r : Request) : State Tid × Pc :=
  if r.size = 0 then
    (s, .idle)
  else if r.size > ptrdiffMax then
    (s.setErrno t .ENOMEM, .idle)
  else
    match sizeClassFor r.size with
    | some (c, capacity) => (s, .allocateSmall r c capacity)
    | none => (s, .allocateLarge r)

/-- The start of a call, up to its first action. -/
def enter (v : Variant) (s : State Tid) (t : Tid) : Call → Option (State Tid × Pc)
  | .malloc size => some (enterMalloc s t ⟨.malloc, size⟩)
  | .calloc count size =>
      if count = 0 ∨ size = 0 then
        some (s, .idle)
      else
        match sizeMultiply count size with
        | none => some (s.setErrno t .ENOMEM, .idle)
        | some totalSize => some (enterMalloc s t ⟨.calloc, totalSize⟩)
  | .realloc pointer size =>
      match blockFromPayload pointer with
      | none => some (enterMalloc s t ⟨.malloc, size⟩)
      | some old =>
          if size = 0 then
            some (s, .release old)
          else if size > ptrdiffMax then
            some (s.setErrno t .ENOMEM, .idle)
          else do
            let header ← s.memory.block old
            let retain ← reallocCanRetain s header size
            if retain then do
              let s ← setRequestedSize s old size
              some (s, .idle)
            else
              some (enterMalloc s t ⟨.realloc old, size⟩)
  | .free pointer =>
      match blockFromPayload pointer with
      | none => some (s, .idle)
      | some block => some (s, .release block)
  | .threadFlush =>
      match v with
      | .locked => some (s, .idle)
      | .cached =>
          match cacheCurrent s t with
          | none => some (s, .idle)
          | some d => some (s, .flush d classIndices false)
  | .threadExit =>
      match s.keyValue t with
      | none => some (s, .idle)
      | some d =>
          let s := { s with keyValue := Function.update s.keyValue t none }
          some (handToRelease (forgetDescriptor s t) d, .flush d classIndices true)

/-- The pointer an allocation returned becomes the client's; a resize copies first and then frees. -/
def deliver (k : Config Tid) (t : Tid) (r : Request) (block : Nat) : Option (Config Tid) := do
  let payload ← blockPayload (some block)
  let k := { k with live := block :: k.live }
  match r.purpose with
  | .malloc => some (k.goto t k.state .idle)
  | .calloc =>
      let m := k.state.memory.writeBytes payload r.size fun _ => some 0
      some (k.goto t { k.state with memory := m } .idle)
  | .realloc old => do
      let header ← k.state.memory.block old
      let pointer ← blockPayload (some old)
      let copySize := if header.requestedSize < r.size then header.requestedSize else r.size
      some (k.goto t (copyBytes k.state payload pointer copySize) (.release old))

/-- `hplf_free` up to its first publish. -/
def release (v : Variant) (w : World) (k : Config Tid) (t : Tid) (block : Nat) :
    Option (Config Tid) := do
  let s := k.state
  let savedErrno := s.errno t
  let header ← s.memory.block block
  let k := { k with live := k.live.erase block }
  match header.kind with
  | .large =>
      let mapping : Mapping := ⟨header.owner.mapping.1, header.owner.mapping.2⟩
      match osUnmap w s t mapping with
      | (s, some _) => some (k.goto t (s.setErrno t savedErrno) .idle)
      | (s, none) =>
          some { k.goto t (s.setErrno t savedErrno) .idle with leaked := mapping :: k.leaked }
  | .small => do
      let slab ← s.memory.slab header.owner.slab
      match v with
      | .locked => do
          let s ← freeSmallLocked s block slab.classIndex
          some (k.goto t (s.setErrno t savedErrno) .idle)
      | .cached => do
          let (s, cache) ← cacheAcquire w s t
          let (s, eviction) ← storeFreed s cache block slab.classIndex header.capacity
          match eviction with
          | some list => some (k.goto t s (.publishFreed slab.classIndex list savedErrno))
          | none => do
              let d ← cache
              some (k.goto t s (.evict slab.classIndex d savedErrno))

/-- The next action of thread `t`; `none` if it has none, waits for the mutex, or faults. -/
def advance (v : Variant) (w : World) (k : Config Tid) (t : Tid) : Option (Config Tid) :=
  let s := k.state
  match k.pc t with
  | .idle => none
  | .allocateSmall r c capacity =>
      match v with
      | .locked => do
          let (s, pointer) ← allocateSmallLocked w s t r.size c capacity
          match blockFromPayload pointer with
          | none => some (k.goto t s .idle)
          | some block => some (k.goto t s (.deliver r block))
      | .cached => do
          let (s, cache) ← cacheAcquire w s t
          let (s, block) ← takeLocal s cache c capacity
          match block with
          | none => some (k.goto t s (.detach r c capacity cache))
          | some a => do
              let s ← setRequestedSize s a r.size
              some (k.goto t s (.deliver r a))
  | .detach r c capacity cache => do
      let (s, available) ← transferMutexDetach s c
      if available.first ≠ none then
        some (k.goto t s (.refill r c capacity cache available))
      else
        some (k.goto t s (.lockRegistry r c capacity cache))
  | .lockRegistry r c capacity cache =>
      if k.registryOwner = none then
        some { k.goto t s (.recheck r c capacity cache) with registryOwner := some t }
      else
        none
  | .recheck r c capacity cache => do
      let (s, available) ← transferMutexDetach s c
      if available.first ≠ none then
        some (k.goto t s (.unlockRegistry r c capacity cache available))
      else
        some (k.goto t s (.createSlab r c capacity cache))
  | .createSlab r c capacity cache => do
      let (s, created) ← createRegisteredSlab w s t c capacity
      match created with
      | none => some { k.goto t (s.setErrno t .ENOMEM) .idle with registryOwner := none }
      | some available => some (k.goto t s (.unlockRegistry r c capacity cache available))
  | .unlockRegistry r c capacity cache available =>
      some { k.goto t s (.refill r c capacity cache available) with registryOwner := none }
  | .refill r c capacity cache available => do
      let (s, available, block) ← refillAndTake s cache c capacity available
      some (k.goto t s (.publishRest r c available block))
  | .publishRest r c available block => do
      let s ← transferMutexPublish s c available
      match block with
      | none => some (k.goto t (s.setErrno t .ENOMEM) .idle)
      | some a => do
          let s ← setRequestedSize s a r.size
          some (k.goto t s (.deliver r a))
  | .allocateLarge r =>
      match allocateLarge w s t r.size with
      | (s, pointer) =>
          match blockFromPayload pointer with
          | none => some (k.goto t s .idle)
          | some block => some (k.goto t s (.deliver r block))
  | .deliver r block => deliver k t r block
  | .release block => release v w k t block
  | .publishFreed c list savedErrno => do
      let s ← transferMutexPublish s c list
      some (k.goto t (s.setErrno t savedErrno) .idle)
  | .evict c d savedErrno => do
      let (s, eviction) ← withCache s d fun m cache => threadCacheExtractEviction m cache c
      match eviction with
      | none => some (k.goto t (s.setErrno t savedErrno) .idle)
      | some (evictionClass, list) =>
          some (k.goto t s (.publishEviction c d evictionClass list savedErrno))
  | .publishEviction c d evictionClass list savedErrno => do
      let s ← transferMutexPublish s evictionClass list
      some (k.goto t s (.evict c d savedErrno))
  | .flush d [] teardown =>
      some (k.goto t s (if teardown then .unmapDescriptor d else .idle))
  | .flush d (c :: rest) teardown => do
      let (s, output) ← flushExtract s d c
      match output with
      | none => some (k.goto t s (.flush d rest teardown))
      | some list => some (k.goto t s (.publishFlush d c list rest teardown))
  | .publishFlush d c list rest teardown => do
      let s ← transferMutexPublish s c list
      some (k.goto t s (.flush d rest teardown))
  | .unmapDescriptor d => do
      let s ← unmapDescriptor w s t d
      some (k.goto t s .idle)

/-- One step of the whole system; the observed steps are the calls and the trims. -/
inductive Step (v : Variant) (w : World) : Config Tid → Option (Tid × Option Call) → Config Tid → Prop
  | call {k : Config Tid} {t : Tid} {call : Call} {s : State Tid} {pc : Pc}
      (hidle : k.pc t = .idle) (hallowed : k.Allowed call) (henter : enter v k.state t call = some (s, pc)) :
      Step v w k (some (t, some call))
        { k.goto t s pc with lastCall := Function.update k.lastCall t (some call) }
  | advance {k k' : Config Tid} {t : Tid} (hadvance : advance v w k t = some k') :
      Step v w k none k'
  | write {k : Config Tid} {block : Nat} {header : Block} {offset : Nat} {value : UInt8} {p : Nat}
      (hlive : block ∈ k.live) (hunused : k.Unused block)
      (hheader : k.state.memory.block block = some header) (hoffset : offset < header.requestedSize)
      (hpayload : blockPayload (some block) = some p) :
      Step v w k none
        { k with state :=
          { k.state with memory := k.state.memory.writeBytes (p + offset) 1 fun _ => some value } }
  | trim {k : Config Tid} {t : Tid} {s : State Tid} {released : Nat} (hquiescent : k.Quiescent)
      (htrim : trimQuiescent v w k.state t = some (s, released)) :
      Step v w k (some (t, none)) { k with state := s }

def machine (Tid : Type) [DecidableEq Tid] (v : Variant) (w : World) :
    Lib.System (Config Tid) (Tid × Option Call) where
  init k := k = .initial
  step := Step v w

end Hplf
