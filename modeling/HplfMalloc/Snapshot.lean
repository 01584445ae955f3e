import HplfMalloc.Lifecycle
import HplfMalloc.TransferMutex

/-!
# The consistency oracle

`hplf_cached_test_snapshot`, which the tests of the cached build call between operations. It detaches every
transfer list, compares the lists of the calling thread and the transfer lists with the registry and with each
other, and publishes what it detached. A condition of several disjuncts is evaluated from the left, and no
further than needed.
-/

namespace Hplf

variable {Tid : Type}

/-- `struct hplf_cached_test_snapshot`. -/
structure CachedTestSnapshot where
  slabCount : Nat
  totalSlots : Nat
  sharedFreeBlocks : Nat
  currentLocalBlocks : Nat
  currentLocalBytes : Nat
  liveBlocks : Nat
  cacheCountsMatch : Bool
  transferCountsMatch : Bool
  uniqueFreeBlocks : Bool
  deriving DecidableEq, Repr

/-- The loop of `hplf_cached_block_belongs_to_registry` over the slabs. -/
def belongsLoop (m : Memory) (block : Nat) : Nat → Ptr → Option Bool
  | _, none => some false
  | 0, some _ => none
  | fuel + 1, some slab => do
      let header ← m.slab slab
      let b ← m.block block
      let first := sizeT (slab + header.firstSlotOffset)
      if b.owner.slab ≠ slab ∨ block < first then
        belongsLoop m block fuel header.next
      else if header.slotStride = 0 then
        -- A remainder by zero is a fault.
        none
      else
        let offset := block - first
        if offset % header.slotStride = 0 ∧ offset / header.slotStride < header.slotCount then
          some true
        else
          belongsLoop m block fuel header.next

def cachedBlockBelongsToRegistry (s : State Tid) (block : Nat) : Option Bool :=
  belongsLoop s.memory block addressSpace s.slabs

/-- The inner loop of `hplf_cached_block_occurrences`. -/
def occurrencesLoop (m : Memory) (candidate : Nat) : Nat → Ptr → Nat → Option Nat
  | _, none, occurrences => some occurrences
  | 0, some _, _ => none
  | fuel + 1, some block, occurrences => do
      let next ← m.next block
      occurrencesLoop m candidate fuel next
        (if block = candidate then occurrences + 1 else occurrences)

/-- The outer loop over the remaining classes. -/
def occurrencesIn (m : Memory) (candidate : Nat) (heads : ClassIndex → Ptr) :
    List ClassIndex → Nat → Option Nat
  | [], occurrences => some occurrences
  | c :: rest, occurrences => do
      let occurrences ← occurrencesLoop m candidate addressSpace (heads c) occurrences
      occurrencesIn m candidate heads rest occurrences

def cachedBlockOccurrences (m : Memory) (candidate : Nat) (heads : ClassIndex → Ptr) : Option Nat :=
  occurrencesIn m candidate heads classIndices 0

/-- What is asked of a listed block first: its kind, its slot and the class of the slab it names. -/
def listedBlockValid (s : State Tid) (classIndex : ClassIndex) (block : Nat) : Option Bool := do
  let b ← s.memory.block block
  if b.kind ≠ .small then
    some false
  else do
    let belongs ← cachedBlockBelongsToRegistry s block
    if !belongs then
      some false
    else do
      let header ← s.memory.slab b.owner.slab
      some (header.classIndex = classIndex)

/-- The condition on a block of the calling thread, negated. -/
def localBlockValid (s : State Tid) (heads localHeads : ClassIndex → Ptr) (classIndex : ClassIndex)
    (block : Nat) : Option Bool := do
  let valid ← listedBlockValid s classIndex block
  if !valid then
    some false
  else do
    let occurrences ← cachedBlockOccurrences s.memory block heads
    if occurrences ≠ 0 then
      some false
    else do
      let occurrences ← cachedBlockOccurrences s.memory block localHeads
      some (occurrences = 1)

/-- The condition on a block of a transfer list, negated. -/
def sharedBlockValid (s : State Tid) (heads : ClassIndex → Ptr) (classIndex : ClassIndex)
    (block : Nat) : Option Bool := do
  let valid ← listedBlockValid s classIndex block
  if !valid then
    some false
  else do
    let occurrences ← cachedBlockOccurrences s.memory block heads
    some (occurrences = 1)

/-- The two loops over the blocks of a class, which differ in the condition. Returns the number of blocks
traversed, which only the second loop counts, and `unique_free_blocks`. -/
def inspectLoop (m : Memory) (valid : Nat → Option Bool) : Nat → Ptr → Nat → Bool → Option (Nat × Bool)
  | _, none, traversed, unique => some (traversed, unique)
  | 0, some _, _, _ => none
  | fuel + 1, some block, traversed, unique => do
      let ok ← valid block
      let next ← m.next block
      inspectLoop m valid fuel next (traversed + 1) (if ok then unique else false)

/-- The loop over the remaining classes. -/
def inspectClasses (s : State Tid) (lists : ClassIndex → TransferList) (localHeads : ClassIndex → Ptr) :
    List ClassIndex → CachedTestSnapshot → Option CachedTestSnapshot
  | [], snapshot => some snapshot
  | c :: rest, snapshot => do
      let heads := fun e => (lists e).first
      let (_, unique) ← inspectLoop s.memory (localBlockValid s heads localHeads c) addressSpace
        (localHeads c) 0 snapshot.uniqueFreeBlocks
      let (traversed, unique) ← inspectLoop s.memory (sharedBlockValid s heads c) addressSpace
        (heads c) 0 unique
      inspectClasses s lists localHeads rest
        { snapshot with
          uniqueFreeBlocks := unique
          transferCountsMatch := if traversed ≠ (lists c).count then false else snapshot.transferCountsMatch
          sharedFreeBlocks := sizeT (snapshot.sharedFreeBlocks + traversed) }

/-- The loop over the registry: the number of slabs and the sum of their slots. -/
def registryTotals (m : Memory) : Nat → Ptr → Nat → Nat → Option (Nat × Nat)
  | _, none, slabCount, totalSlots => some (slabCount, totalSlots)
  | 0, some _, _, _ => none
  | fuel + 1, some slab, slabCount, totalSlots => do
      let header ← m.slab slab
      registryTotals m fuel header.next (slabCount + 1) (sizeT (totalSlots + header.slotCount))

/-- Detaches the transfer lists of the remaining classes into `lists`. -/
def detachLists : List ClassIndex → State Tid → (ClassIndex → TransferList) →
    Option (State Tid × (ClassIndex → TransferList))
  | [], s, lists => some (s, lists)
  | c :: rest, s, lists => do
      let (s, list) ← transferMutexDetach s c
      detachLists rest s (Function.update lists c list)

/-- Publishes the lists of the remaining classes. -/
def publishLists (lists : ClassIndex → TransferList) : List ClassIndex → State Tid → Option (State Tid)
  | [], s => some s
  | c :: rest, s => do
      let s ← transferMutexPublish s c (lists c)
      publishLists lists rest s

/-- The calling thread's part: its snapshot, the heads of its lists and whether its counters match. -/
def localSnapshot (s : State Tid) (t : Tid) : Option (ThreadCacheSnapshot × (ClassIndex → Ptr) × Bool) :=
  match cacheCurrent s t with
  | none => some (⟨fun _ => 0, fun _ => 0, 0, 0⟩, fun _ => none, true)
  | some d => do
      let descriptor ← s.descriptor d
      let (snapshot, countsMatch) ← threadCacheSnapshot s.memory descriptor.cache
      some (snapshot, descriptor.cache.heads, countsMatch)

/-- The comparison of the totals and the number of live blocks. -/
def CachedTestSnapshot.settle (snapshot : CachedTestSnapshot) : CachedTestSnapshot × Bool :=
  if snapshot.sharedFreeBlocks > snapshot.totalSlots ∨
      snapshot.currentLocalBlocks > sizeSub snapshot.totalSlots snapshot.sharedFreeBlocks then
    ({ snapshot with uniqueFreeBlocks := false }, false)
  else
    ({ snapshot with
      liveBlocks := sizeSub (sizeSub snapshot.totalSlots snapshot.sharedFreeBlocks)
        snapshot.currentLocalBlocks }, true)

/-- Returns what is written to the caller's structure and the result. -/
def cachedTestSnapshot (s : State Tid) (t : Tid) : Option (State Tid × CachedTestSnapshot × Bool) := do
  let (cached, localHeads, countsMatch) ← localSnapshot s t
  let (s, lists) ← detachLists classIndices s fun _ => .clear
  let (slabCount, totalSlots) ← registryTotals s.memory addressSpace s.slabs 0 0
  let snapshot ← inspectClasses s lists localHeads classIndices
    { slabCount, totalSlots
      sharedFreeBlocks := 0
      currentLocalBlocks := classIndices.foldl (fun blocks c => sizeT (blocks + cached.counts c)) 0
      currentLocalBytes := cached.totalSlotBytes
      liveBlocks := 0
      cacheCountsMatch := countsMatch
      transferCountsMatch := true
      uniqueFreeBlocks := true }
  let (snapshot, valid) := snapshot.settle
  let s ← publishLists lists classIndices s
  some (s, snapshot, valid && snapshot.cacheCountsMatch && snapshot.transferCountsMatch
    && snapshot.uniqueFreeBlocks)

end Hplf
