import HplfMalloc.TransferList

/-!
# Thread caches

The operations of `thread_cache.c` on one thread's cache and the storage of its blocks. Every size that
the source subtracts from is reduced as `size_t`, so that exceeding a cap would show as a wrap.
-/

namespace Hplf

/-- `HPLF_CACHE_CLASS_BLOCK_LIMIT`. -/
def cacheClassBlockLimit : Nat := 32

/-- `HPLF_CACHE_TOTAL_BYTES_LIMIT`. -/
def cacheTotalBytesLimit : Nat := 64 * 1024

/-- `HPLF_CACHE_REFILL_LIMIT`. -/
def cacheRefillLimit : Nat := 16

structure ThreadCache where
  heads : ClassIndex → Ptr
  counts : ClassIndex → Nat
  totalSlotBytes : Nat

/-- `hplf_thread_cache_initialize`. -/
def threadCacheInitialize : ThreadCache := ⟨fun _ => none, fun _ => 0, 0⟩

def threadCacheTake (m : Memory) (cache : ThreadCache) (classIndex : ClassIndex)
    (classCapacity : Nat) : Option (Memory × ThreadCache × Ptr) :=
  match cache.heads classIndex with
  | none => some (m, cache, none)
  | some block => do
      let rest ← m.next block
      let m ← m.setNextFree block none
      let cache :=
        { heads := Function.update cache.heads classIndex rest
          counts := Function.update cache.counts classIndex (sizeSub (cache.counts classIndex) 1)
          totalSlotBytes := sizeSub cache.totalSlotBytes classCapacity }
      some (m, cache, some block)

def threadCacheStore (m : Memory) (cache : ThreadCache) (classIndex : ClassIndex)
    (classCapacity : Nat) (block : Nat) : Option (Memory × ThreadCache) := do
  let m ← m.setNextFree block (cache.heads classIndex)
  let cache :=
    { heads := Function.update cache.heads classIndex (some block)
      counts := Function.update cache.counts classIndex (cache.counts classIndex + 1)
      totalSlotBytes := cache.totalSlotBytes + classCapacity }
  some (m, cache)

/-- The source clears `list` at the end; the caller here drops it. -/
def threadCacheRestore (m : Memory) (cache : ThreadCache) (classIndex : ClassIndex)
    (classCapacity : Nat) (list : TransferList) : Option (Memory × ThreadCache) :=
  match list.first with
  | none => some (m, cache)
  | some first => do
      let last ← list.last
      let m ← m.setNextFree last (cache.heads classIndex)
      let cache :=
        { heads := Function.update cache.heads classIndex (some first)
          counts := Function.update cache.counts classIndex (cache.counts classIndex + list.count)
          totalSlotBytes := cache.totalSlotBytes + list.count * classCapacity }
      some (m, cache)

/-- The number of blocks a refill accepts at most. -/
def refillLimit (cache : ThreadCache) (classIndex : ClassIndex) (classCapacity : Nat) : Nat :=
  let classSpace := sizeSub cacheClassBlockLimit (cache.counts classIndex)
  let byteSpace := sizeSub cacheTotalBytesLimit cache.totalSlotBytes / classCapacity
  let limit := cacheRefillLimit
  let limit := if limit > classSpace then classSpace else limit
  if limit > byteSpace then byteSpace else limit

def threadCacheRefill (m : Memory) (cache : ThreadCache) (classIndex : ClassIndex)
    (classCapacity : Nat) (available : TransferList) :
    Option (Memory × ThreadCache × TransferList) := do
  let (m, available, accepted) ←
    transferListTakePrefix m available (refillLimit cache classIndex classCapacity)
  let (m, cache) ← threadCacheRestore m cache classIndex classCapacity accepted
  some (m, cache, available)

/-- The inner option is `none` where the source returns `false`. The descriptor it splits has a null
tail: the cache does not keep one. -/
def threadCacheExtractClass (m : Memory) (cache : ThreadCache) (classIndex : ClassIndex)
    (maximumCount : Nat) : Option (Memory × ThreadCache × Option TransferList) :=
  match sizeClassCapacity classIndex.val with
  | none => some (m, cache, none)
  | some classCapacity =>
      if maximumCount = 0 ∨ cache.heads classIndex = none then
        some (m, cache, none)
      else do
        let available : TransferList :=
          { first := cache.heads classIndex, last := none, count := cache.counts classIndex }
        let (m, available, output) ← transferListTakePrefix m available maximumCount
        let cache :=
          { heads := Function.update cache.heads classIndex available.first
            counts := Function.update cache.counts classIndex
              (sizeSub (cache.counts classIndex) output.count)
            totalSlotBytes := sizeSub cache.totalSlotBytes (output.count * classCapacity) }
        some (m, cache, some output)

/-- `hplf_thread_cache_extract_class` with the class it was asked for, as `class_output` reports it. -/
def extractLabelled (m : Memory) (cache : ThreadCache) (classIndex : ClassIndex)
    (maximumCount : Nat) : Option (Memory × ThreadCache × Option (ClassIndex × TransferList)) := do
  let (m, cache, output) ← threadCacheExtractClass m cache classIndex maximumCount
  some (m, cache, output.map fun list => (classIndex, list))

def threadCacheExtractEviction (m : Memory) (cache : ThreadCache) (currentClass : ClassIndex) :
    Option (Memory × ThreadCache × Option (ClassIndex × TransferList)) :=
  if cache.counts currentClass > cacheClassBlockLimit then
    extractLabelled m cache currentClass
      (sizeSub (cache.counts currentClass) cacheClassBlockLimit)
  else if cache.totalSlotBytes ≤ cacheTotalBytesLimit then
    some (m, cache, none)
  else if cache.counts currentClass ≠ 0 then
    extractLabelled m cache currentClass (cache.counts currentClass)
  else
    match classIndices.find? fun index => cache.counts index ≠ 0 with
    | none => some (m, cache, none)
    | some index => extractLabelled m cache index (cache.counts index)

/-- `struct hplf_thread_cache_snapshot`. -/
structure ThreadCacheSnapshot where
  counts : ClassIndex → Nat
  listLengths : ClassIndex → Nat
  totalSlotBytes : Nat
  computedSlotBytes : Nat

/-- The inner loop of `hplf_thread_cache_snapshot`; `none` is a fault or a cycle. -/
def listLengthLoop (m : Memory) : Nat → Ptr → Nat → Option Nat
  | _, none, length => some length
  | 0, some _, _ => none
  | fuel + 1, some block, length => do
      let next ← m.next block
      listLengthLoop m fuel next (length + 1)

/-- The outer loop over the remaining classes, and what is returned after it. -/
def snapshotLoop (m : Memory) (cache : ThreadCache) :
    List ClassIndex → ThreadCacheSnapshot → Bool → Option (ThreadCacheSnapshot × Bool)
  | [], snapshot, countsMatch =>
      some ({ snapshot with totalSlotBytes := cache.totalSlotBytes },
        countsMatch && snapshot.computedSlotBytes = cache.totalSlotBytes)
  | c :: rest, snapshot, countsMatch =>
      match sizeClassCapacity c.val with
      | none => some (snapshot, false)
      | some classCapacity => do
          let length ← listLengthLoop m addressSpace (cache.heads c) 0
          snapshotLoop m cache rest
            { snapshot with
              counts := Function.update snapshot.counts c (cache.counts c)
              listLengths := Function.update snapshot.listLengths c length
              computedSlotBytes := sizeT (snapshot.computedSlotBytes + length * classCapacity) }
            (countsMatch && cache.counts c = length)

def threadCacheSnapshot (m : Memory) (cache : ThreadCache) : Option (ThreadCacheSnapshot × Bool) :=
  snapshotLoop m cache classIndices ⟨fun _ => 0, fun _ => 0, 0, 0⟩ true

end Hplf
