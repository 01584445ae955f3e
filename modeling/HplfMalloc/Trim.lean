import HplfMalloc.Allocator

/-!
# Trimming

`hplf_trim_quiescent` and its helpers. The registry is edited through a pointer to a link, which is either
the registry head or the `next` field of a slab; the free lists are the shared ones of the locked build or
the detached transfer lists of the cached one.
-/

namespace Hplf

variable {Tid : Type} [DecidableEq Tid]

/-- `struct hplf_slab **registry_link`. -/
inductive RegistryLink
  | head
  | next (slab : Nat)
  deriving DecidableEq, Repr

/-- `*registry_link`. -/
def readLink (s : State Tid) : RegistryLink → Option Ptr
  | .head => some s.slabs
  | .next slab => (s.memory.slab slab).map Slab.next

/-- `*registry_link = target`. -/
def writeLink (s : State Tid) (link : RegistryLink) (target : Ptr) : Option (State Tid) :=
  match link with
  | .head => some { s with slabs := target }
  | .next slab => do
      let m ← s.memory.setSlabNext slab target
      some { s with memory := m }

/-- The loop of `hplf_slab_free_count`. -/
def slabFreeCountLoop (m : Memory) (slab : Nat) : Nat → Ptr → Nat → Option Nat
  | _, none, count => some count
  | 0, some _, _ => none
  | fuel + 1, some block, count => do
      let header ← m.block block
      slabFreeCountLoop m slab fuel header.nextFree
        (if header.owner.slab = slab then count + 1 else count)

def slabFreeCount (m : Memory) (slab : Nat) (freeLists : ClassIndex → Ptr) : Option Nat := do
  let header ← m.slab slab
  slabFreeCountLoop m slab addressSpace (freeLists header.classIndex) 0

/-- The loop of `hplf_detach_slab_blocks`, with the two destinations built so far. -/
def detachSlabBlocksLoop (slab : Nat) : Nat → Memory → Ptr → Ptr → Ptr → Option (Memory × Ptr × Ptr)
  | _, m, none, removed, remaining => some (m, removed, remaining)
  | 0, _, some _, _, _ => none
  | fuel + 1, m, some block, removed, remaining => do
      let header ← m.block block
      if header.owner.slab = slab then do
        let m ← m.setNextFree block removed
        detachSlabBlocksLoop slab fuel m header.nextFree (some block) remaining
      else do
        let m ← m.setNextFree block remaining
        detachSlabBlocksLoop slab fuel m header.nextFree removed (some block)

/-- Returns the storage, the removed chain and the remaining chain. -/
def detachSlabBlocks (m : Memory) (slab : Nat) (freeLists : ClassIndex → Ptr) :
    Option (Memory × Ptr × Ptr) := do
  let header ← m.slab slab
  detachSlabBlocksLoop slab addressSpace m (freeLists header.classIndex) none none

/-- The loop of `hplf_join_free_lists` that finds the tail. -/
def chainTail (m : Memory) : Nat → Nat → Option Nat
  | 0, _ => none
  | fuel + 1, tail => do
      let next ← m.next tail
      match next with
      | none => some tail
      | some node => chainTail m fuel node

def joinFreeLists (m : Memory) (first second : Ptr) : Option (Memory × Ptr) :=
  match first with
  | none => some (m, second)
  | some a => do
      let tail ← chainTail m addressSpace a
      let m ← m.setNextFree tail second
      some (m, first)

/-- The registry loop of `hplf_trim_quiescent`. -/
def trimLoop (w : World) (t : Tid) :
    Nat → State Tid → (ClassIndex → Ptr) → RegistryLink → Nat →
      Option (State Tid × (ClassIndex → Ptr) × Nat)
  | 0, _, _, _, _ => none
  | fuel + 1, s, freeLists, link, releasedTotal => do
      let current ← readLink s link
      match current with
      | none => some (s, freeLists, releasedTotal)
      | some slab => do
          let header ← s.memory.slab slab
          let count ← slabFreeCount s.memory slab freeLists
          if count ≠ header.slotCount then
            trimLoop w t fuel s freeLists (.next slab) releasedTotal
          else do
            let mapping : Mapping := ⟨header.mappingBase, header.mappingLength⟩
            let (m, removed, remaining) ← detachSlabBlocks s.memory slab freeLists
            let freeLists := Function.update freeLists header.classIndex remaining
            let s ← writeLink { s with memory := m } link header.next
            match osUnmap w s t mapping with
            | (s, some releasedBytes) =>
                -- The slab and its blocks are gone; the link already skips them.
                let total := (sizeAdd releasedTotal releasedBytes).getD sizeMax
                trimLoop w t fuel s freeLists link total
            | (s, none) => do
                -- A failed unmap retains ownership, so both structures are restored.
                let (m, joined) ← joinFreeLists s.memory removed remaining
                let freeLists := Function.update freeLists header.classIndex joined
                let m ← m.setSlabNext slab header.next
                let s ← writeLink { s with memory := m } link (some slab)
                trimLoop w t fuel s freeLists (.next slab) releasedTotal

/-- Detaches every transfer list in class order. -/
def detachAll : List ClassIndex → State Tid → (ClassIndex → Ptr) →
    Option (State Tid × (ClassIndex → Ptr))
  | [], s, freeLists => some (s, freeLists)
  | c :: rest, s, freeLists => do
      let (s, list) ← transferMutexDetach s c
      detachAll rest s (Function.update freeLists c list.first)

/-- Rebuilds the descriptor of every list and publishes it, in class order. -/
def publishAll (freeLists : ClassIndex → Ptr) : List ClassIndex → State Tid → Option (State Tid)
  | [], s => some s
  | c :: rest, s => do
      let list ← transferListFromChain s.memory (freeLists c)
      let s ← transferMutexPublish s c list
      publishAll freeLists rest s

/-- Returns the number of bytes released. -/
def trimQuiescent (v : Variant) (w : World) (s : State Tid) (t : Tid) :
    Option (State Tid × Nat) :=
  match v with
  | .locked => do
      let (s, freeLists, releasedTotal) ← trimLoop w t addressSpace s s.sharedHeads .head 0
      some ({ s with sharedHeads := freeLists }, releasedTotal)
  | .cached => do
      let (s, freeLists) ← detachAll classIndices s fun _ => none
      let (s, freeLists, releasedTotal) ← trimLoop w t addressSpace s freeLists .head 0
      let s ← publishAll freeLists classIndices s
      some (s, releasedTotal)

end Hplf
