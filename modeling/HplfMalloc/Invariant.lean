import HplfMalloc.Machine
import HplfMalloc.Lib.Placement
import HplfMalloc.Proof.SlabLemmas
import HplfMalloc.Proof.ThreadCacheLemmas

/-!
# The invariant of the running allocator

Every block lies in exactly one place: with a client, on a shared list, in the cache of one thread, or in
the hands of one call. The invariant says where the lists of these places are in storage, that each list
holds blocks of its class only, that free blocks have requested size zero and live ones a size of their
class, and that the registered slabs, the large blocks and the leaked mappings account for all storage.
-/

namespace Hplf

open Lib

variable {Tid : Type}

/-- The places a block can be in. -/
inductive Place (Tid : Type)
  | live
  | shared (c : ClassIndex)
  | cache (t : Tid) (c : ClassIndex)
  | inflight (t : Tid)
  deriving DecidableEq

/-! ### Storage -/

/-- The mapping recorded in the prefix of a large block. -/
def Block.mapping (b : Block) : Mapping := ⟨b.owner.mapping.1, b.owner.mapping.2⟩

def slabMappings (m : Memory) (bases : List Nat) : List Mapping :=
  bases.filterMap fun base => (m.slab base).map Slab.mapping

def largeMappings (m : Memory) (larges : List Nat) : List Mapping :=
  larges.filterMap fun a => (m.block a).map Block.mapping

/-- The prefix of a slot of the slab at `base`. -/
structure Block.SlotOf (b : Block) (base : Nat) (h : Slab) : Prop where
  kind : b.kind = .small
  owner : b.owner = .small base
  capacity : b.capacity = h.classCapacity

/-- The prefix of a large block at `a`: it owns the mapping it starts. -/
structure Block.LargeAt (b : Block) (a : Nat) : Prop where
  kind : b.kind = .large
  owner : b.owner = .large a (sizeofBlock + b.capacity)

/-- A region the process may own. -/
structure Mapping.Valid (r : Mapping) : Prop where
  base_pos : 0 < r.base
  aligned : payloadAlignment ∣ r.base
  length_pos : 0 < r.length
  fits : r.base + r.length ≤ addressSpace

/-- The registry, the slabs in it with their slots, the large blocks, and the account of all mappings. -/
structure Storage (s : State Tid) (leaked : List Mapping) (bases larges : List Nat) : Prop where
  registry : Chain s.memory.slabNext s.slabs bases
  slab : ∀ base ∈ bases, ∃ h, s.memory.slab base = some h ∧ h.WellFormed base
  slot : ∀ base ∈ bases, ∀ h, s.memory.slab base = some h → ∀ a ∈ h.slots base,
    ∃ b, s.memory.block a = some b ∧ b.SlotOf base h
  large : ∀ a ∈ larges, ∃ b, s.memory.block a = some b ∧ b.LargeAt a
  ledger : s.mapped.Perm (slabMappings s.memory bases ++ largeMappings s.memory larges ++ leaked)
  apart : s.mappings.Pairwise Mapping.Apart
  valid : ∀ r ∈ s.mappings, r.Valid

/-- `a` is a slot of a registered slab of class `c`. -/
def InClass (m : Memory) (bases : List Nat) (c : ClassIndex) (a : Nat) : Prop :=
  ∃ base ∈ bases, ∃ h, m.slab base = some h ∧ h.classIndex = c ∧ a ∈ h.slots base

/-- A free block of class `c`. -/
def FreeIn (m : Memory) (bases : List Nat) (c : ClassIndex) (a : Nat) : Prop :=
  InClass m bases c a ∧ m.size a = some 0

/-- A block handed out for `n` bytes: a slot of the class serving `n`, or a large block that can hold
them. -/
def Sized (m : Memory) (bases larges : List Nat) (n a : Nat) : Prop :=
  m.size a = some n ∧
    ((∃ c, InClass m bases c a ∧ sizeClassFor n = some (c, sizeClassCapacities c)) ∨
      (a ∈ larges ∧ maxSmallSize < n ∧ ∃ b, m.block a = some b ∧ n ≤ b.capacity))

/-! ### What a program counter says -/

namespace Pc

/-- The class of the list a call holds. -/
def listClass : Pc → Option ClassIndex
  | .unlockRegistry _ c _ _ _ | .refill _ c _ _ _ | .publishRest _ c _ _ | .publishFreed c _ _
  | .publishEviction _ _ c _ _ | .publishFlush _ c _ _ _ => some c
  | _ => none

/-- The blocks in the hands of a call. -/
def Carries (m : Memory) : Pc → List Nat → Prop
  | .unlockRegistry _ _ _ _ available, xs | .refill _ _ _ _ available, xs =>
      available.Owns m xs ∧ xs ≠ []
  | .publishRest _ _ available block, xs => ∃ a ys, block = some a ∧ xs = a :: ys ∧ available.Owns m ys
  | .deliver _ block, xs => xs = [block]
  | .publishFreed _ list _, xs | .publishEviction _ _ _ list _, xs | .publishFlush _ _ list _ _, xs =>
      list.Owns m xs
  | _, xs => xs = []

/-- What is known of a block in the hands of a call. -/
def Admits (m : Memory) (bases larges : List Nat) (pc : Pc) (a : Nat) : Prop :=
  match pc with
  | .deliver r _ => Sized m bases larges r.size a
  | _ => ∃ c, pc.listClass = some c ∧ FreeIn m bases c a

/-- The descriptor a teardown is working on. -/
def teardown : Pc → Ptr
  | .flush d _ true | .publishFlush d _ _ _ true | .unmapDescriptor d => some d
  | _ => none

/-- The class whose excess the call is evicting. -/
def evicting : Pc → Option ClassIndex
  | .evict c _ _ | .publishEviction c _ _ _ _ => some c
  | _ => none

/-- A flush has emptied the cache list of this class. -/
def Emptied : Pc → ClassIndex → Prop
  | .flush _ rest _, c | .publishFlush _ _ _ rest _, c => c ∉ rest
  | .unmapDescriptor _, _ => True
  | _, _ => False

/-- The call holds the registry mutex. -/
def InRegistry : Pc → Prop
  | .recheck _ _ _ _ | .createSlab _ _ _ _ | .unlockRegistry _ _ _ _ _ => True
  | _ => False

/-- The local variables agree with the request and with the thread's cache. -/
def Fits (s : State Tid) (t : Tid) : Pc → Prop
  | .allocateSmall r c capacity => sizeClassFor r.size = some (c, capacity)
  | .detach r c capacity cache | .lockRegistry r c capacity cache | .recheck r c capacity cache
  | .createSlab r c capacity cache | .unlockRegistry r c capacity cache _
  | .refill r c capacity cache _ =>
      sizeClassFor r.size = some (c, capacity) ∧ cache = cacheCurrent s t
  | .publishRest r c _ _ => ∃ capacity, sizeClassFor r.size = some (c, capacity)
  | .allocateLarge r => maxSmallSize < r.size ∧ r.size ≤ ptrdiffMax
  | .evict _ d _ | .publishEviction _ d _ _ _ => cacheCurrent s t = some d
  | .flush d _ false | .publishFlush d _ _ _ false => cacheCurrent s t = some d
  | .flush _ _ true | .publishFlush _ _ _ _ true | .unmapDescriptor _ =>
      s.currentState t = .uncached
  | _ => True

end Pc

variable [DecidableEq Tid]

/-- The descriptor whose lists belong to thread `t`: its current one, or the one it is tearing down. -/
def Config.cacheOf (k : Config Tid) (t : Tid) : Ptr :=
  match (k.pc t).teardown with
  | some d => some d
  | none => cacheCurrent k.state t

/-- The list at a place, as the configuration represents it. -/
def Holds (k : Config Tid) : Place Tid → List Nat → Prop
  | .live, xs => xs = k.live
  | .shared c, xs => Chain k.state.memory.next (k.state.sharedHeads c) xs
  | .cache t c, xs =>
      match k.cacheOf t with
      | none => xs = []
      | some d => ∃ descriptor, k.state.descriptor d = some descriptor ∧
          Chain k.state.memory.next (descriptor.cache.heads c) xs ∧
          descriptor.cache.counts c = xs.length
  | .inflight t, xs => (k.pc t).Carries k.state.memory xs

/-- What is known of a block at a place. -/
def Admits (k : Config Tid) (bases larges : List Nat) : Place Tid → Nat → Prop
  | .live, a => ∃ n, Sized k.state.memory bases larges n a
  | .shared c, a | .cache _ c, a => FreeIn k.state.memory bases c a
  | .inflight t, a => (k.pc t).Admits k.state.memory bases larges a

/-! ### Threads -/

/-- The thread-local variables of `thread_cache_lifecycle.c` agree. -/
def LifecycleOk (s : State Tid) (t : Tid) : Prop :=
  match s.currentState t with
  | .active => ∃ d, s.currentDescriptor t = some d ∧ s.keyValue t = some d
  | _ => s.currentDescriptor t = none ∧ s.keyValue t = none

/-- Both caps hold except for the class that is being evicted. -/
def CapsFor (pc : Pc) (cache : ThreadCache) : Prop :=
  match pc.evicting with
  | none => cache.WithinCaps
  | some c => (∀ e, e ≠ c → cache.counts e ≤ cacheClassBlockLimit) ∧
      cache.totalSlotBytes ≤ cacheTotalBytesLimit + maxSmallSize

structure DescriptorOk (s : State Tid) (pc : Pc) (d : Nat) (descriptor : CacheDescriptor) : Prop where
  mapped : s.descriptor d = some descriptor
  base : descriptor.mappingBase = d
  region : ⟨d, descriptor.mappingLength⟩ ∈ s.descriptorMapped
  sound : descriptor.cache.Sound
  caps : CapsFor pc descriptor.cache

structure ThreadOk (k : Config Tid) (t : Tid) : Prop where
  lifecycle : LifecycleOk k.state t
  descriptor : ∀ d, k.cacheOf t = some d → ∃ descriptor, DescriptorOk k.state (k.pc t) d descriptor
  fits : (k.pc t).Fits k.state t

/-- **The invariant**, with the registry order, the large blocks and the contents of every place. -/
structure Inv (k : Config Tid) (bases larges : List Nat) (g : Place Tid → List Nat) : Prop where
  storage : Storage k.state k.leaked bases larges
  placed : Placed g
  population : ∀ a, (∃ p, a ∈ g p) ↔ (∃ c, InClass k.state.memory bases c a) ∨ a ∈ larges
  holds : ∀ p, Holds k p (g p)
  admits : ∀ p, ∀ a ∈ g p, Admits k bases larges p a
  emptied : ∀ t c, (k.pc t).Emptied c → g (.cache t c) = []
  thread : ∀ t, ThreadOk k t
  owner_unique : ∀ t u d, k.cacheOf t = some d → k.cacheOf u = some d → t = u
  argument_live : ∀ t a, (k.pc t).argument = some a → a ∈ k.live
  argument_unique : ∀ t u a, (k.pc t).argument = some a → (k.pc u).argument = some a → t = u
  registry : ∀ t, (k.pc t).InRegistry ↔ k.registryOwner = some t

end Hplf
