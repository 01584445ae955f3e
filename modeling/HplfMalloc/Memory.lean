import HplfMalloc.CheckedMath
import HplfMalloc.SizeClass
import HplfMalloc.Lib.Chain

/-!
# Storage

Mapped storage holds three kinds of things: block prefixes (`struct hplf_block`), slab headers
(`struct hplf_slab`) and client bytes. An address at which nothing of a kind has been written, or whose
storage has since been unmapped or overwritten, reads as `none`, and an access through it is a fault.
Writing over a range destroys whatever header or byte lies in it, so that the separation of prefixes,
headers and payloads is something to prove about the allocator and not a property of this memory.

Sizes and alignments are those of the LP64 Linux targets the build supports.
-/

namespace Hplf

/-- A C pointer: an address, or `NULL`. -/
abbrev Ptr := Option Nat

/-- No chain of distinct nodes is longer: a traversal that has not ended after this many nodes is in a
cycle and never returns. -/
def addressSpace : Nat := 2 ^ 64

/-- `_Alignof(max_align_t)`. -/
def payloadAlignment : Nat := 16

/-- `sizeof(struct hplf_block)`. -/
def sizeofBlock : Nat := 48

/-- `sizeof(struct hplf_slab)`. -/
def sizeofSlab : Nat := 64

inductive BlockKind
  | small
  | large
  deriving DecidableEq, Repr

/-- The union `owner`: the containing slab, or the exact mapping to unmap. -/
inductive Owner
  | small (slab : Nat)
  | large (base : Nat) (length : Nat)
  deriving DecidableEq, Repr

/-- Reading `owner.small.slab`; both members of the union begin with a pointer. -/
def Owner.slab : Owner → Nat
  | .small slab => slab
  | .large base _ => base

/-- Reading `owner.large.base` and `owner.large.length`; a small owner leaves the length word unwritten. -/
def Owner.mapping : Owner → Nat × Nat
  | .small slab => (slab, 0)
  | .large base length => (base, length)

structure Block where
  owner : Owner
  nextFree : Ptr
  requestedSize : Nat
  capacity : Nat
  kind : BlockKind
  deriving DecidableEq, Repr

structure Slab where
  next : Ptr
  mappingBase : Nat
  mappingLength : Nat
  firstSlotOffset : Nat
  slotStride : Nat
  slotCount : Nat
  classCapacity : Nat
  classIndex : ClassIndex
  deriving DecidableEq, Repr

structure Memory where
  block : Nat → Option Block
  slab : Nat → Option Slab
  byte : Nat → Option UInt8

/-- Two address ranges, given by start and length, share a byte. -/
def Overlap (a n b k : Nat) : Prop := a < b + k ∧ b < a + n

instance (a n b k : Nat) : Decidable (Overlap a n b k) := inferInstanceAs (Decidable (_ ∧ _))

namespace Memory

def empty : Memory := ⟨fun _ => none, fun _ => none, fun _ => none⟩

/-- Destroys every header and byte that lies in `[lo, lo + length)`. -/
def clobber (m : Memory) (lo length : Nat) : Memory where
  block a := if Overlap a sizeofBlock lo length then none else m.block a
  slab a := if Overlap a sizeofSlab lo length then none else m.slab a
  byte a := if lo ≤ a ∧ a < lo + length then none else m.byte a

/-- Stores `value i` at `start + i` for every `i < length`. -/
def writeBytes (m : Memory) (start length : Nat) (value : Nat → Option UInt8) : Memory :=
  { m.clobber start length with
    byte := fun a => if start ≤ a ∧ a < start + length then value (a - start) else m.byte a }

/-- Anonymous mappings are zero-filled. -/
def mapRegion (m : Memory) (base length : Nat) : Memory :=
  m.writeBytes base length fun _ => some 0

/-- `*block = (struct hplf_block){...}`. -/
def initBlock (m : Memory) (a : Nat) (b : Block) : Memory :=
  let cleared := m.clobber a sizeofBlock
  { cleared with block := Function.update cleared.block a (some b) }

/-- `*slab = (struct hplf_slab){...}`. -/
def initSlab (m : Memory) (a : Nat) (header : Slab) : Memory :=
  let cleared := m.clobber a sizeofSlab
  { cleared with slab := Function.update cleared.slab a (some header) }

/-- Overwrites fields of an existing prefix; a fault if there is none. -/
def modifyBlock (m : Memory) (a : Nat) (f : Block → Block) : Option Memory :=
  (m.block a).map fun b => { m with block := Function.update m.block a (some (f b)) }

/-- `block->next_free = target`. -/
def setNextFree (m : Memory) (a : Nat) (target : Ptr) : Option Memory :=
  m.modifyBlock a fun b => { b with nextFree := target }

/-- `block->requested_size = size`. -/
def setRequestedSize (m : Memory) (a : Nat) (size : Nat) : Option Memory :=
  m.modifyBlock a fun b => { b with requestedSize := size }

/-- `slab->next = target`. -/
def setSlabNext (m : Memory) (a : Nat) (target : Ptr) : Option Memory :=
  (m.slab a).map fun header =>
    { m with slab := Function.update m.slab a (some { header with next := target }) }

/-- `block->next_free`. -/
def next (m : Memory) (a : Nat) : Option Ptr := (m.block a).map Block.nextFree

end Memory

end Hplf
