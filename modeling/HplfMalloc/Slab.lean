import HplfMalloc.OsMemory

/-!
# Block prefixes and slabs

The layout computations of `block.h` and `slab.h`, and the construction of a slab with its private chain
of blocks.
-/

namespace Hplf

variable {Tid : Type} [DecidableEq Tid]

/-- `HPLF_SLAB_TARGET_BYTES`. -/
def slabTargetBytes : Nat := 64 * 1024

structure LargeLayout where
  payloadOffset : Nat
  mappingLength : Nat
  deriving DecidableEq, Repr

structure SlabLayout where
  mappingLength : Nat
  firstSlotOffset : Nat
  payloadOffset : Nat
  slotStride : Nat
  slotCount : Nat
  classCapacity : Nat
  deriving DecidableEq, Repr

def blockPayloadOffset : Option Nat := sizeAlignUpPow2 sizeofBlock payloadAlignment

def blockPayload (block : Ptr) : Ptr := do
  let a ← block
  let payloadOffset ← blockPayloadOffset
  some (a + payloadOffset)

def blockFromPayload (payload : Ptr) : Ptr := do
  let p ← payload
  let payloadOffset ← blockPayloadOffset
  some (p - payloadOffset)

def largeLayoutCompute (requestedSize pageSize : Nat) : Option LargeLayout :=
  if requestedSize = 0 ∨ pageSize = 0 then
    none
  else do
    let payloadOffset ← blockPayloadOffset
    let bytesBeforeRounding ← sizeAdd payloadOffset requestedSize
    let mappingLength ← sizeRoundUpMultiple bytesBeforeRounding pageSize
    some { payloadOffset, mappingLength }

def slabLayoutCompute (classCapacity pageSize : Nat) : Option SlabLayout :=
  if classCapacity = 0 ∨ pageSize = 0 then
    none
  else do
    let mappingLength ← sizeRoundUpMultiple slabTargetBytes pageSize
    let firstSlotOffset ← sizeAlignUpPow2 sizeofSlab payloadAlignment
    let payloadOffset ← blockPayloadOffset
    let slotBytes ← sizeAdd payloadOffset classCapacity
    let slotStride ← sizeAlignUpPow2 slotBytes payloadAlignment
    if firstSlotOffset ≥ mappingLength then
      none
    else
      let usableBytes := mappingLength - firstSlotOffset
      let slotCount := usableBytes / slotStride
      if slotCount = 0 then
        none
      else do
        let occupiedBytes ← sizeMultiply slotCount slotStride
        let occupiedEnd ← sizeAdd firstSlotOffset occupiedBytes
        if occupiedEnd > mappingLength then
          none
        else
          some { mappingLength, firstSlotOffset, payloadOffset, slotStride, slotCount, classCapacity }

/-- The address of slot `index` of a slab at `base`. -/
def slotAddress (base firstSlotOffset slotStride index : Nat) : Nat :=
  base + (firstSlotOffset + index * slotStride)

/-- The initialisation loop of `hplf_slab_create` after `count` iterations: every slot gets a typed prefix
and a link to the slot before it. -/
def initSlots (m : Memory) (base : Nat) (layout : SlabLayout) (classCapacity : Nat) :
    Nat → Memory × Ptr
  | 0 => (m, none)
  | index + 1 =>
      let (m, freeList) := initSlots m base layout classCapacity index
      let a := slotAddress base layout.firstSlotOffset layout.slotStride index
      (m.initBlock a
        { owner := .small base
          nextFree := freeList
          requestedSize := 0
          capacity := classCapacity
          kind := .small }, some a)

/-- Returns the slab and the head of its chain of blocks. -/
def slabCreate (w : World) (s : State Tid) (t : Tid) (classIndex : ClassIndex)
    (classCapacity : Nat) : State Tid × Option (Nat × Ptr) :=
  match osPageSize w s t with
  | (s, none) => (s, none)
  | (s, some pageSize) =>
      match slabLayoutCompute classCapacity pageSize with
      | none => (s.setErrno t .ENOMEM, none)
      | some layout =>
          match osMap w s t layout.mappingLength with
          | (s, none) => (s, none)
          | (s, some mapping) =>
              let m := s.memory.initSlab mapping.base
                { next := none
                  mappingBase := mapping.base
                  mappingLength := mapping.length
                  firstSlotOffset := layout.firstSlotOffset
                  slotStride := layout.slotStride
                  slotCount := layout.slotCount
                  classCapacity := classCapacity
                  classIndex := classIndex }
              let (m, freeList) := initSlots m mapping.base layout classCapacity layout.slotCount
              ({ s with memory := m }, some (mapping.base, freeList))

end Hplf
