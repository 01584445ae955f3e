import HplfMalloc.BumpWorld
import HplfMalloc.Proof.SlabLemmas
import HplfMalloc.Proof.TrimLemmas

/-!
# The blocks of a slab

`hplf_slab_create` links the slots of a new slab into one chain, and trimming takes the blocks of a slab out
of a free list and puts them back. Construction, count and partition agree on which blocks these are.
-/

namespace Hplf

open Lib Memory

variable {Tid : Type} [DecidableEq Tid]

/-- The header `hplf_slab_create` writes. -/
def SlabLayout.header (layout : SlabLayout) (mapping : Mapping) (c : ClassIndex) : Slab where
  next := none
  mappingBase := mapping.base
  mappingLength := mapping.length
  firstSlotOffset := layout.firstSlotOffset
  slotStride := layout.slotStride
  slotCount := layout.slotCount
  classCapacity := sizeClassCapacities c
  classIndex := c

/-- The slab at `base` is new: its header is `header`, and `freeList` is a chain of all its slots, each once
and each with a prefix that is fully set. -/
structure NewSlab (m : Memory) (base : Nat) (header : Slab) (freeList : Ptr) : Prop where
  stored : m.slab base = some header
  chain : Chain m.next freeList (header.slots base).reverse
  nodup : (header.slots base).Nodup
  length : (header.slots base).length = header.slotCount
  block : ∀ a ∈ header.slots base, ∃ q, m.block a = some ⟨.small base, q, 0, header.classCapacity, .small⟩

/-- **Construction.** Once the layout and the mapping exist, the slab is built. -/
theorem slabCreate_newSlab {w : World} {s s₁ s₂ : State Tid} {t : Tid} {c : ClassIndex} {pageSize : Nat}
    {layout : SlabLayout} {mapping : Mapping} (hpage : osPageSize w s t = (s₁, some pageSize))
    (hlayout : slabLayoutCompute (sizeClassCapacities c) pageSize = some layout)
    (hmap : osMap w s₁ t layout.mappingLength = (s₂, some mapping)) :
    ∃ s₃ freeList, slabCreate w s t c (sizeClassCapacities c) = (s₃, some (mapping.base, freeList)) ∧
      NewSlab s₃.memory mapping.base (layout.header mapping c) freeList := by
  obtain ⟨hfirst, hstride, -, -, -⟩ := slabLayoutCompute_eq_some (sizeClassCapacities_le c) hlayout
  have hstrideLe : sizeofBlock ≤ layout.slotStride := by
    rw [hstride, sizeofBlock]
    omega
  obtain ⟨hchain, hblocks, houtside⟩ := initSlots_spec (s₂.memory.initSlab mapping.base
    (layout.header mapping c)) mapping.base layout (sizeClassCapacities c) hstrideLe layout.slotCount
  refine ⟨{ s₂ with memory := (initSlots (s₂.memory.initSlab mapping.base (layout.header mapping c))
      mapping.base layout (sizeClassCapacities c) layout.slotCount).1 }, _, ?_, ?_, hchain, ?_,
    Slab.slots_length _ _, hblocks⟩
  · simp only [slabCreate, hpage, hlayout, hmap]
    rfl
  · -- The slots begin behind the header.
    have hkeep := houtside.slab mapping.base fun hoverlap => by
      unfold Overlap sizeofSlab at hoverlap
      omega
    exact hkeep.trans (initSlab_self _ _ _)
  · apply (List.nodup_range).map
    intro i j hij
    have hpos : 0 < layout.slotStride := Nat.lt_of_lt_of_le (by decide) hstrideLe
    have hmul : i * layout.slotStride = j * layout.slotStride := by
      change mapping.base + (layout.firstSlotOffset + i * layout.slotStride)
        = mapping.base + (layout.firstSlotOffset + j * layout.slotStride) at hij
      omega
    exact Nat.eq_of_mul_eq_mul_right hpos hmul

/-! ### Partition -/

/-- What trimming does to the free list `xs` of the class of `slab`: the count, the two chains and their
join. -/
structure Partitions (m : Memory) (slab : Nat) (freeLists : ClassIndex → Ptr) (xs : List Nat) (m₁ : Memory)
    (removed remaining : Ptr) : Prop where
  count : slabFreeCount m slab freeLists = some (xs.filter (ownedBy m slab)).length
  owned : Chain m₁.next removed (xs.filter (ownedBy m slab)).reverse
  others : Chain m₁.next remaining (xs.filter fun a => !ownedBy m slab a).reverse
  writes : LinksOnly xs m m₁
  join : ∃ m₂ joined ys, joinFreeLists m₁ removed remaining = some (m₂, joined) ∧
    Chain m₂.next joined ys ∧ ys.Perm xs ∧ LinksOnly xs m₁ m₂

theorem detachSlabBlocks_partitions {m : Memory} {slab : Nat} {header : Slab} {freeLists : ClassIndex → Ptr}
    {xs : List Nat} (hslab : m.slab slab = some header)
    (hchain : Chain m.next (freeLists header.classIndex) xs) (hbound : ∀ a ∈ xs, a < addressSpace) :
    ∃ m₁ removed remaining, detachSlabBlocks m slab freeLists = some (m₁, removed, remaining) ∧
      Partitions m slab freeLists xs m₁ removed remaining := by
  have hnodup := hchain.nodup
  have hlength := length_le_of_addresses hnodup hbound
  obtain ⟨m₁, removed, remaining, hloop, hremoved, hremaining, hframe, hsize⟩ :=
    detachSlabBlocksLoop_of_chain slab hchain (chain_nil.mpr rfl) (chain_nil.mpr rfl) (by simpa using hnodup)
      hlength
  rw [List.append_nil] at hremoved hremaining
  refine ⟨m₁, removed, remaining, ?_, ?_, hremoved, hremaining, .of_framed hframe hsize, ?_⟩
  · rw [detachSlabBlocks, hslab, Option.bind_eq_bind, Option.bind_some, hloop]
  · rw [slabFreeCount, hslab, Option.bind_eq_bind, Option.bind_some,
      slabFreeCountLoop_of_chain hchain hlength, Nat.zero_add]
  · have hdisj : ∀ a ∈ (xs.filter (ownedBy m slab)).reverse,
        a ∉ (xs.filter fun a => !ownedBy m slab a).reverse := by
      intro a ha ha'
      have howned := (List.mem_filter.mp (List.mem_reverse.mp ha)).2
      have hnot := (List.mem_filter.mp (List.mem_reverse.mp ha')).2
      rw [howned] at hnot
      simp at hnot
    have hshort : (xs.filter (ownedBy m slab)).reverse.length ≤ addressSpace := by
      rw [List.length_reverse]
      exact (List.length_filter_le _ _).trans hlength
    obtain ⟨m₂, joined, hjoin, hjoined, hframe₂, hsize₂⟩ :=
      joinFreeLists_of_chains hremoved hremaining hdisj hshort
    refine ⟨m₂, joined, _, hjoin, hjoined, ?_, .of_framed (hframe₂.mono fun a ha => ?_) hsize₂⟩
    · have hreversed : ((xs.filter (ownedBy m slab)).reverse ++
          (xs.filter fun a => !ownedBy m slab a).reverse).Perm
          (xs.filter (ownedBy m slab) ++ xs.filter fun a => !ownedBy m slab a) :=
        (List.reverse_perm _).append (List.reverse_perm _)
      exact hreversed.trans (List.filter_append_perm _ _)
    · exact (List.mem_filter.mp (List.mem_reverse.mp ha)).1

/-- **Construction and partition.** For every class and page size whose layout exists, once its mapping does,
`hplf_slab_create` builds a chain of all the slots. For every slab and every free list of its class, a chain of
addresses, the count, the partition and the join return; the partition splits the list into the reverse of the
blocks the slab owns and the reverse of the others, the count is the length of the first, the join of the two is
a permutation of the list, and nothing is written but links inside it. -/
theorem slab_partition :
    (∀ (w : World) (s s₁ s₂ : State Tid) (t : Tid) (c : ClassIndex) (pageSize : Nat) (layout : SlabLayout)
        (mapping : Mapping), osPageSize w s t = (s₁, some pageSize) →
      slabLayoutCompute (sizeClassCapacities c) pageSize = some layout →
      osMap w s₁ t layout.mappingLength = (s₂, some mapping) →
      ∃ s₃ freeList, slabCreate w s t c (sizeClassCapacities c) = (s₃, some (mapping.base, freeList)) ∧
        NewSlab s₃.memory mapping.base (layout.header mapping c) freeList) ∧
    (∀ (m : Memory) (slab : Nat) (header : Slab) (freeLists : ClassIndex → Ptr) (xs : List Nat),
      m.slab slab = some header → Chain m.next (freeLists header.classIndex) xs →
      (∀ a ∈ xs, a < addressSpace) →
      ∃ m₁ removed remaining, detachSlabBlocks m slab freeLists = some (m₁, removed, remaining) ∧
        Partitions m slab freeLists xs m₁ removed remaining) :=
  ⟨fun _ _ _ _ _ _ _ _ _ => slabCreate_newSlab, fun _ _ _ _ _ => detachSlabBlocks_partitions⟩

/-- The header of a slab of the largest class, for pages of 4096 bytes: fifteen slots. -/
def largestHeader : Slab :=
  SlabLayout.header ⟨65536, 64, 48, 4144, 15, 4096⟩ ⟨4096, 65536⟩ ⟨15, by decide⟩

/-- In a new slab of the largest class all slots are found free, and none remains once they are taken out. -/
theorem slab_partition_new_slab : ∃ (s : State Nat) (base : Nat) (freeList : Ptr) (m : Memory)
    (removed remaining : Ptr),
    slabCreate (bumpWorld fun _ => none) (.initial : State Nat) 0 ⟨15, by decide⟩ 4096
        = (s, some (base, freeList)) ∧
      slabFreeCount s.memory base (fun _ => freeList) = some 15 ∧
      detachSlabBlocks s.memory base (fun _ => freeList) = some (m, removed, remaining) ∧
      remaining = none := by
  obtain ⟨hconstruct, hpartition⟩ := @slab_partition Nat _
  obtain ⟨s, freeList, hcreate, hnew⟩ := hconstruct (bumpWorld fun _ => none) .initial _ _ 0
    ⟨15, by decide⟩ 4096 ⟨65536, 64, 48, 4144, 15, 4096⟩ ⟨4096, 65536⟩ rfl (by decide +kernel) rfl
  have hbound : ∀ a ∈ (largestHeader.slots 4096).reverse, a < addressSpace := by decide +kernel
  obtain ⟨m, removed, remaining, hdetach, hparts⟩ :=
    hpartition s.memory 4096 _ (fun _ => freeList) _ hnew.stored hnew.chain hbound
  have howned : ∀ a ∈ (largestHeader.slots 4096).reverse, ownedBy s.memory 4096 a = true := by
    intro a ha
    obtain ⟨q, hb⟩ := hnew.block a (List.mem_reverse.mp ha)
    rw [ownedBy_of_block hb]
    rfl
  refine ⟨s, 4096, freeList, m, removed, remaining, hcreate, ?_, hdetach, ?_⟩
  · rw [hparts.count]
    change some ((largestHeader.slots 4096).reverse.filter (ownedBy s.memory 4096)).length = some 15
    rw [List.filter_eq_self.mpr howned, List.length_reverse, Slab.slots_length]
    rfl
  · apply hparts.others.eq_nil_iff.mpr
    change ((largestHeader.slots 4096).reverse.filter fun a => !ownedBy s.memory 4096 a).reverse = []
    rw [List.reverse_eq_nil_iff, List.filter_eq_nil_iff]
    intro a ha
    simp [howned a ha]

end Hplf
