import HplfMalloc.Slab
import HplfMalloc.Proof.TransferListLemmas

/-!
# Slab geometry

What `hplf_slab_layout_compute` promises about a slab, and what `hplf_slab_create` leaves in storage: a
header, a prefix at every slot, and the chain of all slots, with nothing outside the new mapping touched.
-/

namespace Hplf

open Lib Memory

variable {Tid : Type} [DecidableEq Tid]

@[simp]
theorem blockPayloadOffset_eq : blockPayloadOffset = some 48 := by decide

@[simp]
theorem blockPayload_some (a : Nat) : blockPayload (some a) = some (a + 48) := by
  simp [blockPayload]

@[simp]
theorem blockPayload_none : blockPayload none = none := rfl

@[simp]
theorem blockFromPayload_some (p : Nat) : blockFromPayload (some p) = some (p - 48) := by
  simp [blockFromPayload]

@[simp]
theorem blockFromPayload_none : blockFromPayload none = none := rfl

/-- The slot addresses of a slab at `base`, in order. -/
def Slab.slots (h : Slab) (base : Nat) : List Nat :=
  (List.range h.slotCount).map (slotAddress base h.firstSlotOffset h.slotStride)

/-- The mapping recorded in a slab header. -/
def Slab.mapping (h : Slab) : Mapping := ⟨h.mappingBase, h.mappingLength⟩

/-- The header at `base` describes a mapping at `base` whose slots follow the header, are large enough for
a prefix and the capacity of the class, and end inside the mapping. -/
structure Slab.WellFormed (h : Slab) (base : Nat) : Prop where
  mappingBase : h.mappingBase = base
  capacity : h.classCapacity = sizeClassCapacities h.classIndex
  first_le : sizeofSlab ≤ h.firstSlotOffset
  first_aligned : payloadAlignment ∣ h.firstSlotOffset
  stride_le : sizeofBlock + h.classCapacity ≤ h.slotStride
  stride_aligned : payloadAlignment ∣ h.slotStride
  count_pos : 0 < h.slotCount
  fits : h.firstSlotOffset + h.slotCount * h.slotStride ≤ h.mappingLength

theorem Slab.WellFormed.slots_nodup {h : Slab} {base : Nat} (hwf : h.WellFormed base) :
    (h.slots base).Nodup := by
  apply (List.nodup_range).map
  intro i j hij
  have hpos : 0 < h.slotStride := by
    have := hwf.stride_le
    simp only [sizeofBlock] at this
    omega
  have hmul : i * h.slotStride = j * h.slotStride := by
    simp only [slotAddress] at hij
    omega
  exact Nat.eq_of_mul_eq_mul_right hpos hmul

@[simp]
theorem Slab.slots_length (h : Slab) (base : Nat) : (h.slots base).length = h.slotCount := by
  simp [Slab.slots]

/-- A slot begins behind the header and ends, with its whole capacity, inside the mapping. -/
theorem Slab.WellFormed.slot_bounds {h : Slab} {base a : Nat} (hwf : h.WellFormed base)
    (ha : a ∈ h.slots base) :
    base + sizeofSlab ≤ a ∧ a + (sizeofBlock + h.classCapacity) ≤ base + h.mappingLength := by
  obtain ⟨i, hi, rfl⟩ := List.mem_map.mp ha
  have hi := List.mem_range.mp hi
  have hmul := Nat.mul_le_mul_right h.slotStride (Nat.succ_le_of_lt hi)
  rw [Nat.succ_mul] at hmul
  have hfirst := hwf.first_le
  have hstride := hwf.stride_le
  have hfits := hwf.fits
  unfold slotAddress
  omega

/-- The layout a class gets for a page size. -/
theorem slabLayoutCompute_eq_some {capacity pageSize : Nat} {layout : SlabLayout}
    (hcapacity : capacity ≤ maxSmallSize)
    (hlayout : slabLayoutCompute capacity pageSize = some layout) :
    layout.firstSlotOffset = 64 ∧ layout.slotStride = (48 + capacity + 15) / 16 * 16 ∧
      0 < layout.slotCount ∧
      layout.firstSlotOffset + layout.slotCount * layout.slotStride ≤ layout.mappingLength ∧
      layout.mappingLength ≤ sizeMax := by
  unfold slabLayoutCompute at hlayout
  split at hlayout
  · simp at hlayout
  have hfirst : sizeAlignUpPow2 sizeofSlab payloadAlignment = some 64 := by decide
  have hbytes : sizeAdd 48 capacity = some (48 + capacity) :=
    sizeAdd_of_le (by unfold maxSmallSize at hcapacity; unfold sizeMax; omega)
  have hstride : sizeAlignUpPow2 (48 + capacity) payloadAlignment
      = some ((48 + capacity + 15) / 16 * 16) := by
    have halign := sizeAlignUpPow2_two_pow (48 + capacity) (k := 4) (by decide)
    have hsmall : 48 + capacity + 15 < 2 ^ 64 := by unfold maxSmallSize at hcapacity; omega
    have hfit : ¬ 48 + capacity > sizeMax - (2 ^ 4 - 1) := by unfold sizeMax; omega
    rw [if_neg hfit, sizeT, Nat.mod_eq_of_lt (by omega)] at halign
    exact halign
  rw [Option.bind_eq_bind, Option.bind_eq_some_iff] at hlayout
  obtain ⟨mappingLength, hround, hlayout⟩ := hlayout
  simp only [hfirst, blockPayloadOffset_eq, hbytes, hstride, Option.bind_some] at hlayout
  split at hlayout
  · simp at hlayout
  split at hlayout
  · simp at hlayout
  rename_i hmapping hcount
  obtain ⟨occupied, hmul, hlayout⟩ := Option.bind_eq_some_iff.mp hlayout
  obtain ⟨occupiedEnd, hadd, hlayout⟩ := Option.bind_eq_some_iff.mp hlayout
  split at hlayout
  · simp at hlayout
  obtain rfl := Option.some.inj hlayout
  have htarget : slabTargetBytes ≤ sizeMax := by decide
  have hlength := (sizeRoundUpMultiple_eq_some htarget hround).2.2.2.2
  have hdiv := Nat.div_mul_le_self (mappingLength - 64) ((48 + capacity + 15) / 16 * 16)
  exact ⟨rfl, rfl, Nat.pos_of_ne_zero hcount, by simp only; omega, hlength⟩

/-- Nothing outside `[lo, lo + length)` has changed. -/
structure Memory.SameOutside (lo length : Nat) (m m' : Memory) : Prop where
  block : ∀ a, ¬ Overlap a sizeofBlock lo length → m'.block a = m.block a
  slab : ∀ a, ¬ Overlap a sizeofSlab lo length → m'.slab a = m.slab a
  byte : ∀ a, ¬ (lo ≤ a ∧ a < lo + length) → m'.byte a = m.byte a

namespace Memory.SameOutside

theorem refl (lo length : Nat) (m : Memory) : SameOutside lo length m m :=
  ⟨fun _ _ => rfl, fun _ _ => rfl, fun _ _ => rfl⟩

theorem trans {lo length : Nat} {m₁ m₂ m₃ : Memory} (h₁ : SameOutside lo length m₁ m₂)
    (h₂ : SameOutside lo length m₂ m₃) : SameOutside lo length m₁ m₃ where
  block a ha := (h₂.block a ha).trans (h₁.block a ha)
  slab a ha := (h₂.slab a ha).trans (h₁.slab a ha)
  byte a ha := (h₂.byte a ha).trans (h₁.byte a ha)

theorem mono {lo length lo' length' : Nat} {m m' : Memory} (h : SameOutside lo length m m')
    (hlo : lo' ≤ lo) (hhi : lo + length ≤ lo' + length') : SameOutside lo' length' m m' where
  block a ha := h.block a fun hoverlap => ha (by unfold Overlap at *; omega)
  slab a ha := h.slab a fun hoverlap => ha (by unfold Overlap at *; omega)
  byte a ha := h.byte a fun hmem => ha (by omega)

theorem clobber (m : Memory) (lo length : Nat) : SameOutside lo length m (m.clobber lo length) where
  block a ha := by simp [Memory.clobber, ha]
  slab a ha := by simp [Memory.clobber, ha]
  byte a ha := by simp only [Memory.clobber, if_neg ha]

theorem writeBytes (m : Memory) (lo length : Nat) (value : Nat → Option UInt8) :
    SameOutside lo length m (m.writeBytes lo length value) where
  block a ha := by simp [Memory.writeBytes, Memory.clobber, ha]
  slab a ha := by simp [Memory.writeBytes, Memory.clobber, ha]
  byte a ha := by simp only [Memory.writeBytes, if_neg ha]

theorem initBlock (m : Memory) (a : Nat) (b : Block) :
    SameOutside a sizeofBlock m (m.initBlock a b) where
  block x hx := by
    have hne : x ≠ a := by
      rintro rfl
      exact hx (by unfold Overlap sizeofBlock; omega)
    simp only [Memory.initBlock, Function.update_of_ne hne]
    exact (clobber m a sizeofBlock).block x hx
  slab x hx := (clobber m a sizeofBlock).slab x hx
  byte x hx := (clobber m a sizeofBlock).byte x hx

theorem initSlab (m : Memory) (a : Nat) (h : Slab) :
    SameOutside a sizeofSlab m (m.initSlab a h) where
  block x hx := (clobber m a sizeofSlab).block x hx
  slab x hx := by
    have hne : x ≠ a := by
      rintro rfl
      exact hx (by unfold Overlap sizeofSlab; omega)
    simp only [Memory.initSlab, Function.update_of_ne hne]
    exact (clobber m a sizeofSlab).slab x hx
  byte x hx := (clobber m a sizeofSlab).byte x hx

end Memory.SameOutside

theorem Memory.initBlock_self (m : Memory) (a : Nat) (b : Block) :
    (m.initBlock a b).block a = some b := by
  simp [Memory.initBlock]

theorem Memory.initSlab_self (m : Memory) (a : Nat) (h : Slab) :
    (m.initSlab a h).slab a = some h := by
  simp [Memory.initSlab]

/-- Slots lie a stride apart, so a smaller slot ends before a larger one begins. -/
theorem slotAddress_add_le (base first stride : Nat) {i j : Nat} (hij : i < j) :
    slotAddress base first stride i + stride ≤ slotAddress base first stride j := by
  unfold slotAddress
  have hmul := Nat.mul_le_mul_right stride (Nat.succ_le_of_lt hij)
  rw [Nat.succ_mul] at hmul
  omega

/-- The initialisation loop leaves a prefix at each slot, linked into one chain from the last slot down to
the first, and writes nowhere else. -/
theorem initSlots_spec (m : Memory) (base : Nat) (layout : SlabLayout) (capacity : Nat)
    (hstride : sizeofBlock ≤ layout.slotStride) (n : Nat) :
    let slots := (List.range n).map (slotAddress base layout.firstSlotOffset layout.slotStride)
    let r := initSlots m base layout capacity n
    Chain r.1.next r.2 slots.reverse ∧
      (∀ a ∈ slots, ∃ q, r.1.block a = some ⟨.small base, q, 0, capacity, .small⟩) ∧
      SameOutside (base + layout.firstSlotOffset) (n * layout.slotStride) m r.1 := by
  induction n with
  | zero => exact ⟨rfl, by simp, SameOutside.refl _ _ _⟩
  | succ n ih =>
      obtain ⟨hchain, hblocks, hframe⟩ := ih
      simp only [initSlots]
      set slot := slotAddress base layout.firstSlotOffset layout.slotStride with hslot
      set old := initSlots m base layout capacity n
      have hnew := SameOutside.initBlock old.1 (slot n) ⟨.small base, old.2, 0, capacity, .small⟩
      have hself := initBlock_self old.1 (slot n) ⟨.small base, old.2, 0, capacity, .small⟩
      -- An earlier slot ends before this one, so its prefix survives.
      have hkeep : ∀ a ∈ (List.range n).map slot,
          (old.1.initBlock (slot n) ⟨.small base, old.2, 0, capacity, .small⟩).block a
            = old.1.block a := by
        intro a ha
        obtain ⟨i, hi, rfl⟩ := List.mem_map.mp ha
        have hle := slotAddress_add_le base layout.firstSlotOffset
          layout.slotStride (List.mem_range.mp hi)
        rw [← hslot] at hle
        exact hnew.block _ fun hoverlap => by unfold Overlap at hoverlap; omega
      refine ⟨?_, ?_, ?_⟩
      · rw [List.range_succ, List.map_append, List.map_singleton, List.reverse_append,
          List.reverse_singleton, List.singleton_append]
        refine ⟨rfl, old.2, by simp [Memory.next, hself], hchain.congr fun a ha => ?_⟩
        simp only [Memory.next, hkeep a (List.mem_reverse.mp ha)]
      · intro a ha
        rw [List.range_succ, List.map_append, List.mem_append] at ha
        rcases ha with ha | ha
        · rw [hkeep a ha]
          exact hblocks a ha
        · obtain rfl := List.mem_singleton.mp ha
          exact ⟨old.2, hself⟩
      · refine (hframe.mono (by omega) ?_).trans (hnew.mono ?_ ?_)
        · rw [Nat.succ_mul]
          omega
        · rw [hslot, slotAddress]
          omega
        · rw [hslot, slotAddress, Nat.succ_mul]
          omega

/-- What a successful mapping adds: a fresh region at least as long as asked for. -/
structure MapsRegion (s s' : State Tid) (minimumLength : Nat) (mapping : Mapping) : Prop where
  fresh : Mapping.Fresh s.mappings mapping
  length_le : minimumLength ≤ mapping.length
  state_eq : ∃ errno pageQueries mapOutcomes, s' = { s with
    errno := errno
    pageQueries := pageQueries
    mapOutcomes := mapOutcomes
    mapped := mapping :: s.mapped
    memory := s.memory.mapRegion mapping.base mapping.length }

/-- Only the error number and the counters of system calls differ. -/
def OsNoise (s s' : State Tid) : Prop :=
  ∃ errno pageQueries mapOutcomes,
    s' = { s with errno := errno, pageQueries := pageQueries, mapOutcomes := mapOutcomes }

omit [DecidableEq Tid] in
theorem OsNoise.refl (s : State Tid) : OsNoise s s := ⟨_, _, _, rfl⟩

omit [DecidableEq Tid] in
theorem OsNoise.trans {s₁ s₂ s₃ : State Tid} (h₁ : OsNoise s₁ s₂) (h₂ : OsNoise s₂ s₃) :
    OsNoise s₁ s₃ := by
  obtain ⟨_, _, _, rfl⟩ := h₁
  obtain ⟨_, _, _, rfl⟩ := h₂
  exact ⟨_, _, _, rfl⟩

theorem OsNoise.setErrno {s s' : State Tid} (h : OsNoise s s') (t : Tid) (e : Errno) :
    OsNoise s (s'.setErrno t e) :=
  h.trans ⟨_, _, _, rfl⟩

theorem osPageSize_noise (w : World) (s : State Tid) (t : Tid) : OsNoise s (osPageSize w s t).1 := by
  unfold osPageSize
  simp only
  split
  · exact ⟨_, _, _, rfl⟩
  · exact ⟨_, _, _, rfl⟩

theorem osPageSize_eq_some {w : World} {s s' : State Tid} {t : Tid} {pageSize : Nat}
    (hpage : osPageSize w s t = (s', some pageSize)) :
    0 < pageSize ∧ pageSize ≤ sizeMax ∧ pageSize = (w.sysconf s.pageQueries).toNat := by
  unfold osPageSize at hpage
  simp only at hpage
  split at hpage
  · simp at hpage
  · rename_i hvalid
    simp only [Prod.mk.injEq, Option.some.injEq] at hpage
    omega

theorem osMap_spec {w : World} {s s' : State Tid} {t : Tid} {minimumLength : Nat}
    {result : Option Mapping} (hminimum : minimumLength ≤ sizeMax)
    (hmap : osMap w s t minimumLength = (s', result)) :
    (result = none ∧ OsNoise s s') ∨
      ∃ mapping, result = some mapping ∧ MapsRegion s s' minimumLength mapping := by
  unfold osMap at hmap
  split at hmap
  · simp only [Prod.mk.injEq] at hmap
    exact Or.inl ⟨hmap.2.symm, hmap.1 ▸ ⟨_, _, _, rfl⟩⟩
  have hnoise := osPageSize_noise w s t
  split at hmap
  · rename_i s₁ hpage
    rw [hpage] at hnoise
    simp only [Prod.mk.injEq] at hmap
    exact Or.inl ⟨hmap.2.symm, hmap.1 ▸ hnoise⟩
  · rename_i s₁ pageSize hpage
    rw [hpage] at hnoise
    split at hmap
    · simp only [Prod.mk.injEq] at hmap
      exact Or.inl ⟨hmap.2.symm, hmap.1 ▸ hnoise.setErrno t _⟩
    · rename_i mappingLength hround
      have hlength := sizeRoundUpMultiple_eq_some hminimum hround
      obtain ⟨errno, queries, calls, rfl⟩ := hnoise
      simp only at hmap
      split at hmap
      · simp only [Prod.mk.injEq] at hmap
        exact Or.inl ⟨hmap.2.symm, hmap.1 ▸ ⟨_, _, _, rfl⟩⟩
      · rename_i base hbase
        simp only [Prod.mk.injEq] at hmap
        obtain ⟨rfl, rfl⟩ := hmap
        exact Or.inr ⟨_, rfl, w.mmap_fresh _ _ _ _ hbase, hlength.2.2.1, _, _, _, rfl⟩

/-- The number of slots in a slab of class `c`, by the answer to the page-size query. -/
def slabSlots (c : ClassIndex) (pageSize : Nat) : Nat :=
  ((slabLayoutCompute (sizeClassCapacities c) pageSize).map SlabLayout.slotCount).getD 0

/-- What a successful slab creation leaves behind. -/
structure CreatesSlab (s s' : State Tid) (c : ClassIndex) (base : Nat) (freeList : Ptr)
    (h : Slab) : Prop where
  fresh : Mapping.Fresh s.mappings h.mapping
  state_eq : ∃ errno pageQueries mapOutcomes memory, s' = { s with
    errno := errno
    pageQueries := pageQueries
    mapOutcomes := mapOutcomes
    mapped := h.mapping :: s.mapped
    memory := memory }
  header : s'.memory.slab base = some h
  wellFormed : h.WellFormed base
  next_none : h.next = none
  class_eq : h.classIndex = c
  block : ∀ a ∈ h.slots base,
    ∃ q, s'.memory.block a = some ⟨.small base, q, 0, h.classCapacity, .small⟩
  chain : Chain s'.memory.next freeList (h.slots base).reverse
  sameOutside : s.memory.SameOutside h.mappingBase h.mappingLength s'.memory

theorem slabCreate_spec {w : World} {s s' : State Tid} {t : Tid} {c : ClassIndex}
    {result : Option (Nat × Ptr)}
    (hcreate : slabCreate w s t c (sizeClassCapacities c) = (s', result)) :
    (result = none ∧ OsNoise s s') ∨
      ∃ base freeList header, result = some (base, freeList) ∧
        CreatesSlab s s' c base freeList header ∧
        header.slotCount = slabSlots c (w.sysconf s.pageQueries).toNat := by
  unfold slabCreate at hcreate
  have hnoise := osPageSize_noise w s t
  split at hcreate
  · rename_i s₁ hpage
    rw [hpage] at hnoise
    simp only [Prod.mk.injEq] at hcreate
    exact Or.inl ⟨hcreate.2.symm, hcreate.1 ▸ hnoise⟩
  rename_i s₁ pageSize hpage
  rw [hpage] at hnoise
  split at hcreate
  · simp only [Prod.mk.injEq] at hcreate
    exact Or.inl ⟨hcreate.2.symm, hcreate.1 ▸ hnoise.setErrno t _⟩
  rename_i layout hlayout
  have hslots : layout.slotCount = slabSlots c (w.sysconf s.pageQueries).toNat := by
    rw [slabSlots, ← (osPageSize_eq_some hpage).2.2, hlayout]
    rfl
  obtain ⟨hfirst, hstride, hcount, hfits, hlength⟩ :=
    slabLayoutCompute_eq_some (sizeClassCapacities_le c) hlayout
  obtain ⟨errno, queries, calls, rfl⟩ := hnoise
  split at hcreate
  · rename_i s₂ hmap
    rcases osMap_spec hlength hmap with ⟨_, hnoise₂⟩ | ⟨_, hsome, _⟩
    · simp only [Prod.mk.injEq] at hcreate
      exact Or.inl ⟨hcreate.2.symm, hcreate.1 ▸ OsNoise.trans ⟨_, _, _, rfl⟩ hnoise₂⟩
    · simp at hsome
  · rename_i s₂ mapping hmap
    rcases osMap_spec hlength hmap with ⟨hnone, _⟩ | ⟨mapping', hsome, hmaps⟩
    · simp at hnone
    obtain rfl := Option.some.inj hsome
    obtain ⟨errno', queries', calls', rfl⟩ := hmaps.state_eq
    simp only [Prod.mk.injEq] at hcreate
    obtain ⟨rfl, rfl⟩ := hcreate
    set header : Slab :=
      { next := none
        mappingBase := mapping.base
        mappingLength := mapping.length
        firstSlotOffset := layout.firstSlotOffset
        slotStride := layout.slotStride
        slotCount := layout.slotCount
        classCapacity := sizeClassCapacities c
        classIndex := c } with hheader
    set region := s.memory.mapRegion mapping.base mapping.length
    have hstrideLe : sizeofBlock + sizeClassCapacities c ≤ layout.slotStride := by
      rw [hstride, sizeofBlock]
      omega
    have hfitsMapping := hfits.trans hmaps.length_le
    obtain ⟨hchain, hblocks, houtside⟩ := initSlots_spec (region.initSlab mapping.base header)
      mapping.base layout (sizeClassCapacities c) (by omega) layout.slotCount
    refine Or.inr ⟨mapping.base, _, header, rfl, ?_, hslots⟩
    refine ⟨hmaps.fresh, ⟨_, _, _, _, rfl⟩, ?_, ?_, rfl, rfl, hblocks, hchain, ?_⟩
    · have hkeep := houtside.slab mapping.base fun hoverlap => by
        unfold Overlap at hoverlap
        unfold sizeofSlab at hoverlap
        omega
      exact hkeep.trans (initSlab_self _ _ _)
    · exact
        { mappingBase := rfl
          capacity := rfl
          first_le := by simp [hheader, hfirst, sizeofSlab]
          first_aligned := by simp only [hheader, hfirst]; decide
          stride_le := hstrideLe
          stride_aligned := by
            simp only [hheader, hstride]
            exact Dvd.intro_left _ rfl
          count_pos := hcount
          fits := hfitsMapping }
    · rw [show header.mappingBase = mapping.base from rfl,
        show header.mappingLength = mapping.length from rfl]
      refine ((SameOutside.writeBytes _ _ _ _).trans
        ((SameOutside.initSlab _ _ _).mono (le_refl _) ?_)).trans (houtside.mono ?_ ?_)
      · rw [sizeofSlab]
        omega
      · omega
      · omega

end Hplf
