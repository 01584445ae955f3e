import HplfMalloc.SizeArithmetic
import HplfMalloc.Proof.SlabLemmas
import HplfMalloc.Allocator
import HplfMalloc.BumpWorld

/-!
# Layouts

`hplf_slab_layout_compute` and `hplf_large_layout_compute` for all 64-bit arguments: when they succeed,
what they compute, and what `hplf_allocate_large` makes of the length it gets. With pages of one size, the
creation of a slab or of a large block fails only if its mapping is refused.
-/

namespace Hplf

open Lib Memory

/-! ### Slabs -/

/-- The distance from a block to its payload. -/
def payloadDistance : Nat := leastMultiple sizeofBlock payloadAlignment

/-- The bytes a slot of this capacity takes. -/
def strideFor (classCapacity : Nat) : Nat :=
  leastMultiple (payloadDistance + classCapacity) payloadAlignment

/-- The bytes the slab header takes. -/
def headerLength : Nat := leastMultiple sizeofSlab payloadAlignment

/-- The length of a slab's mapping. -/
def slabLength (pageSize : Nat) : Nat := leastMultiple slabTargetBytes pageSize

/-- A slab of this capacity exists for this page size: the lengths are sizes, and one slot fits. -/
structure SlabFits (classCapacity pageSize : Nat) : Prop where
  capacity_ne_zero : classCapacity ≠ 0
  page_ne_zero : pageSize ≠ 0
  length_le : slabLength pageSize ≤ sizeMax
  stride_le : strideFor classCapacity ≤ sizeMax
  one_slot : headerLength + strideFor classCapacity ≤ slabLength pageSize

/-- A sound and maximal layout for this capacity and page size. -/
structure SlabLayout.Exact (layout : SlabLayout) (classCapacity pageSize : Nat) : Prop where
  length_least : IsLeast {x | pageSize ∣ x ∧ slabTargetBytes ≤ x} layout.mappingLength
  length_le : layout.mappingLength ≤ sizeMax
  capacity : layout.classCapacity = classCapacity
  no_wrap : ∀ i < layout.slotCount,
    sizeT (layout.firstSlotOffset + sizeT (i * layout.slotStride))
      = slotAddress 0 layout.firstSlotOffset layout.slotStride i
  disjoint : ∀ i j, i < j → j < layout.slotCount →
    slotAddress 0 layout.firstSlotOffset layout.slotStride i + layout.slotStride
      ≤ slotAddress 0 layout.firstSlotOffset layout.slotStride j
  after_header : ∀ i < layout.slotCount,
    sizeofSlab ≤ slotAddress 0 layout.firstSlotOffset layout.slotStride i
  inside : ∀ i < layout.slotCount,
    slotAddress 0 layout.firstSlotOffset layout.slotStride i + layout.slotStride
      ≤ layout.mappingLength
  block_le : sizeofBlock ≤ layout.payloadOffset
  payload_le : layout.payloadOffset + classCapacity ≤ layout.slotStride
  aligned : ∀ i < layout.slotCount,
    payloadAlignment ∣ slotAddress 0 layout.firstSlotOffset layout.slotStride i ∧
      payloadAlignment ∣
        slotAddress 0 layout.firstSlotOffset layout.slotStride i + layout.payloadOffset
  maximal : layout.mappingLength <
    slotAddress 0 layout.firstSlotOffset layout.slotStride layout.slotCount + layout.slotStride

/-- The last checks of the computation, with the slot count the division gives. -/
def SlabChecksPass (mappingLength firstSlotOffset slotStride : Nat) : Prop :=
  ∃ occupiedBytes occupiedEnd,
    sizeMultiply ((mappingLength - firstSlotOffset) / slotStride) slotStride = some occupiedBytes ∧
      sizeAdd firstSlotOffset occupiedBytes = some occupiedEnd ∧ occupiedEnd ≤ mappingLength

/-- **The last checks never fail.** The slots were counted by a division, so they end in the mapping. -/
theorem slabChecksPass {mappingLength firstSlotOffset : Nat} (hlength : mappingLength ≤ sizeMax)
    (hfirst : firstSlotOffset < mappingLength) (slotStride : Nat) :
    SlabChecksPass mappingLength firstSlotOffset slotStride := by
  have hdiv := Nat.div_mul_le_self (mappingLength - firstSlotOffset) slotStride
  refine ⟨_, _, sizeMultiply_of_le (by omega), sizeAdd_of_le (by omega), by omega⟩

/-- The layout computed from three lengths. -/
def SlabLayout.ofLengths (classCapacity pageSize : Nat) : SlabLayout where
  mappingLength := slabLength pageSize
  firstSlotOffset := headerLength
  payloadOffset := payloadDistance
  slotStride := strideFor classCapacity
  slotCount := (slabLength pageSize - headerLength) / strideFor classCapacity
  classCapacity := classCapacity

theorem payloadDistance_eq : payloadDistance = 48 := by decide

theorem headerLength_eq : headerLength = 64 := by decide

theorem strideFor_spec (classCapacity : Nat) :
    payloadAlignment ∣ strideFor classCapacity ∧
      payloadDistance + classCapacity ≤ strideFor classCapacity :=
  (isLeast_leastMultiple _ (by decide)).1

theorem strideFor_pos (classCapacity : Nat) : 0 < strideFor classCapacity := by
  have hle := (strideFor_spec classCapacity).2
  rw [payloadDistance_eq] at hle
  omega

/-- Whether the prefix and the payload of a slot can be measured at all. -/
theorem slotStride_eq (classCapacity : Nat) :
    (sizeAdd payloadDistance classCapacity).bind (sizeAlignUpPow2 · payloadAlignment) =
      if strideFor classCapacity ≤ sizeMax then some (strideFor classCapacity) else none := by
  have hle := (strideFor_spec classCapacity).2
  by_cases hsum : payloadDistance + classCapacity ≤ sizeMax
  · rw [sizeAdd_of_le hsum, Option.bind_some, sizeAlignUpPow2_payloadAlignment]
    rfl
  · rw [if_neg (by omega)]
    cases hadd : sizeAdd payloadDistance classCapacity with
    | none => rfl
    | some sum => exact absurd (sizeAdd_eq_some (by decide) hadd).2 hsum

/-- **The computation in closed form.** -/
theorem slabLayoutCompute_eq (classCapacity pageSize : Nat) :
    (SlabFits classCapacity pageSize →
        slabLayoutCompute classCapacity pageSize = some (.ofLengths classCapacity pageSize)) ∧
      (¬ SlabFits classCapacity pageSize → slabLayoutCompute classCapacity pageSize = none) := by
  have htarget : slabTargetBytes ≤ sizeMax := by decide
  have hheader : sizeAlignUpPow2 sizeofSlab payloadAlignment = some headerLength := by decide
  have hoffset : blockPayloadOffset = some payloadDistance := by decide
  have hstride := slotStride_eq classCapacity
  have hpos := strideFor_pos classCapacity
  unfold slabLayoutCompute
  rw [sizeRoundUpMultiple_eq htarget, hheader, hoffset]
  simp only [Option.bind_eq_bind, Option.bind_some]
  constructor
  · intro hfits
    rw [if_neg (by simp [hfits.capacity_ne_zero, hfits.page_ne_zero]),
      if_pos ⟨hfits.page_ne_zero, hfits.length_le⟩, Option.bind_some]
    rw [if_pos hfits.stride_le] at hstride
    obtain ⟨slotBytes, hbytes, hstride⟩ := Option.bind_eq_some_iff.mp hstride
    have hone := hfits.one_slot
    have hcount : (slabLength pageSize - headerLength) / strideFor classCapacity ≠ 0 :=
      Nat.div_ne_zero_iff.mpr ⟨by omega, by omega⟩
    obtain ⟨occupied, occupiedEnd, hmultiply, hadd, hend⟩ :=
      slabChecksPass hfits.length_le (show headerLength < slabLength pageSize by omega)
        (strideFor classCapacity)
    rw [hbytes, Option.bind_some, hstride, Option.bind_some]
    change (if headerLength ≥ slabLength pageSize then none else _) = _
    rw [if_neg (by omega)]
    change (if (slabLength pageSize - headerLength) / strideFor classCapacity = 0 then none else _) = _
    rw [if_neg hcount]
    change ((sizeMultiply ((slabLength pageSize - headerLength) / strideFor classCapacity)
      (strideFor classCapacity)).bind _) = _
    rw [hmultiply, Option.bind_some, hadd, Option.bind_some]
    change (if occupiedEnd > slabLength pageSize then none else _) = _
    rw [if_neg (by omega)]
    rfl
  · intro hunfit
    by_contra hsome
    obtain ⟨layout, hlayout⟩ := Option.ne_none_iff_exists'.mp hsome
    split at hlayout
    · simp at hlayout
    rename_i hnonzero
    obtain ⟨hcapacity₀, hpage₀⟩ := not_or.mp hnonzero
    obtain ⟨mappingLength, hlength, hlayout⟩ := Option.bind_eq_some_iff.mp hlayout
    obtain ⟨slotBytes, hbytes, hlayout⟩ := Option.bind_eq_some_iff.mp hlayout
    obtain ⟨slotStride, halign, hlayout⟩ := Option.bind_eq_some_iff.mp hlayout
    rw [hbytes, Option.bind_some, halign] at hstride
    split at hlength
    · rename_i hlength_le
      obtain rfl := Option.some.inj hlength
      split at hstride
      · rename_i hstride_le
        obtain rfl := Option.some.inj hstride
        split at hlayout
        · simp at hlayout
        split at hlayout
        · simp at hlayout
        rename_i hfirst hcount
        obtain ⟨-, hle⟩ := Nat.div_ne_zero_iff.mp hcount
        refine hunfit ⟨hcapacity₀, hpage₀, hlength_le.2, hstride_le, ?_⟩
        change headerLength + strideFor classCapacity ≤ leastMultiple slabTargetBytes pageSize
        omega
      · simp at hstride
    · simp at hlength

/-- The layout computed from three lengths is sound and maximal. -/
theorem SlabFits.exact {classCapacity pageSize : Nat} (hfits : SlabFits classCapacity pageSize) :
    (SlabLayout.ofLengths classCapacity pageSize).Exact classCapacity pageSize := by
  obtain ⟨hdvd, hle⟩ := strideFor_spec classCapacity
  have hpos := strideFor_pos classCapacity
  have hheader := headerLength_eq
  have hdistance := payloadDistance_eq
  have hlength := hfits.length_le
  have hone := hfits.one_slot
  set stride := strideFor classCapacity
  set length := slabLength pageSize with hlengthEq
  set count := (length - headerLength) / stride with hcount
  have hused : count * stride ≤ length - headerLength := Nat.div_mul_le_self _ _
  have hrest : length - headerLength < (count + 1) * stride :=
    Nat.lt_mul_of_div_lt (Nat.lt_succ_self _) hpos
  have hinside : ∀ i < count, headerLength + i * stride + stride ≤ length := by
    intro i hi
    have hmul : (i + 1) * stride ≤ count * stride := Nat.mul_le_mul_right stride hi
    rw [Nat.add_mul, Nat.one_mul] at hmul
    omega
  refine ⟨isLeast_leastMultiple _ (Nat.pos_of_ne_zero hfits.page_ne_zero), hlength, rfl, ?_, ?_, ?_, ?_,
    ?_, hle, ?_, ?_⟩
  · intro i hi
    have hin := hinside i hi
    change sizeT (headerLength + sizeT (i * stride)) = 0 + (headerLength + i * stride)
    unfold sizeT
    unfold sizeMax at hlength
    rw [Nat.mod_eq_of_lt (show i * stride < 2 ^ 64 by omega), Nat.mod_eq_of_lt (by omega)]
    omega
  · exact fun i j hij _ => slotAddress_add_le 0 headerLength stride hij
  · intro i _
    change sizeofSlab ≤ 0 + (headerLength + i * stride)
    rw [hheader, sizeofSlab]
    omega
  · intro i hi
    have hin := hinside i hi
    change 0 + (headerLength + i * stride) + stride ≤ length
    omega
  · change sizeofBlock ≤ payloadDistance
    decide
  · intro i _
    have hslot : payloadAlignment ∣ slotAddress 0 headerLength stride i := by
      unfold slotAddress
      rw [Nat.zero_add]
      exact Nat.dvd_add (by decide) (Dvd.dvd.mul_left hdvd i)
    exact ⟨hslot, Nat.dvd_add hslot (show payloadAlignment ∣ payloadDistance by decide)⟩
  · rw [Nat.add_mul, Nat.one_mul] at hrest
    change length < 0 + (headerLength + count * stride) + stride
    omega

/-- **Slab layouts.** For all 64-bit capacities and page sizes the computation succeeds exactly if both are
nonzero, the mapping and the stride are sizes, and one slot fits after the header. The layout it writes is
then sound and maximal; otherwise the output is left alone. Once a slot was counted, the last checks
pass. -/
theorem slab_layout_exact (classCapacity pageSize : UInt64) (layout : SlabLayout) :
    ((writeOutput (slabLayoutCompute classCapacity.toNat pageSize.toNat) layout).1 = true ↔
        SlabFits classCapacity.toNat pageSize.toNat) ∧
      (SlabFits classCapacity.toNat pageSize.toNat →
        (writeOutput (slabLayoutCompute classCapacity.toNat pageSize.toNat) layout).2.Exact
          classCapacity.toNat pageSize.toNat) ∧
      (¬ SlabFits classCapacity.toNat pageSize.toNat →
        (writeOutput (slabLayoutCompute classCapacity.toNat pageSize.toNat) layout).2 = layout) ∧
      ∀ mappingLength firstSlotOffset slotStride,
        sizeRoundUpMultiple slabTargetBytes pageSize.toNat = some mappingLength →
        sizeAlignUpPow2 sizeofSlab payloadAlignment = some firstSlotOffset →
        firstSlotOffset < mappingLength → (mappingLength - firstSlotOffset) / slotStride ≠ 0 →
        SlabChecksPass mappingLength firstSlotOffset slotStride := by
  obtain ⟨hsome, hnone⟩ := slabLayoutCompute_eq classCapacity.toNat pageSize.toNat
  obtain ⟨hsucceeds, hwritten, hkept⟩ := writeOutput_iff layout hsome hnone
  refine ⟨hsucceeds, fun hfits => ?_, hkept, ?_⟩
  · rw [hwritten hfits]
    exact hfits.exact
  · intro mappingLength firstSlotOffset slotStride hround _ hfirst _
    exact slabChecksPass (sizeRoundUpMultiple_eq_some (by decide) hround).2.2.2.2 hfirst slotStride

/-- The smallest class, with pages of 4096 bytes. -/
theorem slab_layout_exact_smallest : SlabFits 16 4096 ∧
    (writeOutput (slabLayoutCompute 16 4096) ⟨0, 0, 0, 0, 0, 0⟩).2.Exact 16 4096 := by
  have hfits : SlabFits 16 4096 := ⟨by decide, by decide, by decide, by decide, by decide⟩
  exact ⟨hfits, (slab_layout_exact 16 4096 ⟨0, 0, 0, 0, 0, 0⟩).2.1 hfits⟩

/-! ### Large blocks -/

/-- The length of the mapping a large request needs. -/
def largeLength (requestedSize pageSize : Nat) : Nat :=
  leastMultiple (payloadDistance + requestedSize) pageSize

/-- A large mapping for this request exists for this page size. -/
structure LargeFits (requestedSize pageSize : Nat) : Prop where
  size_ne_zero : requestedSize ≠ 0
  page_ne_zero : pageSize ≠ 0
  length_le : largeLength requestedSize pageSize ≤ sizeMax

theorem largeLength_spec (requestedSize : Nat) {pageSize : Nat} (hpage : pageSize ≠ 0) :
    (pageSize ∣ largeLength requestedSize pageSize ∧
        payloadDistance + requestedSize ≤ largeLength requestedSize pageSize) ∧
      largeLength requestedSize pageSize < payloadDistance + requestedSize + pageSize := by
  have hpos : 0 < pageSize := Nat.pos_of_ne_zero hpage
  exact ⟨(isLeast_leastMultiple _ hpos).1, leastMultiple_lt _ hpos⟩

/-- **The computation in closed form.** -/
theorem largeLayoutCompute_eq (requestedSize pageSize : Nat) :
    (LargeFits requestedSize pageSize → largeLayoutCompute requestedSize pageSize
        = some ⟨payloadDistance, largeLength requestedSize pageSize⟩) ∧
      (¬ LargeFits requestedSize pageSize → largeLayoutCompute requestedSize pageSize = none) := by
  have hoffset : blockPayloadOffset = some payloadDistance := by decide
  unfold largeLayoutCompute
  rw [hoffset]
  simp only [Option.bind_eq_bind, Option.bind_some]
  constructor
  · intro hfits
    have hlength := hfits.length_le
    have hle := (largeLength_spec requestedSize hfits.page_ne_zero).1.2
    have hsum : payloadDistance + requestedSize ≤ sizeMax := by omega
    rw [if_neg (by simp [hfits.size_ne_zero, hfits.page_ne_zero]), sizeAdd_of_le hsum,
      Option.bind_some, sizeRoundUpMultiple_eq hsum, if_pos ⟨hfits.page_ne_zero, hlength⟩]
    rfl
  · intro hunfit
    by_contra hsome
    obtain ⟨layout, hlayout⟩ := Option.ne_none_iff_exists'.mp hsome
    split at hlayout
    · simp at hlayout
    rename_i hnonzero
    obtain ⟨hsize, hpage⟩ := not_or.mp hnonzero
    obtain ⟨sum, hadd, hlayout⟩ := Option.bind_eq_some_iff.mp hlayout
    obtain ⟨length, hround, -⟩ := Option.bind_eq_some_iff.mp hlayout
    obtain ⟨rfl, hsum⟩ := sizeAdd_eq_some (by decide) hadd
    rw [sizeRoundUpMultiple_eq hsum] at hround
    split at hround
    · rename_i hlength
      exact hunfit ⟨hsize, hpage, hlength.2⟩
    · simp at hround

/-- A rounded length is not changed by rounding it again. -/
theorem LargeFits.round_again {requestedSize pageSize : Nat} (hfits : LargeFits requestedSize pageSize) :
    sizeRoundUpMultiple (largeLength requestedSize pageSize) pageSize
      = some (largeLength requestedSize pageSize) := by
  have hdvd := (largeLength_spec requestedSize hfits.page_ne_zero).1.1
  have hpos : 0 < pageSize := Nat.pos_of_ne_zero hfits.page_ne_zero
  rw [sizeRoundUpMultiple_eq hfits.length_le, leastMultiple_of_dvd hpos hdvd,
    if_pos ⟨hfits.page_ne_zero, hfits.length_le⟩]

/-- The block `hplf_allocate_large` creates at `a` in the state `s`. -/
structure LargeBlock {Tid : Type} (s : State Tid) (a requestedSize pageSize : Nat) (layout : LargeLayout) :
    Prop where
  mapped : ⟨a, layout.mappingLength⟩ ∈ s.mapped
  no_underflow : layout.payloadOffset ≤ layout.mappingLength
  header : ∃ b, s.memory.block a = some b ∧ b.kind = .large ∧
    b.owner = .large a layout.mappingLength ∧ b.requestedSize = requestedSize ∧
    b.capacity = layout.mappingLength - layout.payloadOffset ∧ requestedSize ≤ b.capacity ∧
    b.capacity < requestedSize + pageSize ∧ layout.payloadOffset + b.capacity = layout.mappingLength

section Allocate

variable {Tid : Type} [DecidableEq Tid] {w : World} {s s' : State Tid} {t : Tid} {pageSize : Nat}

/-- A query answers the page size if every query does. -/
theorem osPageSize_const (hconst : ∀ n, w.sysconf n = pageSize) (s : State Tid) (t : Tid) {answer : Nat}
    (hquery : osPageSize w s t = (s', some answer)) : answer = pageSize := by
  unfold osPageSize at hquery
  simp only [hconst] at hquery
  split at hquery
  · simp at hquery
  · simp only [Prod.mk.injEq, Option.some.injEq, Int.toNat_natCast] at hquery
    exact hquery.2.symm

/-- The mapping has the length asked for, if that is a multiple of the page size. -/
theorem osMap_exact (hconst : ∀ n, w.sysconf n = pageSize) {length : Nat}
    (hround : sizeRoundUpMultiple length pageSize = some length) {mapping : Mapping}
    (hmap : osMap w s t length = (s', some mapping)) :
    mapping.length = length ∧ mapping ∈ s'.mapped := by
  unfold osMap at hmap
  split at hmap
  · simp at hmap
  split at hmap
  · simp at hmap
  rename_i s₁ answer hquery
  obtain rfl := osPageSize_const hconst s t hquery
  rw [hround] at hmap
  simp only at hmap
  split at hmap
  · simp at hmap
  · simp only [Prod.mk.injEq, Option.some.injEq] at hmap
    obtain ⟨rfl, rfl⟩ := hmap
    exact ⟨rfl, List.mem_cons_self⟩

/-- Every query answers this page size, and it leaves room for the layouts. -/
structure Pages (w : World) (pageSize : Nat) : Prop where
  const : ∀ n, w.sysconf n = pageSize
  pos : 0 < pageSize
  le : pageSize ≤ 2 ^ 62

theorem Pages.query (hpages : Pages w pageSize) (s : State Tid) (t : Tid) :
    osPageSize w s t = ({ s with pageQueries := s.pageQueries + 1 }, some pageSize) := by
  have hgood : ¬ ((pageSize : Int) ≤ 0 ∨ (pageSize : Int).toNat > sizeMax) := by
    have hpos := hpages.pos
    have hle := hpages.le
    unfold sizeMax
    omega
  unfold osPageSize
  dsimp only
  rw [hpages.const, if_neg hgood, Int.toNat_natCast]

/-- A mapping that fails was refused, if its length is a multiple of the page size. -/
theorem Pages.osMap_refused (hpages : Pages w pageSize) {length : Nat} (hlength : length ≠ 0)
    (hround : sizeRoundUpMultiple length pageSize = some length) (hmap : osMap w s t length = (s', none)) :
    s'.mapOutcomes = s.mapOutcomes ++ [false] := by
  rw [osMap, if_neg hlength, hpages.query] at hmap
  simp only [hround] at hmap
  split at hmap
  · rename_i e herror
    rw [← (Prod.mk.inj hmap).1, herror]
    rfl
  · simp at hmap

theorem Pages.slabFits (hpages : Pages w pageSize) (c : ClassIndex) : SlabFits (sizeClassCapacities c) pageSize := by
  have hlength := isLeast_leastMultiple slabTargetBytes hpages.pos
  have hlt := leastMultiple_lt slabTargetBytes hpages.pos
  have hstride := leastMultiple_lt (payloadDistance + sizeClassCapacities c) (show 0 < payloadAlignment by decide)
  have hcapacity := sizeClassCapacities_le c
  have hle := hpages.le
  have hge : slabTargetBytes ≤ slabLength pageSize := hlength.1.2
  have hheader := headerLength_eq
  have hdistance := payloadDistance_eq
  refine ⟨(sizeClassCapacities_pos c).ne', hpages.pos.ne', ?_, ?_, ?_⟩
  · unfold slabLength sizeMax slabTargetBytes at *
    omega
  · unfold strideFor sizeMax payloadAlignment maxSmallSize at *
    omega
  · unfold strideFor slabTargetBytes payloadAlignment maxSmallSize at *
    omega

/-- The creation of a slab fails only if its mapping is refused. -/
theorem Pages.slabCreate_refused (hpages : Pages w pageSize) {c : ClassIndex}
    (hcreate : slabCreate w s t c (sizeClassCapacities c) = (s', none)) :
    s'.mapOutcomes = s.mapOutcomes ++ [false] := by
  have hfits := hpages.slabFits c
  have hdvd : pageSize ∣ slabLength pageSize := (isLeast_leastMultiple slabTargetBytes hpages.pos).1.1
  have hround : sizeRoundUpMultiple (slabLength pageSize) pageSize = some (slabLength pageSize) := by
    rw [sizeRoundUpMultiple_eq hfits.length_le, leastMultiple_of_dvd hpages.pos hdvd,
      if_pos ⟨hfits.page_ne_zero, hfits.length_le⟩]
  have hne : slabLength pageSize ≠ 0 := by
    have hone := hfits.one_slot
    have hpos := strideFor_pos (sizeClassCapacities c)
    omega
  unfold slabCreate at hcreate
  rw [hpages.query] at hcreate
  simp only [(slabLayoutCompute_eq _ _).1 hfits] at hcreate
  split at hcreate
  · rename_i s₁ hmap
    have hrefused := hpages.osMap_refused hne hround hmap
    rw [← (Prod.mk.inj hcreate).1, hrefused]
  · simp at hcreate

/-- A large allocation within `PTRDIFF_MAX` fails only if its mapping is refused. -/
theorem Pages.allocateLarge_refused (hpages : Pages w pageSize) {size : Nat} (hsize : 0 < size ∧ size ≤ ptrdiffMax)
    (hallocate : allocateLarge w s t size = (s', none)) : s'.mapOutcomes = s.mapOutcomes ++ [false] := by
  have hspec := largeLength_spec size hpages.pos.ne'
  have hle := hpages.le
  have hdistance := payloadDistance_eq
  have hfits : LargeFits size pageSize := by
    refine ⟨hsize.1.ne', hpages.pos.ne', ?_⟩
    unfold sizeMax ptrdiffMax at *
    omega
  have hne : largeLength size pageSize ≠ 0 := by omega
  unfold allocateLarge at hallocate
  rw [hpages.query] at hallocate
  simp only [(largeLayoutCompute_eq size pageSize).1 hfits] at hallocate
  split at hallocate
  · rename_i s₁ hmap
    have hrefused := hpages.osMap_refused hne hfits.round_again hmap
    rw [← (Prod.mk.inj hallocate).1]
    exact hrefused
  · simp [blockPayload_some] at hallocate

/-- **Large allocation.** The second rounding changes nothing, so the block accounts for all of the
mapping the layout asked for. -/
theorem allocateLarge_block (hconst : ∀ n, w.sysconf n = pageSize) {requestedSize p : Nat}
    (hallocate : allocateLarge w s t requestedSize = (s', some p)) :
    ∃ layout a, largeLayoutCompute requestedSize pageSize = some layout ∧
      blockPayload (some a) = some p ∧ LargeBlock s' a requestedSize pageSize layout := by
  unfold allocateLarge at hallocate
  split at hallocate
  · simp at hallocate
  rename_i s₁ answer hquery
  obtain rfl := osPageSize_const hconst s t hquery
  split at hallocate
  · simp at hallocate
  rename_i layout hlayout
  have hfits : LargeFits requestedSize answer := by
    by_contra hunfit
    rw [(largeLayoutCompute_eq requestedSize answer).2 hunfit] at hlayout
    simp at hlayout
  rw [(largeLayoutCompute_eq requestedSize answer).1 hfits] at hlayout
  obtain rfl := Option.some.inj hlayout
  split at hallocate
  · simp at hallocate
  rename_i s₂ mapping hmap
  obtain ⟨hlength, hmapped⟩ := osMap_exact hconst hfits.round_again hmap
  obtain ⟨⟨-, hle⟩, hlt⟩ := largeLength_spec requestedSize hfits.page_ne_zero
  have hfit := hfits.length_le
  have hcapacity : sizeSub mapping.length payloadDistance
      = largeLength requestedSize answer - payloadDistance := by
    rw [hlength, sizeSub_of_le (by omega) (by unfold sizeMax at hfit; omega)]
  simp only [Prod.mk.injEq] at hallocate
  obtain ⟨rfl, hpayload⟩ := hallocate
  refine ⟨_, mapping.base, (largeLayoutCompute_eq requestedSize answer).1 hfits, hpayload, ?_, ?_, ?_⟩
  · simp only [← hlength]
    exact hmapped
  · simp only
    omega
  · exact ⟨_, initBlock_self _ _ _, rfl, by rw [hlength], rfl, hcapacity, by simp only; omega,
      by simp only; omega, by simp only; omega⟩

end Allocate

/-- **Large layouts.** For all 64-bit requests and page sizes the computation succeeds exactly if both are
nonzero and the least multiple of the page size that holds the prefix and the request is a size; that
multiple is then the mapping length, and otherwise the output is left alone. Rounding it again as
`hplf_os_map` does never fails and changes nothing, and if every query answers this page size, every block
`hplf_allocate_large` returns has the mapping of the computed length, with a capacity that holds the
request and exceeds it by less than a page. -/
theorem large_layout_exact (requestedSize pageSize : UInt64) (layout : LargeLayout) :
    ((writeOutput (largeLayoutCompute requestedSize.toNat pageSize.toNat) layout).1 = true ↔
        LargeFits requestedSize.toNat pageSize.toNat) ∧
      (LargeFits requestedSize.toNat pageSize.toNat →
        IsLeast {x | pageSize.toNat ∣ x ∧ payloadDistance + requestedSize.toNat ≤ x}
          (writeOutput (largeLayoutCompute requestedSize.toNat pageSize.toNat) layout).2.mappingLength ∧
        sizeRoundUpMultiple
            (writeOutput (largeLayoutCompute requestedSize.toNat pageSize.toNat) layout).2.mappingLength
            pageSize.toNat
          = some (writeOutput (largeLayoutCompute requestedSize.toNat pageSize.toNat)
              layout).2.mappingLength) ∧
      (¬ LargeFits requestedSize.toNat pageSize.toNat →
        (writeOutput (largeLayoutCompute requestedSize.toNat pageSize.toNat) layout).2 = layout) ∧
      ∀ (Tid : Type) [DecidableEq Tid] (w : World) (s s' : State Tid) (t : Tid) (p : Nat),
        (∀ n, w.sysconf n = pageSize.toNat) →
        allocateLarge w s t requestedSize.toNat = (s', some p) →
        ∃ layout a, largeLayoutCompute requestedSize.toNat pageSize.toNat = some layout ∧
          blockPayload (some a) = some p ∧
          LargeBlock s' a requestedSize.toNat pageSize.toNat layout := by
  obtain ⟨hsome, hnone⟩ := largeLayoutCompute_eq requestedSize.toNat pageSize.toNat
  obtain ⟨hsucceeds, hwritten, hkept⟩ := writeOutput_iff layout hsome hnone
  refine ⟨hsucceeds, fun hfits => ?_, hkept, ?_⟩
  · rw [hwritten hfits]
    exact ⟨isLeast_leastMultiple _ (Nat.pos_of_ne_zero hfits.page_ne_zero), hfits.round_again⟩
  · exact fun Tid _ w s s' t p hconst hallocate => allocateLarge_block hconst hallocate

/-- A request of 5000 bytes with pages of 4096 bytes. -/
theorem large_layout_exact_two_pages : ∃ (s : State (Fin 2)) (p : Nat),
    allocateLarge (bumpWorld fun _ => none) State.initial 0 5000 = (s, some p) ∧
      ∃ layout a, largeLayoutCompute 5000 4096 = some layout ∧ blockPayload (some a) = some p ∧
        LargeBlock s a 5000 4096 layout := by
  have hreturns : (allocateLarge (bumpWorld fun _ => none) State.initial (0 : Fin 2) 5000).2
      = some 4144 := by decide +kernel
  refine ⟨(allocateLarge (bumpWorld fun _ => none) State.initial (0 : Fin 2) 5000).1, 4144,
    Prod.ext rfl hreturns, ?_⟩
  exact (large_layout_exact 5000 4096 ⟨0, 0⟩).2.2.2 (Fin 2) (bumpWorld fun _ => none) State.initial _
    0 4144 (fun _ => rfl) (Prod.ext rfl hreturns)

end Hplf
