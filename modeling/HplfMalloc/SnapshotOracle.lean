import HplfMalloc.BumpWorld
import HplfMalloc.CacheBounds
import HplfMalloc.Proof.SnapshotLemmas

/-!
# The consistency oracle is exact

`hplf_cached_test_snapshot` on any chains over readable prefixes and any properly initialised registry: it
returns true exactly if the calling thread's counters match and every listed block is a slot of its class that
is listed once.
-/

namespace Hplf

open Lib Memory
open scoped BigOperators

variable {Tid : Type} {s : State Tid} {t : Tid} {m : Memory} {slabs : Ptr} {bases : List Nat}
variable {locals chains : ClassIndex → List Nat}

/-- All blocks on the lists of the calling thread and on the transfer lists. -/
def allListed (locals chains : ClassIndex → List Nat) : List Nat :=
  classIndices.flatMap locals ++ classIndices.flatMap chains

/-- What the oracle may be asked about: the registered slabs are initialised and disjoint, the lists of the
calling thread are the chains `locals` and the transfer lists the chains `chains`. -/
structure Inspectable (s : State Tid) (t : Tid) (bases : List Nat) (locals chains : ClassIndex → List Nat) :
    Prop where
  registry : SlabRegistry s.memory s.slabs bases
  cached : ∀ d, cacheCurrent s t = some d → ∃ descriptor, s.descriptor d = some descriptor ∧
    ∀ c, Chain s.memory.next (descriptor.cache.heads c) (locals c)
  uncached : cacheCurrent s t = none → ∀ c, locals c = []
  shared : ∀ c, Chain s.memory.next (s.sharedHeads c) (chains c)
  addresses : ∀ a ∈ allListed locals chains, a < addressSpace

/-- The counts and the byte total of the calling thread's cache match its lists. -/
def CountersMatch (s : State Tid) (t : Tid) (locals : ClassIndex → List Nat) : Prop :=
  ∀ d, cacheCurrent s t = some d → ∀ descriptor, s.descriptor d = some descriptor →
    (∀ c, descriptor.cache.counts c = (locals c).length) ∧
      descriptor.cache.totalSlotBytes = ∑ c, (locals c).length * sizeClassCapacities c

/-- Every listed block is small, a slot of the registered slab it names, on a list of that slab's class, and
listed once. -/
def BlocksValid (m : Memory) (bases : List Nat) (locals chains : ClassIndex → List Nat) : Prop :=
  ∀ c, ∀ a ∈ locals c ++ chains c, GenuineSlot m bases c a ∧ (allListed locals chains).count a = 1

theorem mem_allListed {a : Nat} : a ∈ allListed locals chains ↔ ∃ c, a ∈ locals c ++ chains c := by
  simp only [allListed, List.mem_append, List.mem_flatMap, mem_classIndices, true_and]
  constructor
  · rintro (⟨c, hc⟩ | ⟨c, hc⟩)
    · exact ⟨c, Or.inl hc⟩
    · exact ⟨c, Or.inr hc⟩
  · rintro ⟨c, hc | hc⟩
    · exact Or.inl ⟨c, hc⟩
    · exact Or.inr ⟨c, hc⟩

/-! ### The slots of the registry -/

theorem mem_registrySlots {a : Nat} :
    a ∈ registrySlots m bases ↔ ∃ base ∈ bases, ∃ h, m.slab base = some h ∧ a ∈ h.slots base := by
  rw [registrySlots, List.mem_flatMap]
  refine exists_congr fun base => and_congr_right fun _ => ?_
  cases hh : m.slab base with
  | none => simp [slotsAt, hh]
  | some h => simp [slotsAt, hh]

/-- Two slots of the registry are the same, or apart by at least the first one's extent or the second one's. -/
theorem SlabRegistry.slots_separate (hreg : SlabRegistry m slabs bases) {base base' a a' : Nat} {h h' : Slab}
    (hbase : base ∈ bases) (hbase' : base' ∈ bases) (hh : m.slab base = some h) (hh' : m.slab base' = some h')
    (ha : a ∈ h.slots base) (ha' : a' ∈ h'.slots base') :
    (base = base' ∧ a = a') ∨ a + (sizeofBlock + h.classCapacity) ≤ a' ∨
      a' + (sizeofBlock + h'.classCapacity) ≤ a := by
  obtain ⟨hwf, -⟩ := hreg.bounds hbase hh
  obtain ⟨hwf', -⟩ := hreg.bounds hbase' hh'
  by_cases hsame : base = base'
  · subst hsame
    obtain rfl := Option.some.inj (hh.symm.trans hh')
    by_cases heq : a = a'
    · exact Or.inl ⟨rfl, heq⟩
    · have hapart := slots_apart ha ha' heq
      have hstride := hwf.stride_le
      exact Or.inr (by omega)
  · have hapart := hreg.apart base hbase base' hbase' hsame h h' hh hh'
    rw [hwf.mapping_eq, hwf'.mapping_eq] at hapart
    obtain ⟨hlow, hhigh⟩ := hwf.slot_bounds ha
    obtain ⟨hlow', hhigh'⟩ := hwf'.slot_bounds ha'
    unfold Mapping.Apart at hapart
    dsimp only at hapart
    exact Or.inr (by omega)

theorem SlabRegistry.slot_address (hreg : SlabRegistry m slabs bases) {a : Nat}
    (ha : a ∈ registrySlots m bases) : 0 < a ∧ a < addressSpace := by
  obtain ⟨base, hbase, h, hh, hslot⟩ := mem_registrySlots.mp ha
  obtain ⟨hwf, hpos, hfits, -⟩ := hreg.bounds hbase hh
  obtain ⟨hlow, hhigh⟩ := hwf.slot_bounds hslot
  unfold sizeofBlock at hhigh
  omega

theorem SlabRegistry.nodup_slots (hreg : SlabRegistry m slabs bases) : (registrySlots m bases).Nodup := by
  refine List.nodup_flatMap.mpr ⟨fun base hbase => ?_, ?_⟩
  · obtain ⟨h, hh, hwf, -⟩ := hreg.slab base hbase
    rw [slotsAt_of_slab hh]
    exact hwf.slots_nodup
  · refine List.Pairwise.imp_of_mem ?_ hreg.chain.nodup
    intro base base' hbase hbase' hne a ha ha'
    obtain ⟨h, hh, -⟩ := hreg.slab base hbase
    obtain ⟨h', hh', -⟩ := hreg.slab base' hbase'
    rw [slotsAt_of_slab hh] at ha
    rw [slotsAt_of_slab hh'] at ha'
    have hpos : 0 < sizeofBlock := by decide
    rcases hreg.slots_separate hbase hbase' hh hh' ha ha' with ⟨heq, -⟩ | hapart
    · exact hne heq
    · omega

theorem SlabRegistry.length_slots_lt (hreg : SlabRegistry m slabs bases) :
    (registrySlots m bases).length < addressSpace :=
  length_le_addressSpace hreg.nodup_slots fun _ => hreg.slot_address

/-! ### Valid blocks -/

theorem GenuineSlot.mem_registrySlots {c : ClassIndex} {a : Nat} (hgenuine : GenuineSlot m bases c a) :
    a ∈ registrySlots m bases := by
  obtain ⟨b, -, -, howner, h, hh, -, hslot⟩ := hgenuine
  exact Hplf.mem_registrySlots.mpr ⟨_, howner, h, hh, hslot⟩

theorem BlocksValid.nodup (hvalid : BlocksValid m bases locals chains) : (allListed locals chains).Nodup := by
  apply List.nodup_iff_count_le_one.mpr
  intro a
  by_cases ha : a ∈ allListed locals chains
  · obtain ⟨c, hc⟩ := mem_allListed.mp ha
    exact (hvalid c a hc).2.le
  · rw [List.count_eq_zero_of_not_mem ha]
    exact Nat.zero_le 1

theorem BlocksValid.subset (hvalid : BlocksValid m bases locals chains) :
    allListed locals chains ⊆ registrySlots m bases := by
  intro a ha
  obtain ⟨c, hc⟩ := mem_allListed.mp ha
  exact (hvalid c a hc).1.mem_registrySlots

/-- The blocks of a cache whose lists are valid are separate objects, so that their bytes are a size. -/
theorem BlocksValid.separate (hreg : SlabRegistry m slabs bases) (hvalid : BlocksValid m bases locals chains) :
    Separate locals := by
  have hslot : ∀ c, ∀ a ∈ locals c, ∃ base ∈ bases, ∃ h, m.slab base = some h ∧ h.classIndex = c ∧
      slotBytes c = sizeofBlock + h.classCapacity ∧ a ∈ h.slots base := by
    intro c a ha
    obtain ⟨⟨b, -, -, howner, h, hh, hclass, hslot⟩, -⟩ := hvalid c a (List.mem_append_left _ ha)
    obtain ⟨hwf, -⟩ := hreg.bounds howner hh
    exact ⟨_, howner, h, hh, hclass, by rw [slotBytes, hwf.capacity, hclass], hslot⟩
  refine ⟨fun c a ha => ?_, fun c e a ha a' ha' hne => ?_⟩
  · obtain ⟨base, hbase, h, hh, -, hbytes, hmem⟩ := hslot c a ha
    obtain ⟨hwf, -, hfits, -⟩ := hreg.bounds hbase hh
    obtain ⟨-, hhigh⟩ := hwf.slot_bounds hmem
    omega
  · obtain ⟨base, hbase, h, hh, hclass, hbytes, hmem⟩ := hslot c a ha
    obtain ⟨base', hbase', h', hh', hclass', hbytes', hmem'⟩ := hslot e a' ha'
    rcases hreg.slots_separate hbase hbase' hh hh' hmem hmem' with ⟨rfl, rfl⟩ | hapart
    · obtain rfl := Option.some.inj (hh.symm.trans hh')
      exact absurd (by rw [← hclass, hclass']) hne
    · rwa [hbytes, hbytes']

/-- Every listed block has been found by the inspection of the list it is on. -/
theorem blocksValid_iff : BlocksValid m bases locals chains ↔ ∀ c ∈ classIndices,
    (∀ a ∈ locals c, GenuineSlot m bases c a ∧ (classIndices.flatMap chains).count a = 0 ∧
      (classIndices.flatMap locals).count a = 1) ∧
    ∀ a ∈ chains c, GenuineSlot m bases c a ∧ (classIndices.flatMap chains).count a = 1 := by
  have hmem : ∀ (lists : ClassIndex → List Nat) c a, a ∈ lists c → 0 < (classIndices.flatMap lists).count a :=
    fun lists c a ha => List.count_pos_iff.mpr (List.mem_flatMap.mpr ⟨c, mem_classIndices c, ha⟩)
  constructor
  · intro hvalid c _
    refine ⟨fun a ha => ?_, fun a ha => ?_⟩
    · obtain ⟨hgenuine, hcount⟩ := hvalid c a (List.mem_append_left _ ha)
      have hpos := hmem locals c a ha
      rw [allListed, List.count_append] at hcount
      exact ⟨hgenuine, by omega, by omega⟩
    · obtain ⟨hgenuine, hcount⟩ := hvalid c a (List.mem_append_right _ ha)
      have hpos := hmem chains c a ha
      rw [allListed, List.count_append] at hcount
      exact ⟨hgenuine, by omega⟩
  · intro hvalid c a ha
    rw [allListed, List.count_append]
    rcases List.mem_append.mp ha with ha | ha
    · obtain ⟨hgenuine, hzero, hone⟩ := (hvalid c (mem_classIndices c)).1 a ha
      exact ⟨hgenuine, by omega⟩
    · obtain ⟨hgenuine, hone⟩ := (hvalid c (mem_classIndices c)).2 a ha
      refine ⟨hgenuine, ?_⟩
      -- On a local list it would have been rejected there.
      have hzero : (classIndices.flatMap locals).count a = 0 := by
        apply List.count_eq_zero_of_not_mem
        intro hlocal
        obtain ⟨e, -, he⟩ := List.mem_flatMap.mp hlocal
        have hnone := ((hvalid e (mem_classIndices e)).1 a he).2.1
        omega
      omega

/-! ### The result -/

theorem CachedTestSnapshot.settle_eq_true_iff (snapshot : CachedTestSnapshot) :
    (snapshot.settle.2 && snapshot.settle.1.cacheCountsMatch && snapshot.settle.1.transferCountsMatch
        && snapshot.settle.1.uniqueFreeBlocks) = true ↔
      snapshot.settle.2 = true ∧ snapshot.cacheCountsMatch = true ∧ snapshot.transferCountsMatch = true ∧
        snapshot.uniqueFreeBlocks = true := by
  unfold CachedTestSnapshot.settle
  split
  · simp
  · simp [and_assoc]

theorem CachedTestSnapshot.settle_of_le {snapshot : CachedTestSnapshot} (htotal : snapshot.totalSlots < 2 ^ 64)
    (hle : snapshot.sharedFreeBlocks + snapshot.currentLocalBlocks ≤ snapshot.totalSlots) :
    snapshot.settle = ({ snapshot with
      liveBlocks := snapshot.totalSlots - snapshot.sharedFreeBlocks - snapshot.currentLocalBlocks }, true) := by
  have hshared : sizeSub snapshot.totalSlots snapshot.sharedFreeBlocks
      = snapshot.totalSlots - snapshot.sharedFreeBlocks := by
    unfold sizeSub sizeT
    omega
  have hlive : sizeSub (snapshot.totalSlots - snapshot.sharedFreeBlocks) snapshot.currentLocalBlocks
      = snapshot.totalSlots - snapshot.sharedFreeBlocks - snapshot.currentLocalBlocks := by
    unfold sizeSub sizeT
    omega
  rw [CachedTestSnapshot.settle, hshared, hlive, if_neg (by omega)]

theorem Inspectable.length_le (hinspect : Inspectable s t bases locals chains) {xs : List Nat} {p : Ptr}
    (hchain : Chain s.memory.next p xs) (hsub : xs ⊆ allListed locals chains) : xs.length ≤ addressSpace :=
  length_le_of_addresses hchain.nodup fun a ha => hinspect.addresses a (hsub ha)

theorem subset_allListed (c : ClassIndex) :
    locals c ⊆ allListed locals chains ∧ chains c ⊆ allListed locals chains :=
  ⟨fun _ ha => mem_allListed.mpr ⟨c, List.mem_append_left _ ha⟩,
    fun _ ha => mem_allListed.mpr ⟨c, List.mem_append_right _ ha⟩⟩

/-- **The calling thread.** Its lists are found, and its counters compared with them. -/
theorem Inspectable.localSnapshot (hinspect : Inspectable s t bases locals chains) :
    ∃ cached localHeads r, Hplf.localSnapshot s t = some (cached, localHeads, r) ∧
      Listed s.memory localHeads locals ∧ (r = true → cached.counts = fun c => (locals c).length) ∧
      (BlocksValid s.memory bases locals chains → (r = true ↔ CountersMatch s t locals)) := by
  cases hcurrent : cacheCurrent s t with
  | none =>
      have hnil := hinspect.uncached hcurrent
      refine ⟨⟨fun _ => 0, fun _ => 0, 0, 0⟩, fun _ => none, true, ?_, ⟨fun c => ?_, fun c => ?_⟩, fun _ => ?_,
        fun _ => ?_⟩
      · simp only [Hplf.localSnapshot, hcurrent]
      · rw [hnil c]
        rfl
      · rw [hnil c]
        exact Nat.zero_le _
      · funext c
        rw [hnil c]
        rfl
      · exact iff_of_true rfl fun d hd => by rw [hcurrent] at hd; simp at hd
  | some d =>
      obtain ⟨descriptor, hmapped, hchain⟩ := hinspect.cached d hcurrent
      have hlength : ∀ c, (locals c).length ≤ addressSpace := fun c =>
        hinspect.length_le (hchain c) (subset_allListed c).1
      obtain ⟨cached, r, hsnapshot, hcounts, -, hr⟩ := threadCacheSnapshot_of_chains hchain hlength
      refine ⟨cached, descriptor.cache.heads, r, ?_, ⟨hchain, hlength⟩, fun htrue => ?_, fun hvalid => ?_⟩
      · simp only [Hplf.localSnapshot, hcurrent, hmapped, hsnapshot, Option.bind_eq_bind, Option.bind_some]
      · rw [hcounts]
        exact funext (hr.mp htrue).1
      · have hbytes := (BlocksValid.separate hinspect.registry hvalid).bytes_lt fun c => (hchain c).nodup
        have hsize : sizeT (∑ c, (locals c).length * sizeClassCapacities c)
            = ∑ c, (locals c).length * sizeClassCapacities c := Nat.mod_eq_of_lt hbytes
        rw [hr, hsize]
        constructor
        · rintro ⟨hcount, htotal⟩ d' hd' descriptor' hmapped'
          obtain rfl := Option.some.inj (hcurrent.symm.trans hd')
          obtain rfl := Option.some.inj (hmapped.symm.trans hmapped')
          exact ⟨hcount, htotal.symm⟩
        · intro hmatch
          obtain ⟨hcount, htotal⟩ := hmatch d hcurrent descriptor hmapped
          exact ⟨hcount, htotal.symm⟩

/-- The listed blocks are some of the slots; the others are live. -/
theorem BlocksValid.live (hreg : SlabRegistry m slabs bases) (hvalid : BlocksValid m bases locals chains) :
    (classIndices.flatMap chains).length + (classIndices.flatMap locals).length
        ≤ (registrySlots m bases).length ∧
      (registrySlots m bases).length - (classIndices.flatMap chains).length
          - (classIndices.flatMap locals).length
        = ((registrySlots m bases).filter fun a => decide (a ∉ allListed locals chains)).length := by
  have hperm : ((registrySlots m bases).filter fun a => decide (a ∈ allListed locals chains)).Perm
      (allListed locals chains) := by
    apply (List.perm_ext_iff_of_nodup (hreg.nodup_slots.filter _) hvalid.nodup).mpr
    intro a
    rw [List.mem_filter, decide_eq_true_eq]
    exact ⟨And.right, fun ha => ⟨hvalid.subset ha, ha⟩⟩
  have hsplit := List.length_eq_length_filter_add (l := registrySlots m bases)
    fun a => decide (a ∈ allListed locals chains)
  rw [hperm.length_eq, allListed, List.length_append] at hsplit
  have hnot : (registrySlots m bases).filter (fun a => decide (a ∉ allListed locals chains))
      = (registrySlots m bases).filter fun a => !decide (a ∈ allListed locals chains) :=
    List.filter_congr fun a _ => by simp
  rw [hnot, allListed]
  omega


/-- **One call.** The oracle returns, restores every transfer list, and decides what it is meant to decide. -/
theorem Inspectable.snapshot (hinspect : Inspectable s t bases locals chains) :
    ∃ snapshot result, cachedTestSnapshot s t = some (s, snapshot, result) ∧
      (result = true ↔ CountersMatch s t locals ∧ BlocksValid s.memory bases locals chains) ∧
      (result = true → snapshot.liveBlocks
        = ((registrySlots s.memory bases).filter fun a => decide (a ∉ allListed locals chains)).length) := by
  have hreg := hinspect.registry
  obtain ⟨cached, localHeads, r, hlocal, hlisted, hcounts, hr⟩ := hinspect.localSnapshot
  have hshared : ∀ c, (chains c).length ≤ addressSpace := fun c =>
    hinspect.length_le (hinspect.shared c) (subset_allListed c).2
  have hbases : bases.length ≤ addressSpace := by
    apply length_le_of_addresses hreg.chain.nodup
    intro base hbase
    obtain ⟨h, hh, -⟩ := hreg.slab base hbase
    obtain ⟨hwf, -, hfits, -⟩ := hreg.bounds hbase hh
    have hheader := hwf.header_le
    unfold sizeofSlab at hheader
    omega
  obtain ⟨lists, hdetach, hlists, -⟩ := detachLists_of_chains classIndices s (fun _ => .clear)
    (fun c _ => ⟨hinspect.shared c, hshared c⟩) nodup_classIndices
  simp only [mem_classIndices, if_true, true_implies] at hdetach hlists
  have htotals := registryTotals_of_chain (k := 0) (n := 0) hreg.chain hbases
  rw [show sizeT 0 = 0 from rfl, Nat.zero_add, Nat.zero_add] at htotals
  have hslots : sizeT (registrySlots s.memory bases).length = (registrySlots s.memory bases).length :=
    Nat.mod_eq_of_lt hreg.length_slots_lt
  have hblocks := foldl_counts cached.counts classIndices 0
  rw [show sizeT 0 = 0 from rfl, Nat.zero_add] at hblocks
  obtain ⟨unique, hinspected, hunique⟩ := inspectClasses_of_chains
    (s := { s with sharedHeads := fun _ => none }) hreg hbases (fun c => (hlists c).2) hlisted hshared
    classIndices
    { slabCount := bases.length
      totalSlots := (registrySlots s.memory bases).length
      sharedFreeBlocks := 0
      currentLocalBlocks := sizeT (classIndices.map cached.counts).sum
      currentLocalBytes := cached.totalSlotBytes
      liveBlocks := 0
      cacheCountsMatch := r
      transferCountsMatch := true
      uniqueFreeBlocks := true } 0 rfl
  rw [Nat.zero_add] at hinspected
  rw [← blocksValid_iff] at hunique
  have hpublish := publishLists_of_chains classIndices { s with sharedHeads := fun _ => none }
    (fun c _ => ⟨(hlists c).2, rfl⟩) nodup_classIndices
  simp only [mem_classIndices, if_true] at hpublish
  have hheads : (fun c => (lists c).first) = s.sharedHeads := funext fun c => (hlists c).1
  rw [hheads] at hpublish
  set counted : CachedTestSnapshot := {
    slabCount := bases.length
    totalSlots := (registrySlots s.memory bases).length
    sharedFreeBlocks := sizeT (classIndices.flatMap chains).length
    currentLocalBlocks := sizeT (classIndices.map cached.counts).sum
    currentLocalBytes := cached.totalSlotBytes
    liveBlocks := 0
    cacheCountsMatch := r
    transferCountsMatch := true
    uniqueFreeBlocks := unique } with hcounted
  -- Blocks that are valid leave room in the registry, so that nothing wraps.
  have hfits : r = true → BlocksValid s.memory bases locals chains → counted.settle = ({ counted with
      liveBlocks := ((registrySlots s.memory bases).filter
        fun a => decide (a ∉ allListed locals chains)).length }, true) := by
    intro htrue hvalid
    obtain ⟨hle, hlive⟩ := hvalid.live hreg
    have hlt := hreg.length_slots_lt
    have hlocals : (classIndices.map cached.counts).sum = (classIndices.flatMap locals).length := by
      rw [hcounts htrue, List.length_flatMap]
    have hsizeLocal : counted.currentLocalBlocks = (classIndices.flatMap locals).length := by
      rw [← hlocals]
      apply Nat.mod_eq_of_lt
      rw [hlocals]
      calc (classIndices.flatMap locals).length
          ≤ (registrySlots s.memory bases).length := Nat.le_of_add_left_le hle
        _ < _ := hlt
    have hsizeShared : counted.sharedFreeBlocks = (classIndices.flatMap chains).length :=
      Nat.mod_eq_of_lt ((Nat.le_of_add_right_le hle).trans_lt hlt)
    have htotal : counted.totalSlots = (registrySlots s.memory bases).length := rfl
    rw [← htotal] at hle hlive hlt
    rw [CachedTestSnapshot.settle_of_le hlt (by rw [hsizeShared, hsizeLocal]; exact hle), ← hlive, hsizeShared,
      hsizeLocal]
  have hsettled := counted.settle_eq_true_iff
  refine ⟨counted.settle.1, _, ?_, hsettled.trans ?_, ?_⟩
  · simp only [cachedTestSnapshot, hlocal, hdetach, htotals, hslots, hblocks, hinspected, hpublish,
      Option.bind_eq_bind, Option.bind_some]
  · constructor
    · rintro ⟨-, hmatch, -, hfree⟩
      have hvalid := (hunique.mp hfree).2
      exact ⟨(hr hvalid).mp hmatch, hvalid⟩
    · rintro ⟨hmatch, hvalid⟩
      have htrue := (hr hvalid).mpr hmatch
      rw [hfits htrue hvalid]
      exact ⟨rfl, htrue, rfl, hunique.mpr ⟨rfl, hvalid⟩⟩
  · intro hresult
    obtain ⟨-, htrue, -, hfree⟩ := hsettled.mp hresult
    rw [hfits htrue (hunique.mp hfree).2]

/-! ### Reachable configurations -/

variable {k : Config Tid} {larges : List Nat} {g : Place Tid → List Nat}

theorem Storage.slabRegistry {leaked : List Mapping} (hst : Storage s leaked bases larges) :
    SlabRegistry s.memory s.slabs bases where
  chain := hst.registry
  slab base hbase := by
    obtain ⟨h, hh, hwf⟩ := hst.slab base hbase
    refine ⟨h, hh, hwf, hst.valid h.mapping (List.mem_append_left _ ?_)⟩
    rw [hst.ledger.mem_iff, List.mem_append, List.mem_append]
    exact Or.inl (Or.inl (mem_slabMappings hbase hh))
  apart _ hbase _ hbase' hne _ _ hh hh' := hst.slab_apart hbase hbase' hne hh hh'

/-- The lists of a thread and the transfer lists have no block in common and none twice. -/
theorem Inv.nodup_allListed (hinv : Inv k bases larges g) (t : Tid) :
    (allListed (fun c => g (.cache t c)) fun c => g (.shared c)).Nodup := by
  refine List.nodup_append'.mpr ⟨?_, ?_, ?_⟩
  · refine List.nodup_flatMap.mpr ⟨fun c _ => hinv.placed.nodup _, nodup_classIndices.imp ?_⟩
    intro c e hne a ha ha'
    have hplace := hinv.placed.disjoint ha ha'
    simp only [Place.cache.injEq, true_and] at hplace
    exact hne hplace
  · refine List.nodup_flatMap.mpr ⟨fun c _ => hinv.placed.nodup _, nodup_classIndices.imp ?_⟩
    intro c e hne a ha ha'
    have hplace := hinv.placed.disjoint ha ha'
    simp only [Place.shared.injEq] at hplace
    exact hne hplace
  · intro a ha ha'
    obtain ⟨c, -, hc⟩ := List.mem_flatMap.mp ha
    obtain ⟨e, -, he⟩ := List.mem_flatMap.mp ha'
    have hplace := hinv.placed.disjoint hc he
    simp at hplace

theorem Inv.blocksValid (hinv : Inv k bases larges g) (t : Tid) :
    BlocksValid k.state.memory bases (fun c => g (.cache t c)) fun c => g (.shared c) := by
  intro c a ha
  have hclass : InClass k.state.memory bases c a := by
    rcases List.mem_append.mp ha with ha | ha
    · exact (hinv.free_of_cache ha).1
    · exact (hinv.free_of_shared ha).1
  obtain ⟨base, hbase, h, hh, hindex, hslot⟩ := hclass
  obtain ⟨b, hb, hslotOf⟩ := hinv.storage.slot base hbase h hh a hslot
  have howner : b.owner.slab = base := by rw [hslotOf.owner]; rfl
  refine ⟨⟨b, hb, hslotOf.kind, ?_, h, ?_, hindex, ?_⟩, ?_⟩
  · rwa [howner]
  · rwa [howner]
  · rwa [howner]
  · exact List.count_eq_one_of_mem (hinv.nodup_allListed t) (mem_allListed.mpr ⟨c, ha⟩)

theorem Inv.inspectable (hinv : Inv k bases larges g) (hidle : k.pc t = .idle) :
    Inspectable k.state t bases (fun c => g (.cache t c)) (fun c => g (.shared c)) ∧
      CountersMatch k.state t fun c => g (.cache t c) := by
  have hcacheOf : k.cacheOf t = cacheCurrent k.state t := Config.cacheOf_eq_current (by rw [hidle]; rfl)
  refine ⟨⟨hinv.storage.slabRegistry, fun d hd => ?_, fun hnone c => ?_, fun c => hinv.holds (.shared c),
    fun a ha => ?_⟩, fun d hd descriptor hmapped => ?_⟩
  · obtain ⟨descriptor, hown⟩ := hinv.ownCache (hcacheOf.trans hd)
    exact ⟨descriptor, hown.ok.mapped, hown.chain⟩
  · exact hinv.cache_eq_nil (hcacheOf.trans hnone) c
  · obtain ⟨c, hc⟩ := mem_allListed.mp ha
    rcases List.mem_append.mp hc with hc | hc
    · exact (hinv.block_bounds hc).2
    · exact (hinv.block_bounds hc).2
  · obtain ⟨descriptor', hown, hrep⟩ := hinv.cacheRep (hcacheOf.trans hd)
    obtain rfl := Option.some.inj (hmapped.symm.trans hown.ok.mapped)
    refine ⟨hrep.count, ?_⟩
    rw [hrep.bytes]
    simp only [hrep.count]

variable [DecidableEq Tid]

/-- **The oracle is exact.** On every state whose registered slabs are initialised and disjoint and whose local
and transfer lists are chains of addresses, the call returns and leaves the state, every transfer chain included,
as it was. It returns true exactly if the counts and bytes of the calling thread's cache match its lists and every
listed block is small, a slot of the registered slab it names, on a list of that slab's class, and listed once.
Then `live_blocks` is the number of registered slots that are on none of the lists. In every reachable quiescent
configuration of the cached variant it returns true. -/
theorem snapshot_exact :
    (∀ (s : State Tid) (t : Tid) (bases : List Nat) (locals chains : ClassIndex → List Nat),
      Inspectable s t bases locals chains →
      ∃ snapshot result, cachedTestSnapshot s t = some (s, snapshot, result) ∧
        (result = true ↔ CountersMatch s t locals ∧ BlocksValid s.memory bases locals chains) ∧
        (result = true → snapshot.liveBlocks
          = ((registrySlots s.memory bases).filter fun a => decide (a ∉ allListed locals chains)).length)) ∧
    ∀ (w : World) (k : Config Tid) (t : Tid), (machine Tid .cached w).Reachable k → k.Quiescent →
      ∃ snapshot, cachedTestSnapshot k.state t = some (k.state, snapshot, true) := by
  refine ⟨fun _ _ _ _ _ hinspect => hinspect.snapshot, fun w k t hreach hquiescent => ?_⟩
  obtain ⟨bases, larges, g, hinv⟩ := safe_of_reachable hreach
  obtain ⟨hinspect, hmatch⟩ := hinv.inspectable (hquiescent t)
  obtain ⟨snapshot, result, hcall, hresult, -⟩ := hinspect.snapshot
  obtain rfl := hresult.mpr ⟨hmatch, hinv.blocksValid t⟩
  exact ⟨snapshot, hcall⟩

/-- One of fifteen slots is cached, one is shared and thirteen are live; and a client holds a block after its first
allocation. -/
theorem snapshot_exact_thirteen_live :
    (∃ (s : State (Fin 2)) (snapshot : CachedTestSnapshot), cachedTestSnapshot s 0 = some (s, snapshot, true) ∧
      s.sharedHeads ⟨15, by decide⟩ = some 8304 ∧ snapshot.liveBlocks = 13) ∧
    ∃ (k : Config (Fin 2)) (snapshot : CachedTestSnapshot), k.live.length = 1 ∧
      cachedTestSnapshot k.state 0 = some (k.state, snapshot, true) := by
  obtain ⟨hexact, hreachable⟩ := @snapshot_exact (Fin 2) _
  constructor
  · let c : ClassIndex := ⟨15, by decide⟩
    let h : Slab := ⟨none, 4096, 65536, 64, 4144, 15, 4096, c⟩
    let b : Block := ⟨.small 4096, none, 0, 4096, .small⟩
    let m : Memory := ((Memory.empty.initSlab 4096 h).initBlock 4160 b).initBlock 8304 b
    let locals : ClassIndex → List Nat := Function.update (fun _ => []) c [4160]
    let chains : ClassIndex → List Nat := Function.update (fun _ => []) c [8304]
    let descriptor : CacheDescriptor :=
      ⟨⟨fun e => (locals e).head?, fun e => (locals e).length, 4096⟩, 131072, 4096⟩
    let s : State (Fin 2) := { (.initial : State (Fin 2)) with
      memory := m
      slabs := some 4096
      sharedHeads := fun e => (chains e).head?
      descriptor := Function.update (fun _ => none) 131072 (some descriptor)
      currentState := fun _ => .active
      currentDescriptor := fun _ => some 131072 }
    have hslab : m.slab 4096 = some h := by decide
    have hlists : ∀ (x : Nat), m.next x = some none → ∀ e,
        Chain m.next (Function.update (fun _ => []) c [x] e).head? (Function.update (fun _ => []) c [x] e) := by
      intro x hx e
      by_cases he : e = c
      · rw [he, Function.update_self]
        exact ⟨rfl, none, hx, rfl⟩
      · rw [Function.update_of_ne he]
        rfl
    have hinspect : Inspectable s 0 [4096] locals chains := by
      refine ⟨⟨⟨rfl, none, by decide, rfl⟩, ?_, ?_⟩, ?_, ?_, hlists 8304 (by decide), by decide +kernel⟩
      · intro base hbase
        obtain rfl := List.mem_singleton.mp hbase
        refine ⟨h, hslab, ?_, ?_⟩
        · constructor <;> decide
        · constructor <;> decide
      · intro base hbase base' hbase' hne
        obtain rfl := List.mem_singleton.mp hbase
        exact absurd (List.mem_singleton.mp hbase').symm hne
      · intro d hd
        obtain rfl := Option.some.inj (show some 131072 = some d from hd)
        exact ⟨descriptor, rfl, hlists 4160 (by decide)⟩
      · intro hnone
        exact absurd (show some 131072 = none from hnone) (by simp)
    have hmatch : CountersMatch s 0 locals := by
      intro d hd descriptor' hmapped
      obtain rfl := Option.some.inj (show some 131072 = some d from hd)
      obtain rfl := Option.some.inj (show some descriptor = some descriptor' from hmapped)
      exact ⟨fun _ => rfl, by decide⟩
    have hvalid : BlocksValid m [4096] locals chains := by
      intro e a ha
      have he : e = c := by
        by_contra hne
        rw [show locals e = [] from Function.update_of_ne hne _ _,
          show chains e = [] from Function.update_of_ne hne _ _] at ha
        simp at ha
      subst he
      have hcases : a = 4160 ∨ a = 8304 := by
        rw [show locals c ++ chains c = [4160, 8304] from rfl] at ha
        simpa using ha
      rcases hcases with rfl | rfl
      · exact ⟨⟨b, by decide, rfl, by decide, h, hslab, rfl, by decide⟩, by decide +kernel⟩
      · exact ⟨⟨b, by decide, rfl, by decide, h, hslab, rfl, by decide⟩, by decide +kernel⟩
    obtain ⟨snapshot, result, hcall, hresult, hlive⟩ := hexact s 0 [4096] locals chains hinspect
    obtain rfl := hresult.mpr ⟨hmatch, hvalid⟩
    refine ⟨s, snapshot, hcall, rfl, (hlive rfl).trans ?_⟩
    decide +kernel
  · obtain ⟨k, hreach, hcheck⟩ := exists_makeMoves .cached (bumpWorld fun _ => none)
      (mallocMoves (0 : Fin 2)) (fun k => decide (∀ t, k.pc t = .idle) && k.live.length == 1)
      (by decide +kernel)
    simp only [Bool.and_eq_true, decide_eq_true_eq, beq_iff_eq] at hcheck
    obtain ⟨snapshot, hcall⟩ := hreachable _ k 0 hreach hcheck.1
    exact ⟨k, snapshot, hcheck.2, hcall⟩

end Hplf
