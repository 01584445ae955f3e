import HplfMalloc.Proof.CacheLists
import HplfMalloc.Proof.Geometry
import HplfMalloc.Proof.TrimLoop
import HplfMalloc.Snapshot

/-!
# The loops of the consistency oracle

What each loop of `hplf_cached_test_snapshot` computes over lists that are chains and slabs that are properly
initialised: membership in the registry, the number of occurrences, the inspection of a list, and the totals.
-/

namespace Hplf

open Lib Memory
open scoped BigOperators

variable {Tid : Type} {s : State Tid} {m : Memory} {bases : List Nat}

/-! ### The registry -/

/-- The slots of the slab at `base`. -/
def slotsAt (m : Memory) (base : Nat) : List Nat :=
  match m.slab base with
  | none => []
  | some h => h.slots base

/-- The slots of all registered slabs. -/
def registrySlots (m : Memory) (bases : List Nat) : List Nat := bases.flatMap (slotsAt m)

/-- The registered slabs are `bases`; their headers are initialised and their mappings are disjoint. -/
structure SlabRegistry (m : Memory) (slabs : Ptr) (bases : List Nat) : Prop where
  chain : Chain m.slabNext slabs bases
  slab : ∀ base ∈ bases, ∃ h, m.slab base = some h ∧ h.WellFormed base ∧ h.mapping.Valid
  apart : ∀ base ∈ bases, ∀ base' ∈ bases, base ≠ base' → ∀ h h', m.slab base = some h →
    m.slab base' = some h' → h.mapping.Apart h'.mapping

theorem slotsAt_of_slab {base : Nat} {h : Slab} (hh : m.slab base = some h) :
    slotsAt m base = h.slots base := by
  rw [slotsAt, hh]

/-- The slots of a slab are the addresses that pass the test of the oracle. -/
theorem Slab.WellFormed.mem_slots_iff {h : Slab} {base a : Nat} (hwf : h.WellFormed base) :
    a ∈ h.slots base ↔ base + h.firstSlotOffset ≤ a ∧
      (a - (base + h.firstSlotOffset)) % h.slotStride = 0 ∧
      (a - (base + h.firstSlotOffset)) / h.slotStride < h.slotCount := by
  have hpos : 0 < h.slotStride := by
    have hstride := hwf.stride_le
    unfold sizeofBlock at hstride
    omega
  rw [Slab.slots, List.mem_map]
  constructor
  · rintro ⟨i, hi, rfl⟩
    have hoffset : slotAddress base h.firstSlotOffset h.slotStride i - (base + h.firstSlotOffset)
        = i * h.slotStride := by
      unfold slotAddress
      omega
    rw [hoffset, Nat.mul_mod_left, Nat.mul_div_cancel i hpos]
    refine ⟨?_, rfl, List.mem_range.mp hi⟩
    unfold slotAddress
    omega
  · rintro ⟨hle, hmod, hlt⟩
    refine ⟨_, List.mem_range.mpr hlt, ?_⟩
    have hmul := Nat.div_mul_cancel (Nat.dvd_of_mod_eq_zero hmod)
    unfold slotAddress
    omega

theorem SlabRegistry.bounds {slabs : Ptr} (hreg : SlabRegistry m slabs bases) {base : Nat}
    (hbase : base ∈ bases) {h : Slab} (hh : m.slab base = some h) :
    h.WellFormed base ∧ 0 < base ∧ base + h.mappingLength ≤ addressSpace ∧
      h.firstSlotOffset ≤ h.mappingLength := by
  obtain ⟨h', hh', hwf, hvalid⟩ := hreg.slab base hbase
  obtain rfl := Option.some.inj (hh.symm.trans hh')
  rw [hwf.mapping_eq] at hvalid
  have hfits := hwf.fits
  exact ⟨hwf, hvalid.base_pos, hvalid.fits, by omega⟩

/-- **Membership.** The oracle finds a block in the registry if it is a slot of the slab it names. -/
theorem belongsLoop_of_chain {slabs : Ptr} (hreg : SlabRegistry m slabs bases) {a : Nat} {b : Block}
    (hb : m.block a = some b) {rest : List Nat} :
    ∀ {p : Ptr} {fuel : Nat}, Chain m.slabNext p rest → rest ⊆ bases → rest.length ≤ fuel →
      ∃ r, belongsLoop m a fuel p = some r ∧
        (r = true ↔ b.owner.slab ∈ rest ∧ a ∈ slotsAt m b.owner.slab) := by
  induction rest with
  | nil =>
      intro p fuel hchain _ _
      obtain rfl := chain_nil.mp hchain
      refine ⟨false, ?_, by simp⟩
      cases fuel <;> rfl
  | cons base rest ih =>
      intro p fuel hchain hsub hfuel
      obtain ⟨rfl, q, hq, hrest⟩ := chain_cons.mp hchain
      obtain ⟨fuel, rfl⟩ : ∃ n, fuel = n + 1 := ⟨fuel - 1, by simp at hfuel; omega⟩
      have hlength : rest.length ≤ fuel := by simpa using hfuel
      have hbase : base ∈ bases := hsub List.mem_cons_self
      obtain ⟨h, hh, hnext⟩ := Option.map_eq_some_iff.mp hq
      obtain ⟨hwf, hpos, hfits, hfirst⟩ := hreg.bounds hbase hh
      have hheader := hwf.first_le
      have hsize : sizeT (base + h.firstSlotOffset) = base + h.firstSlotOffset := by
        have hcount := Nat.mul_pos hwf.count_pos (show 0 < h.slotStride by
          have hstride := hwf.stride_le
          unfold sizeofBlock at hstride
          omega)
        have hslots := hwf.fits
        apply Nat.mod_eq_of_lt
        unfold addressSpace at hfits
        omega
      obtain ⟨r, hloop, hr⟩ := ih (hnext ▸ hrest) (fun _ hmem => hsub (List.mem_cons_of_mem _ hmem)) hlength
      have hstride : h.slotStride ≠ 0 := by
        have hle := hwf.stride_le
        unfold sizeofBlock at hle
        omega
      have hmem := hwf.mem_slots_iff (a := a)
      simp only [belongsLoop, hh, hb, hsize, Option.bind_eq_bind, Option.bind_some, hloop, if_neg hstride]
      by_cases howner : b.owner.slab = base
      · rw [howner, slotsAt_of_slab hh] at hr ⊢
        by_cases hslot : a ∈ h.slots base
        · obtain ⟨hle, htest⟩ := hmem.mp hslot
          rw [if_neg (by simp [hle]), if_pos htest]
          exact ⟨true, rfl, by simp [hslot]⟩
        · refine ⟨r, ?_, ?_⟩
          · by_cases hle : base + h.firstSlotOffset ≤ a
            · rw [if_neg (by simp [hle]), if_neg fun htest => hslot (hmem.mpr ⟨hle, htest⟩)]
            · rw [if_pos (Or.inr (by omega))]
          · rw [hr]
            simp [hslot]
      · rw [if_pos (Or.inl howner)]
        refine ⟨r, rfl, ?_⟩
        rw [hr]
        simp [howner]

/-! ### Occurrences -/

theorem occurrencesLoop_of_chain (a : Nat) {xs : List Nat} :
    ∀ {p : Ptr} {fuel n : Nat}, Chain m.next p xs → xs.length ≤ fuel →
      occurrencesLoop m a fuel p n = some (n + xs.count a) := by
  induction xs with
  | nil =>
      intro p fuel n hchain _
      obtain rfl := chain_nil.mp hchain
      cases fuel <;> rfl
  | cons x xs ih =>
      intro p fuel n hchain hfuel
      obtain ⟨rfl, q, hq, hrest⟩ := chain_cons.mp hchain
      obtain ⟨fuel, rfl⟩ : ∃ n, fuel = n + 1 := ⟨fuel - 1, by simp at hfuel; omega⟩
      have hlength : xs.length ≤ fuel := by simpa using hfuel
      rw [occurrencesLoop, hq, Option.bind_eq_bind, Option.bind_some, ih hrest hlength, List.count_cons]
      by_cases hx : x = a
      · rw [if_pos hx, if_pos (beq_iff_eq.mpr hx)]
        congr 1
        omega
      · rw [if_neg hx, if_neg (by simpa using hx), Nat.add_zero]

/-- Chains whose nodes are addresses. -/
structure Listed (m : Memory) (heads : ClassIndex → Ptr) (lists : ClassIndex → List Nat) : Prop where
  chain : ∀ c, Chain m.next (heads c) (lists c)
  length : ∀ c, (lists c).length ≤ addressSpace

variable {heads localHeads : ClassIndex → Ptr} {locals chains lists : ClassIndex → List Nat}

theorem occurrencesIn_of_chains (hlisted : Listed m heads lists) (a : Nat) (classes : List ClassIndex) :
    ∀ n, occurrencesIn m a heads classes n = some (n + (classes.flatMap lists).count a) := by
  induction classes with
  | nil =>
      intro n
      rfl
  | cons c rest ih =>
      intro n
      rw [occurrencesIn, occurrencesLoop_of_chain a (hlisted.chain c) (hlisted.length c), Option.bind_eq_bind,
        Option.bind_some, ih, List.flatMap_cons, List.count_append, Nat.add_assoc]

theorem cachedBlockOccurrences_of_chains (hlisted : Listed m heads lists) (a : Nat) :
    cachedBlockOccurrences m a heads = some ((classIndices.flatMap lists).count a) := by
  rw [cachedBlockOccurrences, occurrencesIn_of_chains hlisted, Nat.zero_add]

/-! ### Inspections -/

/-- `a` is a small block, a slot of the registered slab it names, and that slab is of class `c`. -/
def GenuineSlot (m : Memory) (bases : List Nat) (c : ClassIndex) (a : Nat) : Prop :=
  ∃ b, m.block a = some b ∧ b.kind = .small ∧ b.owner.slab ∈ bases ∧
    ∃ h, m.slab b.owner.slab = some h ∧ h.classIndex = c ∧ a ∈ h.slots b.owner.slab

theorem listedBlockValid_iff (hreg : SlabRegistry s.memory s.slabs bases) (hlength : bases.length ≤ addressSpace)
    (c : ClassIndex) {a : Nat} {b : Block} (hb : s.memory.block a = some b) :
    ∃ r, listedBlockValid s c a = some r ∧ (r = true ↔ GenuineSlot s.memory bases c a) := by
  have hgenuine : ∀ {h : Slab}, b.kind = .small → b.owner.slab ∈ bases →
      s.memory.slab b.owner.slab = some h → a ∈ h.slots b.owner.slab →
      (GenuineSlot s.memory bases c a ↔ h.classIndex = c) := by
    intro h hkind howner hh hslot
    constructor
    · rintro ⟨b', hb', -, -, h', hh', hclass, -⟩
      obtain rfl := Option.some.inj (hb.symm.trans hb')
      obtain rfl := Option.some.inj (hh.symm.trans hh')
      exact hclass
    · intro hclass
      exact ⟨b, hb, hkind, howner, h, hh, hclass, hslot⟩
  by_cases hkind : b.kind = .small
  · obtain ⟨r, hbelongs, hr⟩ := belongsLoop_of_chain hreg hb hreg.chain (List.Subset.refl _) hlength
    have hcall : cachedBlockBelongsToRegistry s a = some r := hbelongs
    cases r with
    | false =>
        refine ⟨false, ?_, ?_⟩
        · simp [listedBlockValid, hb, hcall]
        · apply iff_of_false (by simp)
          rintro ⟨b', hb', -, howner, h, hh, -, hslot⟩
          obtain rfl := Option.some.inj (hb.symm.trans hb')
          have htrue := hr.mpr ⟨howner, by rwa [slotsAt_of_slab hh]⟩
          simp at htrue
    | true =>
        obtain ⟨howner, hslot⟩ := hr.mp rfl
        obtain ⟨h, hh, -⟩ := hreg.slab _ howner
        rw [slotsAt_of_slab hh] at hslot
        refine ⟨decide (h.classIndex = c), ?_, ?_⟩
        · simp [listedBlockValid, hb, hkind, hcall, hh]
        · rw [decide_eq_true_eq, hgenuine hkind howner hh hslot]
  · refine ⟨false, ?_, ?_⟩
    · simp [listedBlockValid, hb, hkind]
    · apply iff_of_false (by simp)
      rintro ⟨b', hb', hkind', -⟩
      obtain rfl := Option.some.inj (hb.symm.trans hb')
      exact hkind hkind'

theorem localBlockValid_iff (hreg : SlabRegistry s.memory s.slabs bases) (hlength : bases.length ≤ addressSpace)
    (hlocal : Listed s.memory localHeads locals) (hshared : Listed s.memory heads chains) (c : ClassIndex)
    {a : Nat} {b : Block} (hb : s.memory.block a = some b) :
    ∃ r, localBlockValid s heads localHeads c a = some r ∧ (r = true ↔ GenuineSlot s.memory bases c a ∧
      (classIndices.flatMap chains).count a = 0 ∧ (classIndices.flatMap locals).count a = 1) := by
  obtain ⟨r, hvalid, hr⟩ := listedBlockValid_iff hreg hlength c hb
  rw [← hr]
  cases r with
  | false => exact ⟨false, by simp [localBlockValid, hvalid], by simp⟩
  | true =>
      by_cases hzero : (classIndices.flatMap chains).count a = 0
      · refine ⟨decide ((classIndices.flatMap locals).count a = 1), ?_, ?_⟩
        · simp only [localBlockValid, hvalid, cachedBlockOccurrences_of_chains hshared, hzero,
            cachedBlockOccurrences_of_chains hlocal, Option.bind_eq_bind, Option.bind_some]
          simp
        · simp [hzero]
      · refine ⟨false, ?_, by simp [hzero]⟩
        simp only [localBlockValid, hvalid, cachedBlockOccurrences_of_chains hshared, Option.bind_eq_bind,
          Option.bind_some]
        simp [hzero]

theorem sharedBlockValid_iff (hreg : SlabRegistry s.memory s.slabs bases) (hlength : bases.length ≤ addressSpace)
    (hshared : Listed s.memory heads chains) (c : ClassIndex) {a : Nat} {b : Block}
    (hb : s.memory.block a = some b) :
    ∃ r, sharedBlockValid s heads c a = some r ∧ (r = true ↔ GenuineSlot s.memory bases c a ∧
      (classIndices.flatMap chains).count a = 1) := by
  obtain ⟨r, hvalid, hr⟩ := listedBlockValid_iff hreg hlength c hb
  rw [← hr]
  cases r with
  | false => exact ⟨false, by simp [sharedBlockValid, hvalid], by simp⟩
  | true =>
      refine ⟨decide ((classIndices.flatMap chains).count a = 1), ?_, by simp⟩
      simp only [sharedBlockValid, hvalid, cachedBlockOccurrences_of_chains hshared, Option.bind_eq_bind,
        Option.bind_some]
      simp

/-- **One list.** The flag survives if every block of the list satisfies the condition. -/
theorem inspectLoop_of_chain {valid : Nat → Option Bool} {P : Nat → Prop} {xs : List Nat} :
    ∀ (p : Ptr) (fuel n : Nat) (unique : Bool), Chain m.next p xs → xs.length ≤ fuel →
      (∀ a ∈ xs, ∃ r, valid a = some r ∧ (r = true ↔ P a)) →
      ∃ r, inspectLoop m valid fuel p n unique = some (n + xs.length, r) ∧
        (r = true ↔ unique = true ∧ ∀ a ∈ xs, P a) := by
  induction xs with
  | nil =>
      intro p fuel n unique hchain _ _
      obtain rfl := chain_nil.mp hchain
      refine ⟨unique, ?_, by simp⟩
      cases fuel <;> rfl
  | cons a xs ih =>
      intro p fuel n unique hchain hfuel hvalid
      obtain ⟨rfl, q, hq, hrest⟩ := chain_cons.mp hchain
      obtain ⟨fuel, rfl⟩ : ∃ n, fuel = n + 1 := ⟨fuel - 1, by simp at hfuel; omega⟩
      have hlength : xs.length ≤ fuel := by simpa using hfuel
      obtain ⟨ok, hok, hP⟩ := hvalid a List.mem_cons_self
      obtain ⟨r, hloop, hr⟩ := ih q fuel (n + 1) (if ok then unique else false) hrest hlength
        fun b hb => hvalid b (List.mem_cons_of_mem _ hb)
      refine ⟨r, ?_, ?_⟩
      · rw [inspectLoop, hok, Option.bind_eq_bind, Option.bind_some, hq, Option.bind_eq_bind, Option.bind_some,
          hloop, List.length_cons]
        congr 2
        omega
      · rw [hr, List.forall_mem_cons, ← hP]
        cases ok <;> simp

/-- **All lists.** The inspection of some classes clears the flag exactly if one of their blocks is wrong, and
adds up the lengths of the transfer lists. -/
theorem inspectClasses_of_chains (hreg : SlabRegistry s.memory s.slabs bases)
    (hlength : bases.length ≤ addressSpace) {transfers : ClassIndex → TransferList}
    (howns : ∀ c, (transfers c).Owns s.memory (chains c)) (hlocal : Listed s.memory localHeads locals)
    (hbound : ∀ c, (chains c).length ≤ addressSpace) (classes : List ClassIndex) :
    ∀ (snapshot : CachedTestSnapshot) (n : Nat), snapshot.sharedFreeBlocks = sizeT n →
      ∃ unique, inspectClasses s transfers localHeads classes snapshot = some { snapshot with
          uniqueFreeBlocks := unique
          sharedFreeBlocks := sizeT (n + (classes.flatMap chains).length) } ∧
        (unique = true ↔ snapshot.uniqueFreeBlocks = true ∧ ∀ c ∈ classes,
          (∀ a ∈ locals c, GenuineSlot s.memory bases c a ∧ (classIndices.flatMap chains).count a = 0 ∧
            (classIndices.flatMap locals).count a = 1) ∧
          ∀ a ∈ chains c, GenuineSlot s.memory bases c a ∧ (classIndices.flatMap chains).count a = 1) := by
  have hshared : Listed s.memory (fun c => (transfers c).first) chains := ⟨fun c => (howns c).chain, hbound⟩
  have hblock : ∀ {p : Ptr} {xs : List Nat}, Chain s.memory.next p xs → ∀ a ∈ xs, ∃ b,
      s.memory.block a = some b := by
    intro p xs hchain a ha
    obtain ⟨q, hq⟩ := hchain.exists_link ha
    obtain ⟨b, hb, -⟩ := exists_block_of_next hq
    exact ⟨b, hb⟩
  induction classes with
  | nil =>
      intro snapshot n hn
      refine ⟨snapshot.uniqueFreeBlocks, ?_, by simp⟩
      rw [inspectClasses, List.flatMap_nil, List.length_nil, Nat.add_zero, ← hn]
  | cons c rest ih =>
      intro snapshot n hn
      obtain ⟨unique₁, hloop₁, hunique₁⟩ := inspectLoop_of_chain _ _ 0 snapshot.uniqueFreeBlocks
        (hlocal.chain c) (hlocal.length c) fun a ha => by
          obtain ⟨b, hb⟩ := hblock (hlocal.chain c) a ha
          exact localBlockValid_iff hreg hlength hlocal hshared c hb
      obtain ⟨unique₂, hloop₂, hunique₂⟩ := inspectLoop_of_chain _ _ 0 unique₁
        (hshared.chain c) (hbound c) fun a ha => by
          obtain ⟨b, hb⟩ := hblock (hshared.chain c) a ha
          exact sharedBlockValid_iff hreg hlength hshared c hb
      have hcount : (chains c).length = (transfers c).count := (howns c).count.symm
      obtain ⟨unique, hrest, hunique⟩ := ih
        { snapshot with
          uniqueFreeBlocks := unique₂
          sharedFreeBlocks := sizeT (snapshot.sharedFreeBlocks + (chains c).length) }
        (n + (chains c).length) (by rw [hn, sizeT_sizeT_add])
      refine ⟨unique, ?_, ?_⟩
      · rw [inspectClasses]
        simp only [hloop₁, hloop₂, Nat.zero_add, Option.bind_eq_bind, Option.bind_some, hcount, ne_eq,
          not_true_eq_false, if_false]
        rw [hcount] at hrest
        rw [hrest, List.flatMap_cons, List.length_append, hcount, Nat.add_assoc]
      · rw [hunique, hunique₂, hunique₁, List.forall_mem_cons]
        tauto

/-! ### Totals -/

theorem registryTotals_of_chain {rest : List Nat} :
    ∀ {p : Ptr} {fuel k n : Nat}, Chain m.slabNext p rest → rest.length ≤ fuel →
      registryTotals m fuel p k (sizeT n)
        = some (k + rest.length, sizeT (n + (registrySlots m rest).length)) := by
  induction rest with
  | nil =>
      intro p fuel k n hchain _
      obtain rfl := chain_nil.mp hchain
      cases fuel <;> rfl
  | cons base rest ih =>
      intro p fuel k n hchain hfuel
      obtain ⟨rfl, q, hq, hrest⟩ := chain_cons.mp hchain
      obtain ⟨fuel, rfl⟩ : ∃ n, fuel = n + 1 := ⟨fuel - 1, by simp at hfuel; omega⟩
      have hlength : rest.length ≤ fuel := by simpa using hfuel
      obtain ⟨h, hh, hnext⟩ := Option.map_eq_some_iff.mp hq
      have hslots : (registrySlots m (base :: rest)).length
          = h.slotCount + (registrySlots m rest).length := by
        rw [registrySlots, List.flatMap_cons, List.length_append, slotsAt_of_slab hh, Slab.slots_length]
        rfl
      rw [registryTotals, hh, Option.bind_eq_bind, Option.bind_some, hnext, sizeT_sizeT_add,
        ih hrest hlength, hslots, List.length_cons]
      congr 2
      · omega
      · rw [Nat.add_assoc]

theorem foldl_counts (counts : ClassIndex → Nat) (classes : List ClassIndex) :
    ∀ n, classes.foldl (fun blocks c => sizeT (blocks + counts c)) (sizeT n)
      = sizeT (n + (classes.map counts).sum) := by
  induction classes with
  | nil =>
      intro n
      rfl
  | cons c rest ih =>
      intro n
      rw [List.foldl_cons]
      calc rest.foldl (fun blocks c => sizeT (blocks + counts c)) (sizeT (sizeT n + counts c))
        _ = rest.foldl (fun blocks c => sizeT (blocks + counts c)) (sizeT (n + counts c)) := by
            rw [sizeT_sizeT_add]
        _ = sizeT (n + counts c + (rest.map counts).sum) := ih _
        _ = sizeT (n + ((c :: rest).map counts).sum) := by
            rw [List.map_cons, List.sum_cons, Nat.add_assoc]

/-! ### Detaching and publishing -/


theorem detachLists_of_chains (classes : List ClassIndex) :
    ∀ (s : State Tid) (lists : ClassIndex → TransferList),
      (∀ c ∈ classes, Chain s.memory.next (s.sharedHeads c) (chains c) ∧ (chains c).length ≤ addressSpace) →
      classes.Nodup →
      ∃ lists', detachLists classes s lists = some ({ s with
          sharedHeads := fun c => if c ∈ classes then none else s.sharedHeads c }, lists') ∧
        (∀ c ∈ classes, (lists' c).first = s.sharedHeads c ∧ (lists' c).Owns s.memory (chains c)) ∧
        ∀ c, c ∉ classes → lists' c = lists c := by
  induction classes with
  | nil =>
      intro s lists _ _
      refine ⟨lists, ?_, by simp, fun _ _ => rfl⟩
      simp [detachLists]
  | cons c rest ih =>
      intro s lists hchains hnodup
      obtain ⟨hnotMem, hnodup'⟩ := List.nodup_cons.mp hnodup
      obtain ⟨hchain, hlength⟩ := hchains c List.mem_cons_self
      obtain ⟨list, hdetach, howns⟩ := transferMutexDetach_of_chain hchain hlength
      have hfirst : list.first = s.sharedHeads c := by
        rw [howns.chain.head?_eq, hchain.head?_eq]
      have hne : ∀ e ∈ rest, e ≠ c := fun e he heq => hnotMem (heq ▸ he)
      obtain ⟨lists', hloop, hinside, houtside⟩ := ih
        { s with sharedHeads := Function.update s.sharedHeads c none } (Function.update lists c list)
        (fun e he => by
          change Chain s.memory.next (Function.update s.sharedHeads c none e) (chains e) ∧ _
          rw [Function.update_of_ne (hne e he)]
          exact hchains e (List.mem_cons_of_mem _ he)) hnodup'
      refine ⟨lists', ?_, ?_, ?_⟩
      · rw [detachLists, hdetach, Option.bind_eq_bind, Option.bind_some]
        apply hloop.trans
        congr 3
        funext e
        by_cases hec : e = c
        · simp [hec, hnotMem]
        · simp [hec]
      · rw [List.forall_mem_cons, houtside c hnotMem, Function.update_self]
        refine ⟨⟨hfirst, howns⟩, fun e he => ?_⟩
        obtain ⟨hfirst', howns'⟩ := hinside e he
        exact ⟨hfirst'.trans (Function.update_of_ne (hne e he) _ _), howns'⟩
      · intro e he
        rw [List.mem_cons, not_or] at he
        rw [houtside e he.2, Function.update_of_ne he.1]

/-- Publishing a list that was detached writes back what its last link already holds. -/
theorem publishLists_of_chains {lists : ClassIndex → TransferList} (classes : List ClassIndex) :
    ∀ (s : State Tid), (∀ c ∈ classes, (lists c).Owns s.memory (chains c) ∧ s.sharedHeads c = none) →
      classes.Nodup →
      publishLists lists classes s = some { s with
        sharedHeads := fun c => if c ∈ classes then (lists c).first else s.sharedHeads c } := by
  induction classes with
  | nil =>
      intro s _ _
      simp [publishLists]
  | cons c rest ih =>
      intro s hlists hnodup
      obtain ⟨hnotMem, hnodup'⟩ := List.nodup_cons.mp hnodup
      obtain ⟨howns, hnone⟩ := hlists c List.mem_cons_self
      rw [publishLists, transferMutexPublish_empty howns hnone, Option.bind_eq_bind, Option.bind_some]
      refine (ih { s with sharedHeads := Function.update s.sharedHeads c (lists c).first }
        (fun e he => ?_) hnodup').trans ?_
      · obtain ⟨howns', hnone'⟩ := hlists e (List.mem_cons_of_mem _ he)
        have hne : e ≠ c := fun heq => hnotMem (heq ▸ he)
        exact ⟨howns', (Function.update_of_ne hne _ _).trans hnone'⟩
      · congr 2
        funext e
        by_cases hec : e = c
        · simp [hec, hnotMem]
        · simp [hec]

end Hplf
