import HplfMalloc.Proof.LifecycleSteps

/-!
# Where things lie

The extent of a block is its prefix followed by its capacity. Extents of distinct blocks do not meet, and
no extent meets a slab header: slots of one slab lie a stride apart and after the header, and everything
else lies in different mappings. A write inside one payload, a fresh mapping and an unmapped leak therefore
destroy no header that the invariant speaks about.
-/

namespace Hplf

open Lib Memory

variable {Tid : Type}
variable {k : Config Tid} {t : Tid} {bases larges : List Nat} {g : Place Tid → List Nat}
variable {s : State Tid} {leaked : List Mapping}

/-- `a` is the prefix of a slot of a registered slab or of a large block. -/
def Populated (m : Memory) (bases larges : List Nat) (a : Nat) : Prop :=
  (∃ c, InClass m bases c a) ∨ a ∈ larges

theorem Inv.populated (hinv : Inv k bases larges g) {p : Place Tid} {a : Nat} (ha : a ∈ g p) :
    Populated k.state.memory bases larges a :=
  (hinv.population a).mp ⟨p, ha⟩

/-! ### Mappings -/

instance : Std.Symm Mapping.Apart := ⟨fun _ _ h => h.symm⟩

theorem Storage.ledger_apart (hst : Storage s leaked bases larges) :
    (slabMappings s.memory bases ++ largeMappings s.memory larges ++ leaked).Pairwise
      Mapping.Apart :=
  (hst.ledger.pairwise_iff fun h => h.symm).mp
    (hst.apart.sublist (List.sublist_append_left _ _))

variable [DecidableEq Tid]

theorem mem_slabMappings {m : Memory} {base : Nat} (hbase : base ∈ bases) {h : Slab}
    (hh : m.slab base = some h) : h.mapping ∈ slabMappings m bases :=
  List.mem_filterMap.mpr ⟨base, hbase, by rw [hh, Option.map_some]⟩

theorem mem_largeMappings {m : Memory} {a : Nat} (ha : a ∈ larges) {b : Block}
    (hb : m.block a = some b) (hlarge : b.LargeAt a) :
    (⟨a, sizeofBlock + b.capacity⟩ : Mapping) ∈ largeMappings m larges := by
  refine List.mem_filterMap.mpr ⟨a, ha, ?_⟩
  rw [hb, Option.map_some, Block.mapping, hlarge.owner]
  rfl

omit [DecidableEq Tid] in
theorem Storage.wellFormed (hst : Storage s leaked bases larges) {base : Nat} (hbase : base ∈ bases)
    {h : Slab} (hh : s.memory.slab base = some h) : h.WellFormed base := by
  obtain ⟨h', hh', hwf⟩ := hst.slab base hbase
  obtain rfl := Option.some.inj (hh.symm.trans hh')
  exact hwf

theorem Slab.WellFormed.mapping_eq {h : Slab} {base : Nat} (hwf : h.WellFormed base) :
    h.mapping = ⟨base, h.mappingLength⟩ := by
  rw [Slab.mapping, hwf.mappingBase]

theorem Slab.WellFormed.header_le {h : Slab} {base : Nat} (hwf : h.WellFormed base) :
    sizeofSlab ≤ h.mappingLength := by
  have hfirst := hwf.first_le
  have hfits := hwf.fits
  omega

section

omit [DecidableEq Tid]

/-- The mappings of two registered slabs have no address in common. -/
theorem Storage.slab_apart (hst : Storage s leaked bases larges) {base base' : Nat}
    (hbase : base ∈ bases) (hbase' : base' ∈ bases) (hne : base ≠ base') {h h' : Slab}
    (hh : s.memory.slab base = some h) (hh' : s.memory.slab base' = some h') :
    h.mapping.Apart h'.mapping := by
  have hpairwise := (List.pairwise_append.mp (List.pairwise_append.mp hst.ledger_apart).1).1
  refine hpairwise.forall (mem_slabMappings hbase hh)
    (mem_slabMappings hbase' hh') fun heq => hne ?_
  have := congrArg Mapping.base heq
  rwa [Slab.mapping, Slab.mapping, (hst.wellFormed hbase hh).mappingBase,
    (hst.wellFormed hbase' hh').mappingBase] at this

theorem Storage.slab_large_apart (hst : Storage s leaked bases larges) {base a : Nat}
    (hbase : base ∈ bases) (ha : a ∈ larges) {h : Slab} {b : Block}
    (hh : s.memory.slab base = some h) (hb : s.memory.block a = some b) (hlarge : b.LargeAt a) :
    h.mapping.Apart ⟨a, sizeofBlock + b.capacity⟩ :=
  (List.pairwise_append.mp (List.pairwise_append.mp hst.ledger_apart).1).2.2 _
    (mem_slabMappings hbase hh) _ (mem_largeMappings ha hb hlarge)

theorem Storage.large_apart (hst : Storage s leaked bases larges) {a a' : Nat}
    (ha : a ∈ larges) (ha' : a' ∈ larges) (hne : a ≠ a') {b b' : Block}
    (hb : s.memory.block a = some b) (hlarge : b.LargeAt a)
    (hb' : s.memory.block a' = some b') (hlarge' : b'.LargeAt a') :
    Mapping.Apart ⟨a, sizeofBlock + b.capacity⟩ ⟨a', sizeofBlock + b'.capacity⟩ := by
  have hpairwise := (List.pairwise_append.mp (List.pairwise_append.mp hst.ledger_apart).1).2.1
  exact hpairwise.forall (mem_largeMappings ha hb hlarge)
    (mem_largeMappings ha' hb' hlarge') fun heq => hne (congrArg Mapping.base heq)

theorem Storage.leaked_apart (hst : Storage s leaked bases larges) {r r' : Mapping}
    (hr : r ∈ slabMappings s.memory bases ++ largeMappings s.memory larges) (hr' : r' ∈ leaked) :
    r.Apart r' :=
  (List.pairwise_append.mp hst.ledger_apart).2.2 r hr r' hr'

end

/-! ### Extents -/

omit [DecidableEq Tid] in
/-- Every block lies, with its whole capacity, in a mapping that a slab or a large block owns. -/
theorem Storage.extent (hst : Storage s leaked bases larges) {a : Nat}
    (hpop : Populated s.memory bases larges a) :
    ∃ b r, s.memory.block a = some b ∧
      r ∈ slabMappings s.memory bases ++ largeMappings s.memory larges ∧ r.Valid ∧
      r.base ≤ a ∧ a + (sizeofBlock + b.capacity) ≤ r.base + r.length ∧ payloadAlignment ∣ a := by
  rcases hpop with ⟨c, base, hbase, h, hh, -, hslot⟩ | hlarge
  · obtain ⟨-, hvalid, hlow, haligned, hhigh⟩ := hst.slot_bounds hbase hh hslot
    obtain ⟨b, hb, hslotOf⟩ := hst.slot base hbase h hh a hslot
    refine ⟨b, h.mapping, hb, List.mem_append_left _ (mem_slabMappings hbase hh), hvalid, ?_, ?_,
      haligned⟩
    · rw [(hst.wellFormed hbase hh).mapping_eq]
      simp only
      omega
    · rw [(hst.wellFormed hbase hh).mapping_eq, hslotOf.capacity]
      exact hhigh
  · obtain ⟨b, hb, hlargeAt, -, hvalid⟩ := hst.large_bounds hlarge
    exact ⟨b, _, hb, List.mem_append_right _ (mem_largeMappings hlarge hb hlargeAt), hvalid,
      Nat.le_refl _, Nat.le_refl _, hvalid.aligned⟩

/-- Two slots of one slab lie at least a stride apart. -/
theorem slots_apart {h : Slab} {base a a' : Nat} (ha : a ∈ h.slots base) (ha' : a' ∈ h.slots base)
    (hne : a ≠ a') : a + h.slotStride ≤ a' ∨ a' + h.slotStride ≤ a := by
  obtain ⟨i, -, rfl⟩ := List.mem_map.mp ha
  obtain ⟨j, -, rfl⟩ := List.mem_map.mp ha'
  rcases Nat.lt_trichotomy i j with hij | rfl | hij
  · exact Or.inl (slotAddress_add_le _ _ _ hij)
  · exact absurd rfl hne
  · exact Or.inr (slotAddress_add_le _ _ _ hij)

omit [DecidableEq Tid] in
/-- **Separation of blocks.** The extents of distinct blocks do not meet. -/
theorem Storage.blocks_apart (hst : Storage s leaked bases larges) {a a' : Nat}
    (hpop : Populated s.memory bases larges a) (hpop' : Populated s.memory bases larges a')
    (hne : a ≠ a') {b b' : Block} (hb : s.memory.block a = some b)
    (hb' : s.memory.block a' = some b') :
    a + (sizeofBlock + b.capacity) ≤ a' ∨ a' + (sizeofBlock + b'.capacity) ≤ a := by
  rcases hpop with ⟨c, base, hbase, h, hh, -, hslot⟩ | hlarge <;>
    rcases hpop' with ⟨c', base', hbase', h', hh', -, hslot'⟩ | hlarge'
  · obtain ⟨b₁, hb₁, hof⟩ := hst.slot base hbase h hh a hslot
    obtain ⟨b₂, hb₂, hof'⟩ := hst.slot base' hbase' h' hh' a' hslot'
    obtain rfl := Option.some.inj (hb.symm.trans hb₁)
    obtain rfl := Option.some.inj (hb'.symm.trans hb₂)
    obtain ⟨-, -, hlow, -, hhigh⟩ := hst.slot_bounds hbase hh hslot
    obtain ⟨-, -, hlow', -, hhigh'⟩ := hst.slot_bounds hbase' hh' hslot'
    rw [hof.capacity, hof'.capacity]
    by_cases hsame : base = base'
    · subst hsame
      obtain rfl := Option.some.inj (hh.symm.trans hh')
      have hstride := (hst.wellFormed hbase hh).stride_le
      have hapart := slots_apart hslot hslot' hne
      omega
    · have hapart := hst.slab_apart hbase hbase' hsame hh hh'
      rw [(hst.wellFormed hbase hh).mapping_eq, (hst.wellFormed hbase' hh').mapping_eq] at hapart
      unfold Mapping.Apart at hapart
      simp only at hapart
      omega
  · obtain ⟨b₁, hb₁, hof⟩ := hst.slot base hbase h hh a hslot
    obtain rfl := Option.some.inj (hb.symm.trans hb₁)
    obtain ⟨b₂, hb₂, hat⟩ := hst.large a' hlarge'
    obtain rfl := Option.some.inj (hb'.symm.trans hb₂)
    obtain ⟨-, -, hlow, -, hhigh⟩ := hst.slot_bounds hbase hh hslot
    have hapart := hst.slab_large_apart hbase hlarge' hh hb' hat
    rw [(hst.wellFormed hbase hh).mapping_eq] at hapart
    rw [hof.capacity]
    unfold Mapping.Apart at hapart
    simp only at hapart
    omega
  · obtain ⟨b₁, hb₁, hof⟩ := hst.slot base' hbase' h' hh' a' hslot'
    obtain rfl := Option.some.inj (hb'.symm.trans hb₁)
    obtain ⟨b₂, hb₂, hat⟩ := hst.large a hlarge
    obtain rfl := Option.some.inj (hb.symm.trans hb₂)
    obtain ⟨-, -, hlow, -, hhigh⟩ := hst.slot_bounds hbase' hh' hslot'
    have hapart := hst.slab_large_apart hbase' hlarge hh' hb hat
    rw [(hst.wellFormed hbase' hh').mapping_eq] at hapart
    rw [hof.capacity]
    unfold Mapping.Apart at hapart
    simp only at hapart
    omega
  · obtain ⟨b₁, hb₁, hat⟩ := hst.large a hlarge
    obtain rfl := Option.some.inj (hb.symm.trans hb₁)
    obtain ⟨b₂, hb₂, hat'⟩ := hst.large a' hlarge'
    obtain rfl := Option.some.inj (hb'.symm.trans hb₂)
    exact hst.large_apart hlarge hlarge' hne hb hat hb' hat'

omit [DecidableEq Tid] in
/-- **Separation from slab headers.** No extent meets a slab header. -/
theorem Storage.header_apart (hst : Storage s leaked bases larges) {a base : Nat}
    (hpop : Populated s.memory bases larges a) (hbase : base ∈ bases) {b : Block}
    (hb : s.memory.block a = some b) :
    a + (sizeofBlock + b.capacity) ≤ base ∨ base + sizeofSlab ≤ a := by
  obtain ⟨h, hh, hwf⟩ := hst.slab base hbase
  have hheader := hwf.header_le
  rcases hpop with ⟨c, base', hbase', h', hh', -, hslot⟩ | hlarge
  · obtain ⟨b', hb', hof⟩ := hst.slot base' hbase' h' hh' a hslot
    obtain rfl := Option.some.inj (hb.symm.trans hb')
    obtain ⟨-, -, hlow, -, hhigh⟩ := hst.slot_bounds hbase' hh' hslot
    rw [hof.capacity]
    by_cases hsame : base = base'
    · subst hsame
      exact Or.inr hlow
    · have hapart := hst.slab_apart hbase hbase' hsame hh hh'
      rw [hwf.mapping_eq, (hst.wellFormed hbase' hh').mapping_eq] at hapart
      unfold Mapping.Apart at hapart
      simp only at hapart
      omega
  · obtain ⟨b', hb', hat⟩ := hst.large a hlarge
    obtain rfl := Option.some.inj (hb.symm.trans hb')
    have hapart := hst.slab_large_apart hbase hlarge hh hb hat
    rw [hwf.mapping_eq] at hapart
    unfold Mapping.Apart at hapart
    simp only at hapart
    omega

/-! ### Writes that destroy no header -/

/-- The headers of all registered slabs and of all blocks are as they were. -/
structure SameHeaders (bases larges : List Nat) (m m' : Memory) : Prop where
  slab : ∀ base ∈ bases, m'.slab base = m.slab base
  block : ∀ a, Populated m bases larges a → m'.block a = m.block a

section

omit [DecidableEq Tid]

/-- A change inside the payload of one block. -/
theorem Storage.sameHeaders_of_payload (hst : Storage s leaked bases larges) {a : Nat}
    (hpop : Populated s.memory bases larges a) {b : Block} (hb : s.memory.block a = some b)
    {lo length : Nat} {m : Memory} (hsame : SameOutside lo length s.memory m)
    (hlo : a + sizeofBlock ≤ lo) (hhi : lo + length ≤ a + (sizeofBlock + b.capacity)) :
    SameHeaders bases larges s.memory m := by
  constructor
  · intro base hbase
    have hapart := hst.header_apart hpop hbase hb
    exact hsame.slab base fun hoverlap => by unfold Overlap at hoverlap; omega
  · intro a' hpop'
    obtain ⟨b', -, hb', -⟩ := hst.extent hpop'
    apply hsame.block a'
    intro hoverlap
    unfold Overlap at hoverlap
    by_cases heq : a = a'
    · omega
    · have hapart := hst.blocks_apart hpop hpop' heq hb hb'
      omega

/-- A change inside a region that no slab and no large block owns. -/
theorem Storage.sameHeaders_of_apart (hst : Storage s leaked bases larges) {r : Mapping} {m : Memory}
    (hsame : SameOutside r.base r.length s.memory m)
    (hapart : ∀ r' ∈ slabMappings s.memory bases ++ largeMappings s.memory larges, r.Apart r') :
    SameHeaders bases larges s.memory m := by
  constructor
  · intro base hbase
    obtain ⟨h, hh, hwf⟩ := hst.slab base hbase
    have hheader := hwf.header_le
    have hfar := hapart h.mapping (List.mem_append_left _ (mem_slabMappings hbase hh))
    rw [hwf.mapping_eq] at hfar
    apply hsame.slab base
    intro hoverlap
    unfold Overlap at hoverlap
    unfold Mapping.Apart at hfar
    simp only at hfar
    omega
  · intro a hpop
    obtain ⟨b, r', -, hr', -, hlow, hhigh, -⟩ := hst.extent hpop
    have hfar := hapart r' hr'
    apply hsame.block a
    intro hoverlap
    unfold Overlap at hoverlap
    unfold Mapping.Apart at hfar
    omega

/-- The requested bytes of a live block fit its capacity. -/
theorem Inv.live_size_le (hinv : Inv k bases larges g) {a : Nat} (ha : a ∈ k.live) {b : Block}
    (hb : k.state.memory.block a = some b) : 0 < b.requestedSize ∧ b.requestedSize ≤ b.capacity := by
  have hlive : g .live = k.live := hinv.holds .live
  obtain ⟨n, hsize, hcases⟩ := hinv.admits .live a (hlive ▸ ha)
  rw [size_eq_some hb] at hsize
  obtain rfl := Option.some.inj hsize
  rcases hcases with ⟨c, ⟨base, hbase, h, hh, rfl, hslot⟩, hfor⟩ | ⟨-, hlt, b', hb', hle⟩
  · obtain ⟨b', hb', hslotOf⟩ := hinv.storage.slot base hbase h hh a hslot
    obtain rfl := Option.some.inj (hb.symm.trans hb')
    obtain ⟨hpos, hle, -⟩ := sizeClassFor_eq_some hfor
    rw [hslotOf.capacity, (hinv.storage.wellFormed hbase hh).capacity]
    exact ⟨hpos, hle⟩
  · obtain rfl := Option.some.inj (hb.symm.trans hb')
    exact ⟨by omega, hle⟩

theorem Inv.live_populated (hinv : Inv k bases larges g) {a : Nat} (ha : a ∈ k.live) :
    Populated k.state.memory bases larges a := by
  have hlive : g .live = k.live := hinv.holds .live
  exact hinv.populated (p := .live) (hlive ▸ ha)

/-- A change inside a region that no slab and no large block owns is not seen by clients. -/
theorem Inv.keepsLive_of_apart (hinv : Inv k bases larges g) {r : Mapping} {m : Memory}
    (hsame : SameOutside r.base r.length k.state.memory m)
    (hapart : ∀ r' ∈ slabMappings k.state.memory bases ++ largeMappings k.state.memory larges,
      r.Apart r') : KeepsLive k m := by
  have hheaders := hinv.storage.sameHeaders_of_apart hsame hapart
  refine ⟨fun a ha => hheaders.block a (hinv.live_populated ha), fun a ha b hb i hi => ?_⟩
  obtain ⟨b', r', hb', hr', -, hlow, hhigh, -⟩ := hinv.storage.extent (hinv.live_populated ha)
  obtain rfl := Option.some.inj (hb.symm.trans hb')
  have hle := (hinv.live_size_le ha hb).2
  have hfar := hapart r' hr'
  apply hsame.byte _
  intro hmem
  unfold Mapping.Apart at hfar
  omega

end

end Hplf
