import HplfMalloc.Proof.Geometry

/-!
# Mapping, unmapping, and owning what is mapped

A new region starts out as nobody's, in the account of leaked mappings; a slab or a large block is then
adopted from there. Freeing a large block first gives its region up, and unmapping removes a region that
nobody owns. So every change of the storage is one of three: a change that touches no owned header, an
adoption, and a disowning.
-/

namespace Hplf

open Lib Memory

variable {Tid : Type} [DecidableEq Tid]
variable {k : Config Tid} {t : Tid} {bases larges : List Nat} {g : Place Tid → List Nat} {pc : Pc}

/-! ### Changes that touch no owned header -/

section SameHeaders

variable {m m' : Memory} (hsame : SameHeaders bases larges m m')
include hsame

theorem SameHeaders.inClass_iff (c : ClassIndex) (a : Nat) :
    InClass m' bases c a ↔ InClass m bases c a := by
  constructor
  · rintro ⟨base, hbase, h, hh, hrest⟩
    exact ⟨base, hbase, h, (hsame.slab base hbase).symm.trans hh, hrest⟩
  · rintro ⟨base, hbase, h, hh, hrest⟩
    exact ⟨base, hbase, h, (hsame.slab base hbase).trans hh, hrest⟩

theorem SameHeaders.persists {a : Nat} (hpop : Populated m bases larges a) :
    Persists m m' bases larges bases larges a :=
  ⟨fun c h => (hsame.inClass_iff c a).mpr h, fun h => h, hsame.block a hpop⟩

theorem SameHeaders.slabMappings_eq : slabMappings m' bases = slabMappings m bases :=
  List.filterMap_congr fun base hbase => by rw [hsame.slab base hbase]

theorem SameHeaders.largeMappings_eq : largeMappings m' larges = largeMappings m larges :=
  List.filterMap_congr fun a ha => by rw [hsame.block a (Or.inr ha)]

end SameHeaders

/-- The configuration with other storage contents, regions and leaks. -/
def Config.remap (k : Config Tid) (m : Memory) (mapped leaked : List Mapping) : Config Tid :=
  { k with state := { k.state with memory := m, mapped := mapped }, leaked := leaked }

section

omit [DecidableEq Tid]

/-- **Remapping.** The invariant after a change of the storage that keeps every owned header. -/
theorem Inv.remap (hinv : Inv k bases larges g) {m : Memory} {mapped leaked : List Mapping}
    (hsame : SameHeaders bases larges k.state.memory m)
    (hledger : mapped.Perm (slabMappings k.state.memory bases
      ++ largeMappings k.state.memory larges ++ leaked))
    (hapart : (mapped ++ k.state.descriptorMapped).Pairwise Mapping.Apart)
    (hvalid : ∀ r ∈ mapped ++ k.state.descriptorMapped, r.Valid) :
    Inv (k.remap m mapped leaked) bases larges g := by
  have hst := hinv.storage
  have hstorage : Storage (k.remap m mapped leaked).state leaked bases larges := by
    refine ⟨?_, ?_, ?_, ?_, ?_, hapart, hvalid⟩
    · apply hst.registry.congr
      intro base hbase
      simp only [Config.remap, slabNext, hsame.slab base hbase]
    · intro base hbase
      obtain ⟨h, hh, hwf⟩ := hst.slab base hbase
      exact ⟨h, (hsame.slab base hbase).trans hh, hwf⟩
    · intro base hbase h hh a ha
      have hold : k.state.memory.slab base = some h := (hsame.slab base hbase).symm.trans hh
      obtain ⟨b, hb, hslot⟩ := hst.slot base hbase h hold a ha
      exact ⟨b, (hsame.block a (Or.inl ⟨_, base, hbase, h, hold, rfl, ha⟩)).trans hb, hslot⟩
    · intro a ha
      obtain ⟨b, hb, hlarge⟩ := hst.large a ha
      exact ⟨b, (hsame.block a (Or.inr ha)).trans hb, hlarge⟩
    · change mapped.Perm (slabMappings m bases ++ largeMappings m larges ++ leaked)
      rw [hsame.slabMappings_eq, hsame.largeMappings_eq]
      exact hledger
  have hnext : ∀ p, ∀ a ∈ g p, Persists k.state.memory m bases larges bases larges a := fun p a ha =>
    hsame.persists (hinv.populated ha)
  have hhead : ∀ p, SameHead k (k.remap m mapped leaked) p := by
    intro p
    cases p with
    | cache u c =>
        exact ⟨rfl, fun d _ descriptor hmapped => ⟨descriptor, hmapped, rfl, rfl⟩⟩
    | _ => rfl
  refine ⟨hstorage, hinv.placed, ?_, ?_, ?_, hinv.emptied, ?_, hinv.owner_unique, hinv.argument_live,
    hinv.argument_unique, hinv.registry⟩
  · intro a
    rw [hinv.population]
    exact or_congr_left (exists_congr fun c => (hsame.inClass_iff c a).symm)
  · intro p
    exact (hinv.holds p).congr (hhead p) fun a ha => (hnext p a ha).next
  · intro p a ha
    exact (hinv.admits p a ha).congr (hhead p) (hnext p a ha)
  · intro u
    exact (hinv.thread u).congr rfl rfl rfl rfl fun d _ => ⟨rfl, fun _ _ h => h⟩

/-- **Mapping.** A fresh region, whatever is then written into it, belongs to nobody. -/
theorem Inv.map (hinv : Inv k bases larges g) {r : Mapping} {m : Memory}
    (hfresh : Mapping.Fresh k.state.mappings r) (hlength : 0 < r.length)
    (hsame : SameOutside r.base r.length k.state.memory m) :
    Inv (k.remap m (r :: k.state.mapped) (r :: k.leaked)) bases larges g := by
  have hst := hinv.storage
  refine hinv.remap (hst.sameHeaders_of_apart hsame fun r' hr' => ?_) ?_ ?_ ?_
  · refine hfresh.apart r' (List.mem_append_left _ (hst.ledger.mem_iff.mpr ?_))
    exact List.mem_append_left _ hr'
  · exact (hst.ledger.cons r).trans List.perm_middle.symm
  · exact List.pairwise_cons.mpr ⟨hfresh.apart, hst.apart⟩
  · intro r' hr'
    rcases List.mem_cons.mp hr' with rfl | hold
    · exact hfresh.valid hlength
    · exact hst.valid r' hold

/-- **Unmapping.** A region nobody owns goes away. -/
theorem Inv.unmap (hinv : Inv k bases larges g) {r : Mapping} (hr : r ∈ k.leaked) :
    Inv (k.remap (k.state.memory.clobber r.base r.length) (k.state.mapped.erase r) (k.leaked.erase r))
      bases larges g := by
  have hst := hinv.storage
  have hsub : (k.state.mapped.erase r ++ k.state.descriptorMapped).Sublist k.state.mappings :=
    List.erase_sublist.append (List.Sublist.refl _)
  refine hinv.remap (hst.sameHeaders_of_apart (SameOutside.clobber _ _ _) fun r' hr' =>
    (hst.leaked_apart hr' hr).symm) ?_ (hst.apart.sublist hsub)
    (fun r' hr' => hst.valid r' (hsub.subset hr'))
  have hperm := hst.ledger.erase r
  rwa [List.erase_append_right _ fun hmem => ?_] at hperm
  have hvalid := hst.valid r (List.mem_append_left _
    (hst.ledger.mem_iff.mpr (List.mem_append_right _ hr)))
  exact (hst.leaked_apart hmem hr).base_ne hvalid.length_pos hvalid.length_pos rfl

end

/-! ### Adoption -/

omit [DecidableEq Tid] in
/-- Blocks inside a leaked region are not populated. -/
theorem Storage.not_populated {s : State Tid} {leaked : List Mapping}
    (hst : Storage s leaked bases larges) {r : Mapping} (hr : r ∈ leaked) {a : Nat}
    (hlow : r.base ≤ a) (hhigh : a < r.base + r.length) : ¬ Populated s.memory bases larges a := by
  intro hpop
  obtain ⟨b, r', -, hr', -, hlow', hhigh', -⟩ := hst.extent hpop
  have hapart := hst.leaked_apart hr' hr
  unfold Mapping.Apart at hapart
  unfold sizeofBlock at hhigh'
  omega

/-- A slab that is initialised but not registered: its region is nobody's. -/
structure Unregistered (k : Config Tid) (base : Nat) (h : Slab) : Prop where
  leaked : h.mapping ∈ k.leaked
  header : k.state.memory.slab base = some h
  wellFormed : h.WellFormed base
  block : ∀ a ∈ h.slots base,
    ∃ q, k.state.memory.block a = some ⟨.small base, q, 0, h.classCapacity, .small⟩

/-- The header with another registry link. -/
def Slab.withNext (h : Slab) (next : Ptr) : Slab := { h with next := next }

theorem Slab.WellFormed.withNext {h : Slab} {base : Nat} (hwf : h.WellFormed base) (next : Ptr) :
    (h.withNext next).WellFormed base :=
  ⟨hwf.mappingBase, hwf.capacity, hwf.first_le, hwf.first_aligned, hwf.stride_le, hwf.stride_aligned,
    hwf.count_pos, hwf.fits⟩

theorem setSlabNext_eq {m : Memory} {base : Nat} {h : Slab} (hh : m.slab base = some h) (next : Ptr) :
    m.setSlabNext base next
      = some { m with slab := Function.update m.slab base (some (h.withNext next)) } := by
  rw [setSlabNext, hh, Option.map_some]
  rfl

section Register

variable {base : Nat} {h : Slab} (hinv : Inv k bases larges g) (hslab : Unregistered k base h)
include hinv hslab

section

omit [DecidableEq Tid]

theorem Unregistered.not_mem : base ∉ bases := by
  intro hbase
  have hmapping := mem_slabMappings hbase hslab.header
  have hvalid := hinv.storage.valid _ (List.mem_append_left _
    (hinv.storage.ledger.mem_iff.mpr (List.mem_append_right _ hslab.leaked)))
  have hapart := hinv.storage.leaked_apart (List.mem_append_left _ hmapping) hslab.leaked
  exact hapart.base_ne hvalid.length_pos hvalid.length_pos rfl

theorem Unregistered.slot_fresh {a : Nat} (ha : a ∈ h.slots base) :
    ¬ Populated k.state.memory bases larges a := by
  have hwf := hslab.wellFormed
  obtain ⟨i, hi, rfl⟩ := List.mem_map.mp ha
  have hmul := Nat.mul_le_mul_right h.slotStride (Nat.succ_le_of_lt (List.mem_range.mp hi))
  rw [Nat.succ_mul] at hmul
  have hstride := hwf.stride_le
  have hfits := hwf.fits
  apply hinv.storage.not_populated hslab.leaked
  · rw [hwf.mapping_eq, slotAddress]
    simp only
    omega
  · rw [hwf.mapping_eq, slotAddress]
    simp only
    unfold sizeofBlock at hstride
    omega

/-- The storage with the slab registered in front. -/
theorem Unregistered.storage {m : Memory} (hm : m = { k.state.memory with
      slab := Function.update k.state.memory.slab base (some (h.withNext k.state.slabs)) }) :
    Storage { k.state with memory := m, slabs := some base } (k.leaked.erase h.mapping)
      (base :: bases) larges := by
  have hst := hinv.storage
  have hnotMem := hslab.not_mem hinv
  have hself : m.slab base = some (h.withNext k.state.slabs) := by
    simp [hm]
  have hother : ∀ base' ∈ bases, m.slab base' = k.state.memory.slab base' := by
    intro base' hbase'
    have hne : base' ≠ base := fun heq => hnotMem (heq ▸ hbase')
    simp [hm, hne]
  have hblock : m.block = k.state.memory.block := by rw [hm]
  have hslabs : slabMappings m (base :: bases) = h.mapping :: slabMappings k.state.memory bases := by
    unfold slabMappings
    rw [List.filterMap_cons_some (b := h.mapping) (by rw [hself, Option.map_some]; rfl)]
    congr 1
    exact List.filterMap_congr fun base' hbase' => by rw [hother base' hbase']
  refine ⟨?_, ?_, ?_, ?_, ?_, hst.apart, hst.valid⟩
  · refine ⟨rfl, k.state.slabs, ?_, hst.registry.congr fun base' hbase' => ?_⟩
    · change (m.slab base).map Slab.next = _
      rw [hself]
      rfl
    · simp only [slabNext, hother base' hbase']
  · intro base' hbase'
    rcases List.mem_cons.mp hbase' with rfl | hold
    · exact ⟨_, hself, hslab.wellFormed.withNext _⟩
    · obtain ⟨h', hh', hwf'⟩ := hst.slab base' hold
      exact ⟨h', (hother base' hold).trans hh', hwf'⟩
  · intro base' hbase' h' hh' a ha
    change m.slab base' = some h' at hh'
    change ∃ b, m.block a = some b ∧ _
    rw [hblock]
    rcases List.mem_cons.mp hbase' with rfl | hold
    · obtain rfl := Option.some.inj (hself.symm.trans hh')
      obtain ⟨q, hq⟩ := hslab.block a ha
      exact ⟨_, hq, rfl, rfl, rfl⟩
    · rw [hother base' hold] at hh'
      exact hst.slot base' hold h' hh' a ha
  · intro a ha
    change ∃ b, m.block a = some b ∧ _
    rw [hblock]
    exact hst.large a ha
  · change k.state.mapped.Perm (slabMappings m (base :: bases) ++ largeMappings m larges ++ _)
    rw [hslabs, show largeMappings m larges = largeMappings k.state.memory larges by
      simp only [largeMappings, hblock]]
    apply hst.ledger.trans
    rw [List.cons_append, List.cons_append]
    exact ((List.perm_cons_erase hslab.leaked).append_left _).trans List.perm_middle

end

/-- **Registering a slab.** Its slots come into the hands of the call. -/
theorem Inv.adoptSlab (pc : Pc) (hmine : g (.inflight t) = []) {xs : List Nat} {m : Memory}
    (hperm : xs.Perm (h.slots base))
    (hset : k.state.memory.setSlabNext base k.state.slabs = some m)
    (hfollows : (k.pc t).Follows pc) (hevicting : pc.evicting = (k.pc t).evicting)
    (hemptied : ∀ e, ¬ pc.Emptied e) (hfits : pc.Fits k.state t) (hcarries : pc.Carries m xs)
    (hclass : pc.listClass = some h.classIndex) :
    Inv { k.goto t { k.state with memory := m, slabs := some base } pc with
        leaked := k.leaked.erase h.mapping } (base :: bases) larges
      (Function.update g (.inflight t) xs) := by
  have hm := (Option.some.inj ((setSlabNext_eq hslab.header _).symm.trans hset)).symm
  have hnotMem := hslab.not_mem hinv
  have hslots := hslab.wellFormed.slots_nodup
  have hself : m.slab base = some (h.withNext k.state.slabs) := by simp [hm]
  have hother : ∀ base' ∈ bases, m.slab base' = k.state.memory.slab base' := by
    intro base' hbase'
    have hne : base' ≠ base := fun heq => hnotMem (heq ▸ hbase')
    simp [hm, hne]
  have hold : ∀ c a, InClass k.state.memory bases c a → InClass m (base :: bases) c a := by
    rintro c a ⟨base', hbase', h', hh', hrest⟩
    exact ⟨base', List.mem_cons_of_mem _ hbase', h', (hother base' hbase').trans hh', hrest⟩
  have hnew : ∀ a ∈ h.slots base, InClass m (base :: bases) h.classIndex a := fun a ha =>
    ⟨base, List.mem_cons_self, _, hself, rfl, ha⟩
  have hstep : ThreadStep k { k.goto t { k.state with memory := m, slabs := some base } pc with
      leaked := k.leaked.erase h.mapping } t := by
    refine ⟨rfl, rfl, rfl, rfl, fun _ _ => rfl, fun u hu => Function.update_of_ne hu _ _, ?_⟩
    simp only [Config.cacheOf, Config.goto_pc, hfollows.teardown]
    rfl
  have hfresh : ∀ a ∈ xs, ∀ p, a ∉ g p := fun a ha p hp =>
    hslab.slot_fresh hinv (hperm.mem_iff.mp ha) (hinv.populated hp)
  have hgrown : Function.update g (.inflight t) xs
      = Function.update g (.inflight t) (xs ++ g (.inflight t)) := by
    rw [hmine, List.append_nil]
  refine hinv.transfer hstep (fun q => q = .inflight t) (hslab.storage hinv hm) ?_ ?_ ?_ ?_ ?_
    (by simp) ?_ ?_ ?_ ?_ ?_
  · rw [hgrown]
    refine hinv.placed.grow _ ?_ hfresh
    rw [hmine, List.append_nil]
    exact hperm.nodup_iff.mpr hslots
  · intro a
    constructor
    · rintro ⟨p, hp⟩
      by_cases hpt : p = .inflight t
      · rw [hpt, Function.update_self] at hp
        exact Or.inl ⟨_, hnew a (hperm.mem_iff.mp hp)⟩
      · rw [Function.update_of_ne hpt] at hp
        rcases hinv.populated hp with ⟨c, hc⟩ | hlarge
        · exact Or.inl ⟨c, hold c a hc⟩
        · exact Or.inr hlarge
    · intro hpop
      have hcases : a ∈ h.slots base ∨ Populated k.state.memory bases larges a := by
        rcases hpop with ⟨c, base', hbase', h', hh', hc, hslot⟩ | hlarge
        · rcases List.mem_cons.mp hbase' with rfl | hmem
          · obtain rfl := Option.some.inj (hself.symm.trans hh')
            exact Or.inl hslot
          · exact Or.inr (Or.inl ⟨c, base', hmem, h', (hother base' hmem).symm.trans hh', hc, hslot⟩)
        · exact Or.inr (Or.inr hlarge)
      rcases hcases with hslot | hpop
      · exact ⟨.inflight t, by rw [Function.update_self]; exact hperm.mem_iff.mpr hslot⟩
      · obtain ⟨p, hp⟩ := (hinv.population a).mpr hpop
        have hne : p ≠ .inflight t := by
          rintro rfl
          simp [hmine] at hp
        exact ⟨p, by rwa [Function.update_of_ne hne]⟩
  · intro p hp
    have hblock : m.block = k.state.memory.block := by rw [hm]
    refine ⟨Function.update_of_ne hp _ _, ?_, fun a ha =>
      ⟨fun c => hold c a, fun h => h, congrFun hblock a⟩⟩
    refine hstep.sameHead hinv hp (fun _ => rfl) (fun _ _ => rfl) fun e _ => ?_
    exact ⟨hstep.cacheOf, fun d _ descriptor hmapped => ⟨descriptor, hmapped, rfl, rfl⟩⟩
  · rintro p rfl
    rw [Function.update_self]
    simp only [Holds, Admits, Config.goto_pc]
    refine ⟨hcarries, fun a ha => Pc.admits_of_free hclass ⟨hnew a (hperm.mem_iff.mp ha), ?_⟩⟩
    obtain ⟨q, hq⟩ := hslab.block a (hperm.mem_iff.mp ha)
    change m.size a = some 0
    rw [hm]
    exact size_eq_some hq
  · intro e he
    rw [Config.goto_pc] at he
    exact absurd he (hemptied e)
  · intro d hd
    rw [hstep.cacheOf] at hd
    obtain ⟨descriptor, hok⟩ := (hinv.thread t).descriptor d hd
    exact ⟨descriptor, hok.congr rfl rfl (by rw [Config.goto_pc, hevicting])⟩
  · rw [Config.goto_pc]
    exact hfits.congr rfl rfl
  · intro a ha
    rw [Config.goto_pc] at ha
    exact hinv.argument_own (hfollows.argument a ha)
  · intro u _ a ha
    exact hinv.argument_live u a ha
  · exact SameCall.inRegistry ⟨fun u hu => Function.update_of_ne hu _ _, by
      simpa using hfollows.argument, by simpa using hfollows.registry, rfl⟩ hinv

end Register

/-- **Adopting a large block.** It comes into the hands of the call, on its way to the client. -/
theorem Inv.adoptLarge (hinv : Inv k bases larges g) (hmine : g (.inflight t) = []) {a : Nat} {b : Block}
    (hleaked : (⟨a, sizeofBlock + b.capacity⟩ : Mapping) ∈ k.leaked)
    (hb : k.state.memory.block a = some b) (hat : b.LargeAt a) {r : Request}
    (hsize : b.requestedSize = r.size) (hsmall : maxSmallSize < r.size) (hfits : r.size ≤ b.capacity)
    (hfollows : (k.pc t).Follows (.deliver r a)) (hevicting : (k.pc t).evicting = none) :
    Inv { k.goto t k.state (.deliver r a) with
        leaked := k.leaked.erase ⟨a, sizeofBlock + b.capacity⟩ } bases (a :: larges)
      (Function.update g (.inflight t) [a]) := by
  have hst := hinv.storage
  have hfresh : ¬ Populated k.state.memory bases larges a :=
    hst.not_populated hleaked (Nat.le_refl _) (by simp only; unfold sizeofBlock; omega)
  have hstep : ThreadStep k { k.goto t k.state (.deliver r a) with
      leaked := k.leaked.erase ⟨a, sizeofBlock + b.capacity⟩ } t := by
    refine ⟨rfl, rfl, rfl, rfl, fun _ _ => rfl, fun u hu => Function.update_of_ne hu _ _, ?_⟩
    simp only [Config.cacheOf, Config.goto_pc, hfollows.teardown]
    rfl
  have hgrown : Function.update g (.inflight t) [a]
      = Function.update g (.inflight t) ([a] ++ g (.inflight t)) := by
    rw [hmine, List.append_nil]
  have hstorage : Storage k.state (k.leaked.erase ⟨a, sizeofBlock + b.capacity⟩) bases
      (a :: larges) := by
    refine ⟨hst.registry, hst.slab, hst.slot, ?_, ?_, hst.apart, hst.valid⟩
    · intro a' ha'
      rcases List.mem_cons.mp ha' with rfl | hold
      · exact ⟨b, hb, hat⟩
      · exact hst.large a' hold
    · have hlarge : largeMappings k.state.memory (a :: larges)
          = ⟨a, sizeofBlock + b.capacity⟩ :: largeMappings k.state.memory larges := by
        apply List.filterMap_cons_some
        rw [hb, Option.map_some, Block.mapping, hat.owner]
        rfl
      rw [hlarge]
      calc List.Perm k.state.mapped (slabMappings k.state.memory bases
              ++ largeMappings k.state.memory larges ++ k.leaked) := hst.ledger
        List.Perm _ (slabMappings k.state.memory bases ++ largeMappings k.state.memory larges
              ++ ⟨a, sizeofBlock + b.capacity⟩ :: k.leaked.erase ⟨a, sizeofBlock + b.capacity⟩) :=
          (List.perm_cons_erase hleaked).append_left _
        List.Perm _ (⟨a, sizeofBlock + b.capacity⟩ :: (slabMappings k.state.memory bases
              ++ largeMappings k.state.memory larges)
              ++ k.leaked.erase ⟨a, sizeofBlock + b.capacity⟩) := List.perm_middle
        List.Perm _ (slabMappings k.state.memory bases
              ++ ⟨a, sizeofBlock + b.capacity⟩ :: largeMappings k.state.memory larges
              ++ k.leaked.erase ⟨a, sizeofBlock + b.capacity⟩) := List.perm_middle.symm.append_right _
  refine hinv.transfer hstep (fun q => q = .inflight t) hstorage ?_ ?_ ?_ ?_ ?_ (by simp) ?_ ?_ ?_ ?_ ?_
  · rw [hgrown]
    apply hinv.placed.grow _ (by simp [hmine])
    intro a' ha' p hp
    rw [List.mem_singleton.mp ha'] at hp
    exact hfresh (hinv.populated hp)
  · intro a'
    constructor
    · rintro ⟨p, hp⟩
      by_cases hpt : p = .inflight t
      · rw [hpt, Function.update_self] at hp
        exact Or.inr (List.mem_cons.mpr (Or.inl (List.mem_singleton.mp hp)))
      · rw [Function.update_of_ne hpt] at hp
        exact (hinv.populated hp).imp_right (List.mem_cons_of_mem _)
    · intro hpop
      by_cases heq : a' = a
      · exact ⟨.inflight t, by simp [heq]⟩
      · have hold : Populated k.state.memory bases larges a' :=
          hpop.imp_right fun hmem => (List.mem_cons.mp hmem).resolve_left heq
        obtain ⟨p, hp⟩ := (hinv.population a').mpr hold
        have hne : p ≠ .inflight t := by
          rintro rfl
          simp [hmine] at hp
        exact ⟨p, by rwa [Function.update_of_ne hne]⟩
  · intro p hp
    refine ⟨Function.update_of_ne hp _ _, ?_, fun _ _ =>
      ⟨fun _ h => h, List.mem_cons_of_mem _, rfl⟩⟩
    refine hstep.sameHead hinv hp (fun _ => rfl) (fun _ _ => rfl) fun e _ => ?_
    exact ⟨hstep.cacheOf, fun d _ descriptor hmapped => ⟨descriptor, hmapped, rfl, rfl⟩⟩
  · rintro p rfl
    rw [Function.update_self]
    simp only [Holds, Admits, Config.goto_pc]
    refine ⟨rfl, fun a' ha' => ?_⟩
    rw [List.mem_singleton.mp ha']
    exact ⟨by rw [← hsize]; exact size_eq_some hb,
      Or.inr ⟨List.mem_cons_self, hsmall, b, hb, hfits⟩⟩
  · intro e he
    rw [Config.goto_pc] at he
    exact he.elim
  · intro d hd
    rw [hstep.cacheOf] at hd
    obtain ⟨descriptor, hok⟩ := (hinv.thread t).descriptor d hd
    exact ⟨descriptor, hok.congr rfl rfl (by rw [Config.goto_pc, hevicting]; rfl)⟩
  · rw [Config.goto_pc]
    trivial
  · intro a' ha'
    rw [Config.goto_pc] at ha'
    exact hinv.argument_own (hfollows.argument a' ha')
  · intro u _ a' ha'
    exact hinv.argument_live u a' ha'
  · exact SameCall.inRegistry ⟨fun u hu => Function.update_of_ne hu _ _, by
      simpa using hfollows.argument, by simpa using hfollows.registry, rfl⟩ hinv

/-! ### Disowning -/

section

omit [DecidableEq Tid]

theorem Storage.larges_nodup {s : State Tid} {leaked : List Mapping}
    (hst : Storage s leaked bases larges) : larges.Nodup := by
  have hpairwise := (List.pairwise_append.mp (List.pairwise_append.mp hst.ledger_apart).1).2.1
  rw [largeMappings, List.pairwise_filterMap] at hpairwise
  refine hpairwise.imp_of_mem fun {a a'} ha _ hapart heq => ?_
  subst heq
  obtain ⟨b, hb, hat, -, hvalid⟩ := hst.large_bounds ha
  have hmapping : (s.memory.block a).map Block.mapping = some ⟨a, sizeofBlock + b.capacity⟩ := by
    rw [hb, Option.map_some, Block.mapping, hat.owner]
    rfl
  exact (hapart _ hmapping _ hmapping).base_ne hvalid.length_pos hvalid.length_pos rfl

theorem Storage.large_not_inClass {s : State Tid} {leaked : List Mapping}
    (hst : Storage s leaked bases larges) {a : Nat} (ha : a ∈ larges) (c : ClassIndex) :
    ¬ InClass s.memory bases c a := by
  rintro ⟨base, hbase, h, hh, -, hslot⟩
  obtain ⟨b, hb, hslotOf⟩ := hst.slot base hbase h hh a hslot
  obtain ⟨b', hb', hat⟩ := hst.large a ha
  obtain rfl := Option.some.inj (hb.symm.trans hb')
  have hkind := hslotOf.kind.symm.trans hat.kind
  simp at hkind

theorem Inv.live_nodup (hinv : Inv k bases larges g) : k.live.Nodup := by
  have hlive : g .live = k.live := hinv.holds .live
  exact hlive ▸ hinv.placed.nodup .live

end

/-- **Giving up a large block.** The client no longer has it, and its region is nobody's. -/
theorem Inv.disownLarge (hinv : Inv k bases larges g) {a : Nat} (hpc : k.pc t = .release a)
    (ha : a ∈ larges) {b : Block} (hb : k.state.memory.block a = some b) :
    Inv { k.goto t k.state .idle with
        live := k.live.erase a
        leaked := b.mapping :: k.leaked } bases (larges.erase a)
      (Function.update g .live (k.live.erase a)) := by
  have hst := hinv.storage
  have hlive : g .live = k.live := hinv.holds .live
  have hnodup := hinv.live_nodup
  have hmem : a ∈ k.live := hinv.argument_live t a (by rw [hpc]; rfl)
  have hmine : g (.inflight t) = [] := hinv.carries_at hpc
  have hgone : ¬ Populated k.state.memory bases (larges.erase a) a := by
    rintro (⟨c, hclass⟩ | hmem')
    · exact hst.large_not_inClass ha c hclass
    · exact (List.Nodup.not_mem_erase hst.larges_nodup) hmem'
  have hkeep : ∀ a', a' ≠ a → (Populated k.state.memory bases (larges.erase a) a' ↔
      Populated k.state.memory bases larges a') := fun a' hne =>
    or_congr_right (List.mem_erase_of_ne hne)
  have hstep : ThreadStep k { k.goto t k.state .idle with
      live := k.live.erase a
      leaked := b.mapping :: k.leaked } t := by
    refine ⟨rfl, rfl, rfl, rfl, fun _ _ => rfl, fun u hu => Function.update_of_ne hu _ _, ?_⟩
    simp only [Config.cacheOf, Config.goto_pc, hpc]
    rfl
  have hstorage : Storage k.state (b.mapping :: k.leaked) bases (larges.erase a) := by
    refine ⟨hst.registry, hst.slab, hst.slot, fun a' ha' => hst.large a' (List.mem_of_mem_erase ha'),
      ?_, hst.apart, hst.valid⟩
    have hlarge : (largeMappings k.state.memory larges).Perm
        (b.mapping :: largeMappings k.state.memory (larges.erase a)) := by
      have hperm := (List.perm_cons_erase ha).filterMap
        fun a => (k.state.memory.block a).map Block.mapping
      rw [List.filterMap_cons_some (b := b.mapping) (by rw [hb, Option.map_some])] at hperm
      exact hperm
    calc List.Perm k.state.mapped (slabMappings k.state.memory bases
            ++ largeMappings k.state.memory larges ++ k.leaked) := hst.ledger
      List.Perm _ (slabMappings k.state.memory bases
            ++ b.mapping :: largeMappings k.state.memory (larges.erase a) ++ k.leaked) :=
        (hlarge.append_left _).append_right _
      List.Perm _ (b.mapping :: (slabMappings k.state.memory bases
            ++ largeMappings k.state.memory (larges.erase a)) ++ k.leaked) :=
        List.perm_middle.append_right _
      List.Perm _ (slabMappings k.state.memory bases ++ largeMappings k.state.memory (larges.erase a)
            ++ b.mapping :: k.leaked) := List.perm_middle.symm
  have hother : ∀ p, p ≠ .live → a ∉ g p := by
    intro p hp hap
    exact hp (hinv.placed.disjoint hap (hlive ▸ hmem))
  refine hinv.transfer hstep (fun q => q = .live ∨ q = .inflight t) hstorage ?_ ?_ ?_ ?_ ?_ (by simp)
    ?_ ?_ ?_ ?_ ?_
  · apply hinv.placed.shrink
    intro p
    by_cases hp : p = .live
    · rw [hp, Function.update_self, hlive]
      exact List.erase_sublist.subperm
    · rw [Function.update_of_ne hp]
  · intro a'
    have hnew : (∃ p, a' ∈ Function.update g .live (k.live.erase a) p) ↔
        a' ≠ a ∧ ∃ p, a' ∈ g p := by
      constructor
      · rintro ⟨p, hp⟩
        by_cases hpl : p = .live
        · rw [hpl, Function.update_self] at hp
          exact ⟨fun h => hnodup.not_mem_erase (h ▸ hp), .live, hlive ▸ List.mem_of_mem_erase hp⟩
        · rw [Function.update_of_ne hpl] at hp
          exact ⟨fun h => hother p hpl (h ▸ hp), p, hp⟩
      · rintro ⟨hne, p, hp⟩
        by_cases hpl : p = .live
        · subst hpl
          rw [hlive] at hp
          exact ⟨.live, by rw [Function.update_self]; exact (List.mem_erase_of_ne hne).mpr hp⟩
        · exact ⟨p, by rwa [Function.update_of_ne hpl]⟩
    rw [hnew]
    by_cases hne : a' = a
    · subst hne
      exact ⟨fun h => absurd rfl h.1, fun h => absurd h hgone⟩
    · rw [hinv.population]
      exact ⟨fun h => (hkeep a' hne).mpr h.2, fun h => ⟨hne, (hkeep a' hne).mp h⟩⟩
  · intro p hp
    obtain ⟨hpl, hpt⟩ := not_or.mp hp
    refine ⟨Function.update_of_ne hpl _ _, ?_, fun a' ha' => ⟨fun _ h => h, fun hmem' => ?_, rfl⟩⟩
    · refine hstep.sameHead hinv hpt (fun h => absurd h hpl) (fun _ _ => rfl) fun e _ => ?_
      exact ⟨hstep.cacheOf, fun d _ descriptor hmapped => ⟨descriptor, hmapped, rfl, rfl⟩⟩
    · have hne : a' ≠ a := fun h => hother p hpl (h ▸ ha')
      exact (List.mem_erase_of_ne hne).mpr hmem'
  · rintro p (rfl | rfl)
    · rw [Function.update_self]
      refine ⟨rfl, fun a' ha' => ?_⟩
      have hne : a' ≠ a := fun h => hnodup.not_mem_erase (h ▸ ha')
      obtain ⟨n, hsized⟩ := hinv.admits .live a' (hlive ▸ List.mem_of_mem_erase ha')
      have hpersists : Persists k.state.memory k.state.memory bases larges bases (larges.erase a) a' :=
        ⟨fun _ h => h, (List.mem_erase_of_ne hne).mpr, rfl⟩
      exact ⟨n, hpersists.sized hsized⟩
    · rw [Function.update_of_ne (by simp), hmine]
      simp only [Holds, Config.goto_pc]
      exact ⟨rfl, by simp⟩
  · intro e he
    rw [Config.goto_pc] at he
    exact he.elim
  · intro d hd
    rw [hstep.cacheOf] at hd
    obtain ⟨descriptor, hok⟩ := (hinv.thread t).descriptor d hd
    exact ⟨descriptor, hok.congr rfl rfl (by rw [Config.goto_pc, hpc]; rfl)⟩
  · rw [Config.goto_pc]
    trivial
  · intro a' ha'
    rw [Config.goto_pc] at ha'
    simp [Pc.argument] at ha'
  · intro u hu a' ha'
    refine (List.mem_erase_of_ne fun heq => hu ?_).mpr (hinv.argument_live u a' ha')
    exact hinv.argument_unique u t a' ha' (by rw [hpc, heq]; rfl)
  · refine SameCall.inRegistry ⟨fun u hu => Function.update_of_ne hu _ _, ?_, ?_, rfl⟩ hinv
    · rw [Config.goto_pc]
      simp [Pc.argument]
    · rw [Config.goto_pc, hpc]
      exact Iff.rfl

end Hplf
