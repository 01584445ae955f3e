import HplfMalloc.Proof.StorageSteps

/-!
# Allocating, delivering and freeing

The invariant through the steps that create blocks and through those that hand blocks to clients or take
them back.
-/

namespace Hplf

open Lib Memory

variable {Tid : Type}
variable {k : Config Tid} {t : Tid} {bases larges : List Nat} {g : Place Tid → List Nat}
variable {c : ClassIndex} {pc : Pc} {w : World}

theorem Inv.live_eq (hinv : Inv k bases larges g) : g .live = k.live := hinv.holds .live

theorem Inv.owned_mapped (hinv : Inv k bases larges g) {r : Mapping}
    (hr : r ∈ slabMappings k.state.memory bases ++ largeMappings k.state.memory larges) :
    r ∈ k.state.mappings :=
  List.mem_append_left _ (hinv.storage.ledger.mem_iff.mpr (List.mem_append_left _ hr))

/-! ### Creating blocks -/

variable [DecidableEq Tid]

/-- **Slab creation.** It fails and leaves only an error number behind, or the slots of a new registered
slab come into the hands of the call. -/
theorem Inv.createSlab (hinv : Inv k bases larges g) (w : World) (hmine : g (.inflight t) = [])
    (c : ClassIndex) :
    (∃ s, createRegisteredSlab w k.state t c (sizeClassCapacities c) = some (s, none) ∧
        OsNoise k.state s) ∨
      ∃ s list base h, createRegisteredSlab w k.state t c (sizeClassCapacities c)
          = some (s, some list) ∧ KeepsLive k s.memory ∧
        (∀ base ∈ bases, s.memory.slab base = k.state.memory.slab base) ∧ h.classIndex = c ∧
        h.slotCount = slabSlots c (w.sysconf k.state.pageQueries).toNat ∧
        base ∉ bases ∧ s.memory.slab base = some h ∧
        list.Owns s.memory (h.slots base).reverse ∧ (h.slots base).reverse ≠ [] ∧
        ∀ pc, (k.pc t).Follows pc → pc.evicting = (k.pc t).evicting → (∀ e, ¬ pc.Emptied e) →
          pc.Fits k.state t → pc.Carries s.memory (h.slots base).reverse → pc.listClass = some c →
          Inv (k.goto t s pc) (base :: bases) larges
            (Function.update g (.inflight t) (h.slots base).reverse) := by
  unfold createRegisteredSlab
  cases hcreate : slabCreate w k.state t c (sizeClassCapacities c) with
  | mk s₁ result =>
  rcases slabCreate_spec hcreate with ⟨rfl, hnoise⟩ | ⟨base, freeList, h, rfl, hslab, hcount⟩
  · exact Or.inl ⟨s₁, rfl, hnoise⟩
  right
  obtain ⟨errno, queries, outcomes, m₁, rfl⟩ := hslab.state_eq
  have hwf := hslab.wellFormed
  have hlength : 0 < h.mapping.length := by
    have hheader := hwf.header_le
    unfold sizeofSlab at hheader
    change 0 < h.mappingLength
    omega
  have hsame : SameOutside h.mapping.base h.mapping.length k.state.memory m₁ := hslab.sameOutside
  have hmapped := hinv.map hslab.fresh hlength hsame
  have hapart : ∀ r' ∈ slabMappings k.state.memory bases ++ largeMappings k.state.memory larges,
      h.mapping.Apart r' := fun r' hr' => hslab.fresh.apart r' (hinv.owned_mapped hr')
  have hkeeps := hinv.keepsLive_of_apart hsame hapart
  have hheaders := hinv.storage.sameHeaders_of_apart hsame hapart
  have hunregistered : Unregistered (k.remap m₁ (h.mapping :: k.state.mapped) (h.mapping :: k.leaked))
      base h := ⟨List.mem_cons_self, hslab.header, hwf, hslab.block⟩
  have hset := setSlabNext_eq (m := m₁) hslab.header k.state.slabs
  have hchain : Chain (Memory.next { m₁ with
      slab := Function.update m₁.slab base (some (h.withNext k.state.slabs)) }) freeList
      (h.slots base).reverse := hslab.chain
  have hadopt := fun pc => Inv.adoptSlab (t := t) hmapped hunregistered pc hmine
    (List.reverse_perm _) hset
  have hnodup : (h.slots base).reverse.length ≤ addressSpace := by
    refine (length_le_addressSpace hslab.chain.nodup fun a ha => ?_).le
    have hslots := List.mem_reverse.mp ha
    obtain ⟨i, hi, rfl⟩ := List.mem_map.mp hslots
    have hmul := Nat.mul_le_mul_right h.slotStride (Nat.succ_le_of_lt (List.mem_range.mp hi))
    rw [Nat.succ_mul] at hmul
    have hvalid := hslab.fresh.valid hlength
    have hfitsMap := hvalid.fits
    have hpos := hvalid.base_pos
    have hstride := hwf.stride_le
    have hfits := hwf.fits
    rw [hwf.mapping_eq] at hfitsMap hpos
    simp only at hfitsMap hpos
    unfold slotAddress
    unfold sizeofBlock at hstride
    omega
  obtain ⟨list, hlist, howns⟩ := transferListFromChain_of_chain hchain hnodup
  refine ⟨{ k.state with
      errno := errno
      pageQueries := queries
      mapOutcomes := outcomes
      mapped := h.mapping :: k.state.mapped
      memory := { m₁ with
        slab := Function.update m₁.slab base (some (h.withNext k.state.slabs)) }
      slabs := some base }, list, base, h.withNext k.state.slabs, ?_, ?_, ?_, hslab.class_eq, hcount,
    hunregistered.not_mem hmapped, ?_, howns, ?_, ?_⟩
  · simp only [registerSlab, hset, Option.bind_eq_bind, Option.bind_some, hlist]
  · exact ⟨hkeeps.block, hkeeps.byte⟩
  · intro base' hbase'
    have hne : base' ≠ base := fun heq => hunregistered.not_mem hmapped (heq ▸ hbase')
    dsimp only
    rw [Function.update_of_ne hne]
    exact hheaders.slab base' hbase'
  · simp
  · have hcount := hwf.count_pos
    intro hnil
    have := congrArg List.length hnil
    rw [List.length_reverse, Slab.slots, List.length_map, List.length_range] at this
    change h.slotCount = 0 at this
    omega
  · intro pc hfollows hevicting hemptied hfits hcarries hclass
    have hinv' := hadopt pc hfollows hevicting hemptied (hfits.congr rfl rfl) hcarries
      (by rw [hclass, hslab.class_eq])
    refine hinv'.congr ⟨rfl, rfl, rfl, rfl, rfl, rfl, rfl, rfl, rfl, rfl, rfl, rfl, ?_⟩
    exact (List.erase_cons_head ..).symm

theorem largeLayoutCompute_eq_some {n pageSize : Nat} {layout : LargeLayout}
    (hlayout : largeLayoutCompute n pageSize = some layout) :
    layout.payloadOffset = 48 ∧ 48 + n ≤ layout.mappingLength ∧ layout.mappingLength ≤ sizeMax := by
  unfold largeLayoutCompute at hlayout
  split at hlayout
  · simp at hlayout
  simp only [blockPayloadOffset_eq, Option.bind_eq_bind, Option.bind_some] at hlayout
  obtain ⟨bytes, hadd, hlayout⟩ := Option.bind_eq_some_iff.mp hlayout
  obtain ⟨length, hround, hlayout⟩ := Option.bind_eq_some_iff.mp hlayout
  obtain rfl := Option.some.inj hlayout
  obtain ⟨rfl, hle⟩ := sizeAdd_eq_some (by decide) hadd
  obtain ⟨-, -, hlow, -, hhigh⟩ := sizeRoundUpMultiple_eq_some hle hround
  exact ⟨rfl, hlow, hhigh⟩

/-- **Large allocation.** It fails and leaves only an error number behind, or a new large block that can
hold the request comes into the hands of the call. -/
theorem Inv.allocateLarge (hinv : Inv k bases larges g) (w : World) (hmine : g (.inflight t) = [])
    {r : Request} (hsmall : maxSmallSize < r.size) (hevicting : (k.pc t).evicting = none)
    (hfollows : ∀ a, (k.pc t).Follows (.deliver r a)) :
    (∃ s, allocateLarge w k.state t r.size = (s, none) ∧ OsNoise k.state s) ∨
      ∃ s a, allocateLarge w k.state t r.size = (s, blockPayload (some a)) ∧ KeepsLive k s.memory ∧
        (∀ base ∈ bases, s.memory.slab base = k.state.memory.slab base) ∧
        Inv (k.goto t s (.deliver r a)) bases (a :: larges)
          (Function.update g (.inflight t) [a]) := by
  unfold Hplf.allocateLarge
  have hnoise := osPageSize_noise w k.state t
  split
  · rename_i s₁ hpage
    rw [hpage] at hnoise
    exact Or.inl ⟨_, rfl, hnoise.setErrno t _⟩
  rename_i s₁ pageSize hpage
  rw [hpage] at hnoise
  split
  · exact Or.inl ⟨_, rfl, hnoise.setErrno t _⟩
  rename_i layout hlayout
  obtain ⟨hoffset, hlow, hhigh⟩ := largeLayoutCompute_eq_some hlayout
  obtain ⟨errno, queries, outcomes, rfl⟩ := hnoise
  split
  · rename_i s₂ hmap
    rcases osMap_spec hhigh hmap with ⟨-, hnoise₂⟩ | ⟨_, hsome, _⟩
    · exact Or.inl ⟨_, rfl, (OsNoise.trans ⟨_, _, _, rfl⟩ hnoise₂).setErrno t _⟩
    · simp at hsome
  rename_i s₂ mapping hmap
  rcases osMap_spec hhigh hmap with ⟨hnone, -⟩ | ⟨mapping', hsome, hmaps⟩
  · simp at hnone
  obtain rfl := Option.some.inj hsome
  obtain ⟨errno', queries', outcomes', rfl⟩ := hmaps.state_eq
  have hfresh : Mapping.Fresh k.state.mappings mapping := hmaps.fresh
  have hle := hmaps.length_le
  have hlength : 0 < mapping.length := by omega
  have hlt : mapping.length < 2 ^ 64 := by
    have hfits := hfresh.fits
    have hpos := hfresh.base_pos
    unfold addressSpace at hfits
    omega
  have hcapacity : sizeSub mapping.length layout.payloadOffset = mapping.length - 48 := by
    rw [hoffset, sizeSub_of_le (by omega) hlt]
  rw [hcapacity]
  right
  set b : Block :=
    { owner := .large mapping.base mapping.length
      nextFree := none
      requestedSize := r.size
      capacity := mapping.length - 48
      kind := .large } with hb
  set m := (k.state.memory.mapRegion mapping.base mapping.length).initBlock mapping.base b with hm
  have hsame : SameOutside mapping.base mapping.length k.state.memory m := by
    refine (SameOutside.writeBytes _ _ _ _).trans ((SameOutside.initBlock _ _ _).mono (Nat.le_refl _) ?_)
    unfold sizeofBlock
    omega
  have hself : m.block mapping.base = some b := initBlock_self _ _ _
  have hregion : (⟨mapping.base, sizeofBlock + b.capacity⟩ : Mapping) = mapping := by
    have hsum : sizeofBlock + (mapping.length - 48) = mapping.length := by unfold sizeofBlock; omega
    simp [hb, hsum]
  have hat : b.LargeAt mapping.base := by
    refine ⟨rfl, ?_⟩
    have hsum : sizeofBlock + (mapping.length - 48) = mapping.length := by unfold sizeofBlock; omega
    simp [hb, hsum]
  have hmapped := hinv.map hfresh hlength hsame
  have hadopt := hmapped.adoptLarge (t := t) hmine (a := mapping.base) (b := b)
    (by rw [hregion]; exact List.mem_cons_self) hself hat (r := r) rfl hsmall
    (by simp only [hb]; omega) (hfollows mapping.base) hevicting
  have hapart : ∀ r' ∈ slabMappings k.state.memory bases ++ largeMappings k.state.memory larges,
      mapping.Apart r' := fun r' hr' => hfresh.apart r' (hinv.owned_mapped hr')
  refine ⟨_, mapping.base, rfl, hinv.keepsLive_of_apart hsame hapart,
    (hinv.storage.sameHeaders_of_apart hsame hapart).slab, hadopt.congr
      ⟨rfl, rfl, rfl, rfl, rfl, rfl, rfl, rfl, rfl, rfl, rfl, rfl, ?_⟩⟩
  · rw [hregion]
    exact (List.erase_cons_head ..).symm

/-! ### Handing out and taking back -/

omit [DecidableEq Tid] in
/-- What the header of a live block says: a slot of the class serving its size, or a large block. -/
theorem Inv.live_cases (hinv : Inv k bases larges g) {a : Nat} (ha : a ∈ k.live) :
    (∃ c base h b, base ∈ bases ∧ k.state.memory.slab base = some h ∧ h.classIndex = c ∧
        a ∈ h.slots base ∧ k.state.memory.block a = some b ∧ b.SlotOf base h ∧
        b.capacity = sizeClassCapacities c ∧
        sizeClassFor b.requestedSize = some (c, sizeClassCapacities c)) ∨
      ∃ b, a ∈ larges ∧ k.state.memory.block a = some b ∧ b.LargeAt a ∧
        maxSmallSize < b.requestedSize ∧ b.requestedSize ≤ b.capacity := by
  obtain ⟨n, hsize, hcases⟩ := hinv.admits .live a (hinv.live_eq ▸ ha)
  rcases hcases with ⟨c, ⟨base, hbase, h, hh, rfl, hslot⟩, hfor⟩ | ⟨hlarge, hlt, b, hb, hle⟩
  · obtain ⟨b, hb, hslotOf⟩ := hinv.storage.slot base hbase h hh a hslot
    rw [size_eq_some hb] at hsize
    obtain rfl := Option.some.inj hsize
    refine Or.inl ⟨h.classIndex, base, h, b, hbase, hh, rfl, hslot, hb, hslotOf, ?_, hfor⟩
    rw [hslotOf.capacity, (hinv.storage.wellFormed hbase hh).capacity]
  · obtain ⟨b', hb', hat⟩ := hinv.storage.large a hlarge
    obtain rfl := Option.some.inj (hb.symm.trans hb')
    rw [size_eq_some hb] at hsize
    obtain rfl := Option.some.inj hsize
    exact Or.inr ⟨b, hlarge, hb, hat, hlt, hle⟩

theorem sizeClassFor_capacity (c : ClassIndex) :
    sizeClassFor (sizeClassCapacities c) = some (c, sizeClassCapacities c) := by
  revert c
  decide

/-- The call of `hplf_free` has cleared the size of its block and holds it. -/
def Config.reclaimed (k : Config Tid) (t : Tid) (m : Memory) (c : ClassIndex) (a : Nat) : Config Tid :=
  { k.goto t { k.state with memory := m } (.hand ⟨.malloc, sizeClassCapacities c⟩ c a) with
    live := k.live.erase a }

/-- **Taking back.** A freed small block leaves the client with its requested size cleared. -/
theorem Inv.reclaim (hinv : Inv k bases larges g) {a : Nat} (hpc : k.pc t = .release a)
    (hclass : InClass k.state.memory bases c a) :
    ∃ m, k.state.memory.setRequestedSize a 0 = some m ∧ Framed [a] k.state.memory m ∧
      m.next = k.state.memory.next ∧
      Inv (k.reclaimed t m c a) bases larges
        (replace₂ g .live (.inflight t) (k.live.erase a) [a]) := by
  have hlive := hinv.live_eq
  have hnodup := hinv.live_nodup
  have ha : a ∈ k.live := hinv.argument_live t a (by rw [hpc]; rfl)
  have hmine : g (.inflight t) = [] := hinv.carries_at hpc
  have hmem : a ∈ g .live := hlive ▸ ha
  obtain ⟨q, hq⟩ := hinv.exists_next hmem
  obtain ⟨m, hset, hframe, hnext, hsize⟩ := exists_setRequestedSize hq 0
  refine ⟨m, hset, hframe, hnext, ?_⟩
  have hlists : ListsOnly k.state { k.state with memory := m } := ⟨_, _, _, _, rfl⟩
  have hfollows : (k.pc t).Follows (.hand ⟨.malloc, sizeClassCapacities c⟩ c a) := by
    rw [hpc]
    exact ⟨rfl, by simp [Pc.hand, Pc.argument], Iff.rfl⟩
  have hstep : LocalStep k (k.reclaimed t m c a) t [a] :=
    Config.goto_localStep rfl rfl rfl hframe hlists (fun _ _ => rfl) hfollows.teardown
  refine hinv.exchange (p := .live) hstep ⟨hstep.pc, ?_, ?_, rfl⟩ trivial ?_ ?_ ?_ ?_ rfl ?_ ?_ ?_ ?_
    ?_ ?_
  · simpa [Config.reclaimed] using hfollows.argument
  · simpa [Config.reclaimed] using hfollows.registry
  · rw [hmine, List.append_nil, hlive]
    exact (List.perm_append_singleton a _).trans (List.perm_cons_erase ha).symm
  · intro b hb
    rw [List.mem_singleton.mp hb]
    exact Or.inl hmem
  · intro p hp hpt
    refine hstep.sameHead hinv hpt (fun h => absurd h hp) (fun _ _ => rfl) fun e _ => ?_
    exact ⟨hstep.cacheOf, fun d _ descriptor hmapped => ⟨descriptor, hmapped, rfl, rfl⟩⟩
  · intro b hb hdead
    have heq : b = a := by
      by_contra hne
      exact hdead ((List.mem_erase_of_ne hne).mpr hb)
    rw [heq, hpc]
    simp [Config.reclaimed, Pc.hand, Pc.argument]
  · simp only [Config.reclaimed, Config.goto_pc]
    exact Pc.carries_hand _ _ _ _
  · intro b hb
    have hne : b ≠ a := fun h => hnodup.not_mem_erase (h ▸ hb)
    obtain ⟨n, hsized⟩ := hinv.admits .live b (hlive ▸ List.mem_of_mem_erase hb)
    exact ⟨n, (hframe.persists (by simpa using hne)).sized hsized⟩
  · intro b hb
    simp only [Config.reclaimed, Config.goto_pc, Config.goto_state]
    rw [List.mem_singleton.mp hb]
    exact Pc.admits_of_free (c := c) rfl ⟨hclass.congr hframe.slab, by simp [hsize]⟩
  · intro e he
    simp only [Config.reclaimed, Config.goto_pc] at he
    exact he.elim
  · intro d hd
    rw [hstep.cacheOf] at hd
    obtain ⟨descriptor, hok⟩ := (hinv.thread t).descriptor d hd
    refine ⟨descriptor, hok.congr rfl rfl ?_⟩
    simp only [Config.reclaimed, Config.goto_pc, hpc]
    rfl
  · simp only [Config.reclaimed, Config.goto_pc]
    exact ⟨_, sizeClassFor_capacity c⟩

/-- A freed block without a cache becomes a list of its own. -/
theorem Inv.singleton (hinv : Inv k bases larges g) {r : Request} {a : Nat}
    (hpc : k.pc t = .hand r c a) (hmine : g (.inflight t) = [a]) (savedErrno : Errno) :
    ∃ m, k.state.memory.setNextFree a none = some m ∧ Quiet k { k.state with memory := m } ∧
      Inv (k.goto t { k.state with memory := m } (.publishFreed c ⟨some a, some a, 1⟩ savedErrno))
        bases larges g := by
  have ha : a ∈ g (.inflight t) := by simp [hmine]
  obtain ⟨q, hq⟩ := hinv.exists_next ha
  obtain ⟨m, hset, hframe, hsize, hnext⟩ := exists_setNextFree hq none
  refine ⟨m, hset, Quiet.of_framed ⟨_, _, _, _, rfl⟩ hframe ?_, ?_⟩
  · intro b hb
    rw [List.mem_singleton.mp hb]
    exact hinv.not_live (by simp) ha
  refine hinv.rewrite hframe (fun b hb => List.mem_singleton.mp hb ▸ ha) ?_ (by rw [hpc]; rfl)
    (fun e he => he.elim) trivial ?_ ?_
  · rw [hpc]
    exact ⟨rfl, by simp [Pc.argument], Iff.rfl⟩
  · rw [hmine]
    exact ⟨⟨rfl, none, by simp [hnext], rfl⟩, rfl, rfl⟩
  · intro b hb
    apply Pc.admits_of_free (c := c) rfl
    exact (hinv.free_of_inflight (by rw [hpc]; rfl) hb).congr hframe.slab (congrFun hsize b)

/-- **Delivering.** The block becomes the client's; the call ends or goes on to free its argument. -/
theorem Inv.handOver (hinv : Inv k bases larges g) (pc : Pc) {r : Request} {a : Nat}
    (hpc : k.pc t = .deliver r a)
    (hnext : pc = .idle ∨ ∃ old, r.purpose = .realloc old ∧ pc = .release old) :
    Inv { k.goto t k.state pc with live := a :: k.live } bases larges
      (replace₂ g .live (.inflight t) (a :: k.live) []) := by
  have hlive := hinv.live_eq
  have hmine : g (.inflight t) = [a] := hinv.carries_at hpc
  have hfollows : (k.pc t).Follows pc := by
    rw [hpc]
    rcases hnext with rfl | ⟨old, hpurpose, rfl⟩
    · exact ⟨rfl, by simp [Pc.argument], Iff.rfl⟩
    · exact ⟨rfl, by simp [Pc.argument, hpurpose], Iff.rfl⟩
  have hplain : (∀ m, pc.Carries m []) ∧ (∀ e, ¬ pc.Emptied e) ∧ pc.evicting = none ∧
      pc.Fits k.state t := by
    rcases hnext with rfl | ⟨old, -, rfl⟩ <;>
      exact ⟨fun _ => rfl, fun _ h => h.elim, rfl, trivial⟩
  obtain ⟨hcarries, hemptied, hevicting, hfits⟩ := hplain
  have hstep : LocalStep k { k.goto t k.state pc with live := a :: k.live } t [] :=
    Config.goto_localStep rfl rfl rfl (Framed.refl _ _) (ListsOnly.refl _) (fun _ _ => rfl)
      hfollows.teardown
  refine hinv.exchange (p := .live) hstep ⟨hstep.pc, ?_, ?_, rfl⟩ trivial ?_ (by simp) ?_ ?_ rfl ?_ ?_
    (by simp) ?_ ?_ ?_
  · simpa using hfollows.argument
  · simpa using hfollows.registry
  · rw [hmine, hlive, List.append_nil]
    exact (List.perm_append_singleton a _).symm
  · intro p hp hpt
    refine hstep.sameHead hinv hpt (fun h => absurd h hp) (fun _ _ => rfl) fun e _ => ?_
    exact ⟨hstep.cacheOf, fun d _ descriptor hmapped => ⟨descriptor, hmapped, rfl, rfl⟩⟩
  · intro b hb hdead
    exact absurd (List.mem_cons_of_mem a hb) hdead
  · simp only [Config.goto_pc]
    exact hcarries _
  · intro b hb
    rcases List.mem_cons.mp hb with rfl | hb
    · have hadmits : (k.pc t).Admits k.state.memory bases larges b :=
        hinv.admits (.inflight t) b (by simp [hmine])
      rw [hpc] at hadmits
      exact ⟨r.size, hadmits⟩
    · exact hinv.admits .live b (hlive ▸ hb)
  · intro e he
    simp only [Config.goto_pc] at he
    exact absurd he (hemptied e)
  · intro d hd
    rw [hstep.cacheOf] at hd
    obtain ⟨descriptor, hok⟩ := (hinv.thread t).descriptor d hd
    refine ⟨descriptor, hok.congr rfl rfl ?_⟩
    simp only [Config.goto_pc, hpc, hevicting]
    rfl
  · simp only [Config.goto_pc]
    exact hfits

omit [DecidableEq Tid] in
/-- The size of a block on its way to the client fits its capacity. -/
theorem Inv.deliver_size_le (hinv : Inv k bases larges g) {r : Request} {a : Nat}
    (hpc : k.pc t = .deliver r a) :
    Populated k.state.memory bases larges a ∧ ∃ b, k.state.memory.block a = some b ∧
      b.requestedSize = r.size ∧ r.size ≤ b.capacity := by
  have hmem : a ∈ g (.inflight t) := by
    have hcarries := hinv.carries_at hpc
    rw [show g (.inflight t) = [a] from hcarries]
    exact List.mem_singleton_self a
  have hadmits : (k.pc t).Admits k.state.memory bases larges a := hinv.admits (.inflight t) a hmem
  rw [hpc] at hadmits
  obtain ⟨hsize, hcases⟩ := hadmits
  refine ⟨hinv.populated hmem, ?_⟩
  obtain ⟨b, hb⟩ := hinv.exists_block hmem
  rw [size_eq_some hb] at hsize
  refine ⟨b, hb, Option.some.inj hsize, ?_⟩
  rcases hcases with ⟨c, ⟨base, hbase, h, hh, rfl, hslot⟩, hfor⟩ | ⟨-, -, b', hb', hle⟩
  · obtain ⟨b', hb', hslotOf⟩ := hinv.storage.slot base hbase h hh a hslot
    obtain rfl := Option.some.inj (hb.symm.trans hb')
    rw [hslotOf.capacity, (hinv.storage.wellFormed hbase hh).capacity]
    exact (sizeClassFor_eq_some hfor).2.1
  · obtain rfl := Option.some.inj (hb.symm.trans hb')
    exact hle

omit [DecidableEq Tid] in
/-- **Writing a payload.** Bytes written inside the extent of one block disturb no header. -/
theorem Inv.writePayload (hinv : Inv k bases larges g) {a : Nat}
    (hpop : Populated k.state.memory bases larges a) {b : Block}
    (hb : k.state.memory.block a = some b) {lo length : Nat} (value : Nat → Option UInt8)
    (hlo : a + sizeofBlock ≤ lo) (hhi : lo + length ≤ a + (sizeofBlock + b.capacity)) :
    Inv { k with state := { k.state with memory := k.state.memory.writeBytes lo length value } }
      bases larges g := by
  have hsame := hinv.storage.sameHeaders_of_payload hpop hb
    (SameOutside.writeBytes k.state.memory lo length value) hlo hhi
  exact hinv.remap hsame hinv.storage.ledger hinv.storage.apart hinv.storage.valid

/-- **Resizing in place.** A live block no call works on gets another size of its class. -/
theorem Inv.retain (hinv : Inv k bases larges g) (hidle : k.pc t = .idle) {a n : Nat} (ha : a ∈ k.live)
    (hsized : ∀ m : Memory, Framed [a] k.state.memory m → m.size a = some n →
      Sized m bases larges n a) :
    ∃ m, k.state.memory.setRequestedSize a n = some m ∧ Framed [a] k.state.memory m ∧
      m.size = Function.update k.state.memory.size a (some n) ∧
      Inv (k.goto t { k.state with memory := m } .idle) bases larges g := by
  have hlive := hinv.live_eq
  have hmem : a ∈ g .live := hlive ▸ ha
  have hmine : g (.inflight t) = [] := hinv.carries_at hidle
  obtain ⟨q, hq⟩ := hinv.exists_next hmem
  obtain ⟨m, hset, hframe, hnext, hsize⟩ := exists_setRequestedSize hq n
  refine ⟨m, hset, hframe, hsize, ?_⟩
  have hfollows : (k.pc t).Follows .idle := by
    rw [hidle]
    exact ⟨rfl, fun _ h => h, Iff.rfl⟩
  have hstep : LocalStep k (k.goto t { k.state with memory := m } .idle) t [a] :=
    Config.goto_localStep rfl rfl rfl hframe ⟨_, _, _, _, rfl⟩ (fun _ _ => rfl) hfollows.teardown
  refine hinv.local hstep (fun q => q = .live ∨ q = .inflight t) hinv.placed (fun _ => Iff.rfl) ?_ ?_ ?_
    ?_ (by simp) ?_ ?_ ?_ ?_ ((hfollows.sameCall _).inRegistry hinv)
  · intro b hb
    rw [List.mem_singleton.mp hb]
    exact ⟨.live, Or.inl rfl, hmem⟩
  · intro p hp
    obtain ⟨hpl, hpt⟩ := not_or.mp hp
    refine ⟨rfl, hstep.sameHead hinv hpt (fun _ => rfl) (fun _ _ => rfl) fun e _ => ?_⟩
    exact ⟨hstep.cacheOf, fun d _ descriptor hmapped => ⟨descriptor, hmapped, rfl, rfl⟩⟩
  · rintro p (rfl | rfl)
    · refine ⟨hlive, fun b hb => ?_⟩
      by_cases hba : b = a
      · subst hba
        exact ⟨n, hsized m hframe (by simp [hsize])⟩
      · obtain ⟨n', hsized'⟩ := hinv.admits .live b hb
        exact ⟨n', (hframe.persists (by simpa using hba)).sized hsized'⟩
    · rw [hmine, Holds, Config.goto_pc]
      exact ⟨rfl, by simp⟩
  · intro e he
    rw [Config.goto_pc] at he
    exact he.elim
  · intro d hd
    rw [hstep.cacheOf] at hd
    obtain ⟨descriptor, hok⟩ := (hinv.thread t).descriptor d hd
    exact ⟨descriptor, hok.congr rfl rfl (by rw [Config.goto_pc, hidle])⟩
  · rw [Config.goto_pc]
    trivial
  · intro b hb
    rw [Config.goto_pc] at hb
    simp [Pc.argument] at hb
  · intro u _ b hb
    exact hinv.argument_live u b hb

end Hplf
