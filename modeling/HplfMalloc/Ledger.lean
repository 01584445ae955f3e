import HplfMalloc.Proof.LedgerSteps
import HplfMalloc.Schedule

/-!
# The mapping ledger

Between calls the regions obtained from `hplf_os_map` and not unmapped since are those of the registered
slabs, of the live large allocations, and of the large blocks whose unmap failed in `hplf_free`, each once.
Every call of `hplf_os_unmap` names one of them, with its base and length, and none is named again after it
was released.
-/

namespace Hplf

open Lib Memory

variable {Tid : Type}

/-- The mappings of the live large allocations. -/
def liveLargeMappings (k : Config Tid) : List Mapping :=
  k.live.filterMap fun a => (k.state.memory.block a).bind fun b =>
    if b.kind = .large then some b.mapping else none

/-- The unmaps of one step: each names a region mapped then, no region twice, and a region is gone after
the step exactly if its unmap succeeded. -/
def UnmapsMapped (w : World) (k k' : Config Tid) : Prop :=
  ∃ calls, k'.state.unmapCalls = k.state.unmapCalls ++ calls ∧ calls.Nodup ∧
    (∀ r ∈ calls, r ∈ k.state.mapped) ∧
    ∀ i r, calls[i]? = some r →
      (w.munmap (k.state.unmapCalls.length + i) = none ↔ r ∉ k'.state.mapped)

/-- A mapping is leaked exactly by a free of a live large block whose unmap fails. -/
def LeaksOnFailure (w : World) (k k' : Config Tid) : Prop :=
  k'.leaked = k.leaked ∨
    ∃ t a b, k.pc t = .release a ∧ a ∈ k.live ∧ k.state.memory.block a = some b ∧ b.kind = .large ∧
      k'.state.unmapCalls = k.state.unmapCalls ++ [b.mapping] ∧
      w.munmap k.state.unmapCalls.length ≠ none ∧ k'.leaked = b.mapping :: k.leaked

variable {k k' : Config Tid} {bases larges : List Nat} {g : Place Tid → List Nat} {v : Variant} {w : World}

/-- Between calls the large blocks are those clients hold. -/
theorem Inv.larges_perm (hinv : Inv k bases larges g) (hquiescent : k.Quiescent) :
    larges.Perm (k.live.filter fun a => decide (a ∈ larges)) := by
  apply (List.perm_ext_iff_of_nodup (hinv.storage.larges_nodup) (hinv.live_nodup.filter _)).mpr
  intro a
  rw [List.mem_filter, decide_eq_true_eq]
  refine ⟨fun ha => ⟨?_, ha⟩, fun ha => ha.2⟩
  obtain ⟨p, hp⟩ := (hinv.population a).mpr (Or.inr ha)
  have hnot := hinv.storage.large_not_inClass ha
  cases p with
  | live => rwa [hinv.live_eq] at hp
  | shared c => exact absurd (hinv.free_of_shared hp).1 (hnot c)
  | cache t c => exact absurd (hinv.free_of_cache hp).1 (hnot c)
  | inflight t =>
      have hcarries := hinv.mine (t := t)
      rw [hquiescent t] at hcarries
      rw [show g (.inflight t) = [] from hcarries] at hp
      cases hp

theorem Inv.liveLargeMappings_perm (hinv : Inv k bases larges g) (hquiescent : k.Quiescent) :
    (largeMappings k.state.memory larges).Perm (liveLargeMappings k) := by
  apply ((hinv.larges_perm hquiescent).filterMap _).trans
  rw [List.filterMap_filter]
  refine List.Perm.of_eq (List.filterMap_congr fun a ha => ?_)
  rcases hinv.live_cases ha with
    ⟨c, base, h, b, hbase, hh, hc, hslot, hb, hslotOf, -, -⟩ | ⟨b, hlarge, hb, hat, -, -⟩
  · have hnot : a ∉ larges := fun hmem =>
      hinv.storage.large_not_inClass hmem c ⟨base, hbase, h, hh, hc, hslot⟩
    simp [hnot, hb, hslotOf.kind]
  · simp [hlarge, hb, hat.kind]

/-! ### Steps -/

theorem UnmapsMapped.of_same (hcalls : k'.state.unmapCalls = k.state.unmapCalls) :
    UnmapsMapped w k k' :=
  ⟨[], by simp [hcalls], List.nodup_nil, by simp, by simp⟩

theorem Inv.mapped_nodup (hinv : Inv k bases larges g) : k.state.mapped.Nodup :=
  (nodup_of_apart hinv.storage.apart hinv.storage.valid).sublist (List.sublist_append_left _ _)

/-- The mapping of a large block a call is about to free. -/
theorem Inv.release_large (hinv : Inv k bases larges g) {t : Tid} {a : Nat} (hpc : k.pc t = .release a)
    {b : Block} (hb : k.state.memory.block a = some b) (hkind : b.kind = .large) :
    a ∈ k.live ∧ b.mapping ∈ k.state.mapped := by
  have ha : a ∈ k.live := hinv.argument_live t a (by rw [hpc]; rfl)
  refine ⟨ha, ?_⟩
  rcases hinv.live_cases ha with
    ⟨c, base, h, b', -, -, -, -, hb', hslotOf, -, -⟩ | ⟨b', hlarge, hb', hat, -, -⟩
  · obtain rfl := Option.some.inj (hb.symm.trans hb')
    rw [hslotOf.kind] at hkind
    cases hkind
  · obtain rfl := Option.some.inj (hb.symm.trans hb')
    have hmapping : b.mapping = ⟨a, sizeofBlock + b.capacity⟩ := by
      rw [Block.mapping, hat.owner]
      rfl
    rw [hmapping]
    exact hinv.storage.ledger.mem_iff.mpr (List.mem_append_left _
      (List.mem_append_right _ (mem_largeMappings hlarge hb hat)))

variable [DecidableEq Tid]

theorem Inv.advance_unmaps (hinv : Inv k bases larges g) {t : Tid}
    (hadvance : advance v w k t = some k') : UnmapsMapped w k k' ∧ LeaksOnFailure w k k' := by
  have hmove := advance_unmapMove hadvance fun a b hpc hb hkind =>
    hinv.storage.valid b.mapping (List.mem_append_left _ (hinv.release_large hpc hb hkind).2)
  cases hmove with
  | same hcalls hleaked => exact ⟨.of_same hcalls, Or.inl hleaked⟩
  | @large a b hpc hb hkind hcalls hanswer =>
      obtain ⟨ha, hmapped⟩ := hinv.release_large hpc hb hkind
      refine ⟨⟨[b.mapping], hcalls, List.nodup_singleton _, by simpa using hmapped, ?_⟩, ?_⟩
      · intro i r hr
        obtain ⟨rfl, rfl⟩ : i = 0 ∧ r = b.mapping := by
          cases i with
          | zero => exact ⟨rfl, (Option.some.inj hr).symm⟩
          | succ i => simp at hr
        rw [Nat.add_zero]
        rcases hanswer with ⟨hnone, hmapped', -⟩ | ⟨hsome, hmapped', -⟩
        · rw [hmapped']
          exact iff_of_true hnone hinv.mapped_nodup.not_mem_erase
        · rw [hmapped']
          exact iff_of_false hsome (not_not_intro hmapped)
      · rcases hanswer with ⟨-, -, hleaked⟩ | ⟨hsome, -, hleaked⟩
        · exact Or.inl hleaked
        · exact Or.inr ⟨t, a, b, hpc, ha, hb, hkind, hcalls, hsome, hleaked⟩

/-- The `i`-th slab tried is released exactly if the `i`-th unmap succeeds. -/
theorem mem_releasedSlabs_iff (w : World) {tried : List Nat} (hnodup : tried.Nodup) {i base : Nat}
    (hbase : tried[i]? = some base) (call : Nat) :
    base ∈ releasedSlabs w call tried ↔ w.munmap (call + i) = none := by
  induction tried generalizing i call with
  | nil => simp at hbase
  | cons first rest ih =>
      obtain ⟨hnot, hrest⟩ := List.nodup_cons.mp hnodup
      have hnotReleased : first ∉ releasedSlabs w (call + 1) rest := fun hmem =>
        hnot ((releasedSlabs_sublist w (call + 1) rest).subset hmem)
      cases i with
      | zero =>
          obtain rfl : first = base := Option.some.inj hbase
          rw [releasedSlabs, Nat.add_zero]
          split
          · rename_i hnone
            simp [hnone]
          · rename_i hsome
            simp [hsome, hnotReleased]
      | succ i =>
          have hbase' : rest[i]? = some base := by simpa using hbase
          have hne : base ≠ first := by
            rintro rfl
            exact hnot (List.mem_of_getElem? hbase')
          have hih := ih hrest hbase' (call + 1)
          rw [show call + 1 + i = call + (i + 1) by omega] at hih
          rw [releasedSlabs, ← hih]
          split
          · simp [hne]
          · rfl

omit [DecidableEq Tid] in
/-- Slabs that are all registered have one mapping each, in order. -/
theorem Storage.getElem_slabMappings {s : State Tid} {leaked : List Mapping}
    (hst : Storage s leaked bases larges) {tried : List Nat} (htried : ∀ base ∈ tried, base ∈ bases)
    {i : Nat} {r : Mapping} (hr : (slabMappings s.memory tried)[i]? = some r) :
    ∃ base h, tried[i]? = some base ∧ s.memory.slab base = some h ∧ r = h.mapping := by
  induction tried generalizing i with
  | nil => simp [slabMappings] at hr
  | cons base rest ih =>
      obtain ⟨h, hh, -⟩ := hst.slab base (htried base List.mem_cons_self)
      rw [slabMappings_cons hh] at hr
      cases i with
      | zero => exact ⟨base, h, rfl, hh, (Option.some.inj hr).symm⟩
      | succ i =>
          obtain ⟨base', h', hbase', hh', hr'⟩ :=
            ih (fun base hbase => htried base (List.mem_cons_of_mem _ hbase)) (by simpa using hr)
          exact ⟨base', h', by simpa using hbase', hh', hr'⟩

theorem mem_slabMappings_iff {m : Memory} {r : Mapping} :
    r ∈ slabMappings m bases ↔ ∃ base ∈ bases, ∃ h, m.slab base = some h ∧ h.mapping = r := by
  simp [slabMappings]

omit [DecidableEq Tid] in
/-- After a trim the mapping of a released slab is gone. -/
theorem Trims.not_mapped {bases' gone : List Nat} {g' : Place Tid → List Nat}
    (htrims : Trims k k' bases bases' larges g g' gone) (hinv : Inv k bases larges g) {base : Nat}
    {h : Slab} (hbase : base ∈ bases) (hgone : base ∈ gone) (hh : k.state.memory.slab base = some h) :
    h.mapping ∉ k'.state.mapped := by
  have hnodup : (slabMappings k.state.memory bases ++ largeMappings k.state.memory larges
      ++ k.leaked).Nodup := hinv.storage.ledger.nodup_iff.mp hinv.mapped_nodup
  obtain ⟨howned, -, hleaked⟩ := List.nodup_append'.mp hnodup
  have hlarge := (List.nodup_append'.mp howned).2.2
  have hold : h.mapping ∈ slabMappings k.state.memory bases := mem_slabMappings hbase hh
  have hsameLeaked : k'.leaked = k.leaked := by
    obtain ⟨_, _, _, _, _, _, rfl⟩ := htrims.rest
    rfl
  rw [htrims.inv.storage.ledger.mem_iff, hsameLeaked, List.mem_append, List.mem_append]
  rintro ((hslab | hlargeMem) | hleakedMem)
  · obtain ⟨base', hbase', h', hh', heq⟩ := mem_slabMappings_iff.mp hslab
    have hwf := hinv.storage.wellFormed hbase hh
    have hwf' := htrims.inv.storage.wellFormed hbase' hh'
    have hsame : base' = base := by
      rw [← hwf.mappingBase, ← hwf'.mappingBase]
      exact congrArg Mapping.base heq
    rw [htrims.kept, hsame, List.mem_filter, decide_eq_true_eq] at hbase'
    exact hbase'.2 hgone
  · apply hlarge hold
    obtain ⟨a, ha, hmap⟩ := List.mem_filterMap.mp hlargeMem
    obtain ⟨b', hb', hmapping⟩ := Option.map_eq_some_iff.mp hmap
    obtain ⟨b, next, hb, hsame⟩ := htrims.block a (Or.inr ha)
    obtain rfl := Option.some.inj (hsame.symm.trans hb')
    exact List.mem_filterMap.mpr ⟨a, ha, by rw [hb, Option.map_some, ← hmapping]; rfl⟩
  · exact hleaked (List.mem_append_left _ hold) hleakedMem

theorem Inv.trim_unmaps (hinv : Inv k bases larges g) {t : Tid} {s : State Tid} {released : Nat}
    (hidle : k.pc t = .idle) (htrim : Hplf.trimQuiescent v w k.state t = some (s, released)) :
    UnmapsMapped w k { k with state := s } := by
  obtain ⟨k', bases', g', htrim', htrims, hcalls⟩ := hinv.trimQuiescent hidle v w
  obtain ⟨rfl, -⟩ := Prod.mk.inj (Option.some.inj (htrim'.symm.trans htrim))
  set tried := bases.filter (allFree k.state.memory (sharedLists g)) with htried
  have hsub : ∀ base ∈ tried, base ∈ bases := fun base hbase => (List.mem_filter.mp hbase).1
  have hnodup : tried.Nodup := hinv.storage.registry.nodup.filter _
  refine ⟨slabMappings k.state.memory tried, hcalls, ?_, fun r hr => ?_, fun i r hr => ?_⟩
  · have hsublist : (slabMappings k.state.memory tried).Sublist (slabMappings k.state.memory bases) :=
      List.filter_sublist.filterMap _
    have howned := hinv.storage.ledger.nodup_iff.mp hinv.mapped_nodup
    rw [List.append_assoc] at howned
    exact (List.nodup_append'.mp howned).1.sublist hsublist
  · obtain ⟨base, hbase, h, hh, rfl⟩ := mem_slabMappings_iff.mp hr
    exact hinv.storage.ledger.mem_iff.mpr
      (List.mem_append_left _ (List.mem_append_left _ (mem_slabMappings (hsub base hbase) hh)))
  · obtain ⟨base, h, hbase, hh, rfl⟩ := hinv.storage.getElem_slabMappings hsub hr
    have hmem := hsub base (List.mem_of_getElem? hbase)
    rw [← mem_releasedSlabs_iff w hnodup hbase]
    constructor
    · intro hgone
      exact htrims.not_mapped hinv hmem hgone hh
    · intro hnot
      by_contra hkept
      have hmem' : base ∈ bases' := by
        rw [htrims.kept]
        exact List.mem_filter.mpr ⟨hmem, decide_eq_true hkept⟩
      obtain ⟨h', next, hh', hsame⟩ := htrims.header base hmem'
      obtain rfl := Option.some.inj (hh.symm.trans hh')
      have hstill : (h.withNext next).mapping ∈ slabMappings k'.state.memory bases' :=
        mem_slabMappings hmem' hsame
      exact hnot (htrims.inv.storage.ledger.mem_iff.mpr
        (List.mem_append_left _ (List.mem_append_left _ hstill)))

theorem Inv.step_unmaps (hinv : Inv k bases larges g) {e : Option (Tid × Option Call)}
    (hstep : Step v w k e k') : UnmapsMapped w k k' ∧ LeaksOnFailure w k k' := by
  cases hstep with
  | @call t call s pc hidle hallowed henter =>
      refine ⟨.of_same ?_, Or.inl rfl⟩
      by_cases hcall : call = .threadExit
      · subst hcall
        simp only [Hplf.enter] at henter
        split at henter <;> (obtain ⟨rfl, -⟩ := Prod.mk.inj (Option.some.inj henter); rfl)
      · exact (enter_work hcall henter).unmapCalls
  | advance hadvance => exact hinv.advance_unmaps hadvance
  | write => exact ⟨.of_same rfl, Or.inl rfl⟩
  | trim hquiescent htrim => exact ⟨hinv.trim_unmaps (hquiescent _) htrim, Or.inl rfl⟩

/-- **The mapping ledger.** In either variant and whatever the system answers: in every reachable
configuration between calls, the regions mapped and not unmapped since are, each once, those recorded by
the registered slabs, those of the live large allocations, and those of the large blocks whose unmap failed
inside `hplf_free`. Every step of every run calls `hplf_os_unmap` only with regions mapped at that moment,
with none twice, and a region stays mapped exactly if its unmap failed. -/
theorem mapping_ledger (v : Variant) (w : World) (k : Config Tid)
    (hreach : (machine Tid v w).Reachable k) :
    (k.Quiescent → ∃ bases, Chain k.state.memory.slabNext k.state.slabs bases ∧
      k.state.mapped.Nodup ∧
      k.state.mapped.Perm
        (slabMappings k.state.memory bases ++ liveLargeMappings k ++ k.leaked)) ∧
      ∀ e k', Step v w k e k' → UnmapsMapped w k k' ∧ LeaksOnFailure w k k' := by
  obtain ⟨bases, larges, g, hinv⟩ := safe_of_reachable hreach
  refine ⟨fun hquiescent => ⟨bases, hinv.storage.registry, hinv.mapped_nodup, ?_⟩,
    fun e k' hstep => hinv.step_unmaps hstep⟩
  refine hinv.storage.ledger.trans (List.Perm.append_right _ (List.Perm.append_left _ ?_))
  exact hinv.liveLargeMappings_perm hquiescent

/-- The first unmap fails. -/
def firstUnmapFails : World := bumpWorld fun n => if n = 0 then some .EINVAL else none

/-- Thread 0 has called `hplf_free` on the first of its two large blocks; thread 1 has a block of a slab. -/
def freeingLargeMoves : List (Move (Fin 2)) :=
  callMoves 0 (.malloc 10000) 2 ++ callMoves 1 (.malloc 4096) 9 ++ callMoves 0 (.malloc 20000) 2 ++
    [.call 0 (.free (some 4144))]

/-- The last step tries to unmap the large block in vain, and nobody is in a call after it. -/
def showsLeak (k k' : Config (Fin 2)) : Bool :=
  decide (∀ t, k'.pc t = .idle) && k'.state.unmapCalls.length == k.state.unmapCalls.length + 1 &&
    k'.leaked.length == 1 && (liveLargeMappings k').length == 1 && k'.state.mapped.length == 3

theorem mapping_ledger_leaked : ∃ k k' : Config (Fin 2), (machine (Fin 2) .cached firstUnmapFails).Reachable k ∧
    Step .cached firstUnmapFails k none k' ∧ k'.state.unmapCalls.length = k.state.unmapCalls.length + 1 ∧
      UnmapsMapped firstUnmapFails k k' ∧ LeaksOnFailure firstUnmapFails k k' ∧ k'.leaked.length = 1 ∧
      (liveLargeMappings k').length = 1 ∧ k'.state.mapped.length = 3 ∧
      ∃ bases, Chain k'.state.memory.slabNext k'.state.slabs bases ∧ k'.state.mapped.Nodup ∧
        k'.state.mapped.Perm (slabMappings k'.state.memory bases ++ liveLargeMappings k' ++ k'.leaked) := by
  obtain ⟨k, hreach, hcheck⟩ := exists_makeMoves .cached firstUnmapFails freeingLargeMoves
    (fun k => (advance .cached firstUnmapFails k 0).any (showsLeak k)) (by decide +kernel)
  obtain ⟨k', hadvance, hshows⟩ := (Option.any_eq_true _ _).mp hcheck
  simp only [showsLeak, Bool.and_eq_true, decide_eq_true_eq, beq_iff_eq] at hshows
  obtain ⟨⟨⟨⟨hidle, hcalls⟩, hleaked⟩, hlarge⟩, hmapped⟩ := hshows
  have hstep : Step .cached firstUnmapFails k none k' := .advance hadvance
  obtain ⟨hunmaps, hleaks⟩ := (mapping_ledger _ _ k hreach).2 none k' hstep
  exact ⟨k, k', hreach, hstep, hcalls, hunmaps, hleaks, hleaked, hlarge, hmapped,
    (mapping_ledger _ _ k' (hreach.step hstep)).1 hidle⟩

end Hplf
