import HplfMalloc.Proof.TrimLemmas
import HplfMalloc.Proof.Advance

/-!
# One slab of a trim

The registry loop of `hplf_trim_quiescent` keeps a slab, releases it, or fails to unmap it and restores
both structures. The loop works on a copy of the list heads; the configuration the lemmas speak about is
the one in which that copy is the shared one.
-/

namespace Hplf

open Lib Memory

variable {Tid : Type}
variable {k : Config Tid} {t : Tid} {bases larges : List Nat} {g : Place Tid → List Nat}
variable {s : State Tid} {leaked : List Mapping}

/-- The owner recorded in the prefix of a slot is the slab it is a slot of. -/
theorem Storage.ownedBy_iff (hst : Storage s leaked bases larges) {base : Nat} (hbase : base ∈ bases)
    {h : Slab} (hh : s.memory.slab base = some h) {c : ClassIndex} {a : Nat}
    (hclass : InClass s.memory bases c a) : ownedBy s.memory base a = true ↔ a ∈ h.slots base := by
  obtain ⟨base', hbase', h', hh', -, hslot'⟩ := hclass
  obtain ⟨b, hb, hslotOf⟩ := hst.slot base' hbase' h' hh' a hslot'
  rw [ownedBy_of_block hb, hslotOf.owner, decide_eq_true_eq]
  constructor
  · rintro (rfl : base' = base)
    obtain rfl := Option.some.inj (hh.symm.trans hh')
    exact hslot'
  · intro hslot
    obtain ⟨b', hb', hslotOf'⟩ := hst.slot base hbase h hh a hslot
    obtain rfl := Option.some.inj (hb.symm.trans hb')
    have howner := hslotOf.owner.symm.trans hslotOf'.owner
    exact Owner.small.inj howner

variable [DecidableEq Tid]

/-- All slots of the slab at `base` are on the list of its class. -/
def allFree (m : Memory) (lists : ClassIndex → List Nat) (base : Nat) : Bool :=
  match m.slab base with
  | none => false
  | some h => (h.slots base).all fun a => decide (a ∈ lists h.classIndex)

theorem allFree_iff {m : Memory} {lists : ClassIndex → List Nat} {base : Nat} {h : Slab}
    (hh : m.slab base = some h) :
    allFree m lists base = true ↔ ∀ a ∈ h.slots base, a ∈ lists h.classIndex := by
  simp [allFree, hh]

/-- The lists of the shared places. -/
def sharedLists (g : Place Tid → List Nat) (c : ClassIndex) : List Nat := g (.shared c)

omit [DecidableEq Tid] in
/-- **The count decides.** The count of a slab's blocks on the list of its class is the slot count exactly
if all its slots are there. -/
theorem Inv.count_eq_iff (hinv : Inv k bases larges g) {base : Nat} (hbase : base ∈ bases) {h : Slab}
    (hh : k.state.memory.slab base = some h) :
    ((g (.shared h.classIndex)).filter (ownedBy k.state.memory base)).length = h.slotCount ↔
      allFree k.state.memory (sharedLists g) base = true := by
  have hwf := hinv.storage.wellFormed hbase hh
  have howned : ∀ a ∈ g (.shared h.classIndex),
      ownedBy k.state.memory base a = true ↔ a ∈ h.slots base := fun a ha =>
    hinv.storage.ownedBy_iff hbase hh (hinv.free_of_shared ha).1
  have hnodup := (hinv.placed.nodup (.shared h.classIndex)).filter (ownedBy k.state.memory base)
  have hsub : ((g (.shared h.classIndex)).filter (ownedBy k.state.memory base)).Subperm
      (h.slots base) := by
    apply List.subperm_of_subset hnodup
    intro a ha
    obtain ⟨hmem, htrue⟩ := List.mem_filter.mp ha
    exact (howned a hmem).mp htrue
  rw [allFree_iff hh]
  constructor
  · intro hlength a ha
    have hperm := hsub.perm_of_length_le (by rw [hlength, Slab.slots_length])
    exact (List.mem_filter.mp (hperm.mem_iff.mpr ha)).1
  · intro hall
    have hperm : ((g (.shared h.classIndex)).filter (ownedBy k.state.memory base)).Perm
        (h.slots base) := by
      apply (List.perm_ext_iff_of_nodup hnodup hwf.slots_nodup).mpr
      intro a
      rw [List.mem_filter]
      exact ⟨fun ha => (howned a ha.1).mp ha.2, fun ha => ⟨hall a ha, (howned a (hall a ha)).mpr ha⟩⟩
    rw [hperm.length_eq, Slab.slots_length]

theorem SameSlabs.exists_header {m m' : Memory} (hsame : SameSlabs m m') {base : Nat} {h : Slab}
    (hh : m.slab base = some h) : ∃ next, m'.slab base = some (h.withNext next) := by
  obtain ⟨next, heq⟩ := hsame.slab base
  exact ⟨next, by rw [heq, hh]; rfl⟩

theorem SameSlabs.of_header {m m' : Memory} (hsame : SameSlabs m m') {base : Nat} {h' : Slab}
    (hh' : m'.slab base = some h') : ∃ h next, m.slab base = some h ∧ h' = h.withNext next := by
  obtain ⟨next, heq⟩ := hsame.slab base
  rw [hh', eq_comm, Option.map_eq_some_iff] at heq
  obtain ⟨h, hh, rfl⟩ := heq
  exact ⟨h, next, hh, rfl⟩

theorem SameSlabs.slabMappings_eq {m m' : Memory} (hsame : SameSlabs m m') (bases : List Nat) :
    slabMappings m' bases = slabMappings m bases := by
  unfold slabMappings
  apply List.filterMap_congr
  intro base _
  obtain ⟨next, heq⟩ := hsame.slab base
  rw [heq, Option.map_map]
  rfl

omit [DecidableEq Tid] in
/-- A slot belongs to one registered slab. -/
theorem Storage.slot_unique (hst : Storage s leaked bases larges) {base base' a : Nat} {h h' : Slab}
    (hbase : base ∈ bases) (hbase' : base' ∈ bases) (hh : s.memory.slab base = some h)
    (hh' : s.memory.slab base' = some h') (ha : a ∈ h.slots base) (ha' : a ∈ h'.slots base') :
    base = base' := by
  obtain ⟨b, hb, hslotOf⟩ := hst.slot base hbase h hh a ha
  obtain ⟨b', hb', hslotOf'⟩ := hst.slot base' hbase' h' hh' a ha'
  obtain rfl := Option.some.inj (hb.symm.trans hb')
  exact Owner.small.inj (hslotOf.owner.symm.trans hslotOf'.owner)

section Unlink

variable {done rest : List Nat} {base : Nat} {h : Slab} {m m₁ : Memory}

omit [DecidableEq Tid] in
/-- After a registered slab has been unlinked, the other slots are those that were not its own. -/
theorem Storage.inClass_unlinked (hst : Storage s leaked (done ++ base :: rest) larges)
    (hh : s.memory.slab base = some h) (hslab : m₁.slab = s.memory.slab) (hsame : SameSlabs m₁ m)
    (c : ClassIndex) (a : Nat) :
    InClass m (done ++ rest) c a ↔
      InClass s.memory (done ++ base :: rest) c a ∧ a ∉ h.slots base := by
  have hbase : base ∈ done ++ base :: rest := by simp
  have hnotMem : base ∉ done ++ rest := by
    have hnodup := List.nodup_middle.mp hst.registry.nodup
    exact (List.nodup_cons.mp hnodup).1
  constructor
  · rintro ⟨base', hbase', h', hh', hclass, hslot⟩
    obtain ⟨h₁, next, hh₁, rfl⟩ := hsame.of_header hh'
    rw [hslab] at hh₁
    have hmem : base' ∈ done ++ base :: rest := by
      rw [List.mem_append] at hbase' ⊢
      exact hbase'.imp_right (List.mem_cons_of_mem base)
    refine ⟨⟨base', hmem, h₁, hh₁, hclass, hslot⟩, fun hown => hnotMem ?_⟩
    rw [hst.slot_unique hbase hmem hh hh₁ hown hslot]
    exact hbase'
  · rintro ⟨⟨base', hmem, h', hh', hclass, hslot⟩, hnot⟩
    have hne : base' ≠ base := by
      rintro rfl
      obtain rfl := Option.some.inj (hh.symm.trans hh')
      exact hnot hslot
    obtain ⟨next, hnext⟩ := hsame.exists_header (hslab ▸ hh')
    refine ⟨base', ?_, h'.withNext next, hnext, hclass, hslot⟩
    simp only [List.mem_append, List.mem_cons] at hmem ⊢
    tauto

omit [DecidableEq Tid] in
theorem Storage.unlink {nodes : List Nat} {slabs : Ptr} {heads : ClassIndex → Ptr}
    (hst : Storage s leaked (done ++ base :: rest) larges) (hh : s.memory.slab base = some h)
    (hframe : Framed nodes s.memory m₁) (hsame : SameSlabs m₁ m)
    (hregistry : Chain m.slabNext slabs (done ++ rest)) :
    Storage { s with memory := m, slabs := slabs, sharedHeads := heads } (h.mapping :: leaked)
      (done ++ rest) larges := by
  have hmem : ∀ {base'}, base' ∈ done ++ rest → base' ∈ done ++ base :: rest := by
    intro base' hbase'
    rw [List.mem_append] at hbase' ⊢
    exact hbase'.imp_right (List.mem_cons_of_mem base)
  refine ⟨hregistry, fun base' hbase' => ?_, fun base' hbase' h' hh' a ha => ?_, fun a ha => ?_, ?_,
    hst.apart, hst.valid⟩
  · obtain ⟨h', hh', hwf⟩ := hst.slab base' (hmem hbase')
    obtain ⟨next, hnext⟩ := hsame.exists_header (hframe.slab ▸ hh')
    exact ⟨h'.withNext next, hnext, hwf.withNext next⟩
  · obtain ⟨h₁, next, hh₁, rfl⟩ := hsame.of_header hh'
    rw [hframe.slab] at hh₁
    obtain ⟨b, hb, hslotOf⟩ := hst.slot base' (hmem hbase') h₁ hh₁ a ha
    obtain ⟨b', hb', howner, hcapacity, hkind⟩ := hframe.exists_block hb
    refine ⟨b', by rw [← hb', hsame.block], ?_, ?_, ?_⟩
    · rw [hkind, hslotOf.kind]
    · rw [howner, hslotOf.owner]
    · rw [hcapacity, hslotOf.capacity]
      rfl
  · obtain ⟨b, hb, hat⟩ := hst.large a ha
    obtain ⟨b', hb', howner, hcapacity, hkind⟩ := hframe.exists_block hb
    refine ⟨b', by rw [← hb', hsame.block], ?_, ?_⟩
    · rw [hkind, hat.kind]
    · rw [howner, hcapacity, hat.owner]
  · have hslabs : slabMappings m (done ++ rest) = slabMappings s.memory (done ++ rest) := by
      rw [hsame.slabMappings_eq, slabMappings_congr hframe.slab]
    have hlarges : largeMappings m larges = largeMappings s.memory larges := by
      apply largeMappings_congr
      intro a _
      rw [hsame.block, hframe.mapping]
    have hold : (slabMappings s.memory (done ++ base :: rest)).Perm
        (h.mapping :: slabMappings s.memory (done ++ rest)) := by
      have hperm := (show (done ++ base :: rest).Perm (base :: (done ++ rest)) from List.perm_middle).filterMap
        fun base => (s.memory.slab base).map Slab.mapping
      rwa [List.filterMap_cons_some (b := h.mapping) (by rw [hh, Option.map_some])] at hperm
    change s.mapped.Perm _
    rw [hslabs, hlarges]
    calc List.Perm s.mapped (slabMappings s.memory (done ++ base :: rest)
            ++ largeMappings s.memory larges ++ leaked) := hst.ledger
      List.Perm _ (h.mapping :: slabMappings s.memory (done ++ rest)
            ++ largeMappings s.memory larges ++ leaked) := (hold.append_right _).append_right _
      List.Perm _ (slabMappings s.memory (done ++ rest) ++ largeMappings s.memory larges
            ++ h.mapping :: leaked) := List.perm_middle.symm

/-- **Unlinking a slab.** A slab all of whose slots are on the shared list leaves the registry and the
list; its region is then nobody's. -/
theorem Inv.unlinkSlab {slabs head : Ptr} {ys : List Nat}
    (hinv : Inv k (done ++ base :: rest) larges g) (hh : k.state.memory.slab base = some h)
    (hall : allFree k.state.memory (sharedLists g) base = true)
    (hframe : Framed (g (.shared h.classIndex)) k.state.memory m₁)
    (hsize : m₁.size = k.state.memory.size) (hsame : SameSlabs m₁ m)
    (hregistry : Chain m.slabNext slabs (done ++ rest)) (hchain : Chain m.next head ys)
    (hperm : ys.Perm ((g (.shared h.classIndex)).filter
      fun a => !ownedBy k.state.memory base a)) (t : Tid) :
    Inv { k with
        state := { k.state with
          memory := m
          slabs := slabs
          sharedHeads := Function.update k.state.sharedHeads h.classIndex head }
        leaked := h.mapping :: k.leaked } (done ++ rest) larges
      (Function.update g (.shared h.classIndex) ys) := by
  have hbase : base ∈ done ++ base :: rest := by simp
  have hown : ∀ a ∈ h.slots base, a ∈ g (.shared h.classIndex) := (allFree_iff hh).mp hall
  have hys : ∀ a, a ∈ ys ↔ a ∈ g (.shared h.classIndex) ∧ a ∉ h.slots base := by
    intro a
    rw [hperm.mem_iff, List.mem_filter]
    apply and_congr_right
    intro ha
    rw [← hinv.storage.ownedBy_iff hbase hh (hinv.free_of_shared ha).1, Bool.not_eq_true',
      Bool.not_eq_true]
  have hclass := hinv.storage.inClass_unlinked hh hframe.slab hsame
  have hother : ∀ {p a}, p ≠ .shared h.classIndex → a ∈ g p → a ∉ g (.shared h.classIndex) :=
    fun hp ha hmem => hp (hinv.placed.disjoint ha hmem)
  have hpersists : ∀ p, p ≠ .shared h.classIndex → ∀ a ∈ g p,
      Persists k.state.memory m (done ++ base :: rest) larges (done ++ rest) larges a := by
    intro p hp a ha
    refine ⟨fun c hc => (hclass c a).mpr ⟨hc, fun hslot => hother hp ha (hown a hslot)⟩, id, ?_⟩
    rw [hsame.block, hframe.block a (hother hp ha)]
  have hstep : ThreadStep k { k with
        state := { k.state with
          memory := m
          slabs := slabs
          sharedHeads := Function.update k.state.sharedHeads h.classIndex head }
        leaked := h.mapping :: k.leaked } t :=
    ⟨rfl, rfl, rfl, rfl, fun _ _ => rfl, fun _ _ => rfl, rfl⟩
  refine hinv.transfer hstep (fun p => p = .shared h.classIndex)
    (hinv.storage.unlink hh hframe hsame hregistry) ?_ ?_ ?_ ?_ ?_ (by simp) ?_ ?_ ?_ ?_ ?_
  · apply hinv.placed.shrink
    intro p
    by_cases hp : p = .shared h.classIndex
    · rw [hp, Function.update_self]
      exact hperm.subperm.trans List.filter_sublist.subperm
    · rw [Function.update_of_ne hp]
  · intro a
    constructor
    · rintro ⟨p, ha⟩
      by_cases hp : p = .shared h.classIndex
      · rw [hp, Function.update_self, hys] at ha
        exact Or.inl ⟨_, (hclass _ a).mpr ⟨(hinv.free_of_shared ha.1).1, ha.2⟩⟩
      · rw [Function.update_of_ne hp] at ha
        refine (hinv.populated ha).imp_left fun ⟨c, hc⟩ => ⟨c, ?_⟩
        exact (hpersists p hp a ha).inClass c hc
    · intro hpop
      have hold : Populated k.state.memory (done ++ base :: rest) larges a :=
        hpop.imp_left fun ⟨c, hc⟩ => ⟨c, ((hclass c a).mp hc).1⟩
      have hnot : a ∉ h.slots base := by
        rcases hpop with ⟨c, hc⟩ | hlarge
        · exact ((hclass c a).mp hc).2
        · intro hslot
          exact hinv.storage.large_not_inClass hlarge _ ⟨base, hbase, h, hh, rfl, hslot⟩
      obtain ⟨p, ha⟩ := (hinv.population a).mpr hold
      refine ⟨p, ?_⟩
      by_cases hp : p = .shared h.classIndex
      · subst hp
        rw [Function.update_self]
        exact (hys a).mpr ⟨ha, hnot⟩
      · rwa [Function.update_of_ne hp]
  · intro p hp
    refine ⟨Function.update_of_ne hp _ _, ?_, hpersists p hp⟩
    cases p with
    | shared c =>
        have hne : c ≠ h.classIndex := fun heq => hp (by rw [heq])
        exact Function.update_of_ne hne _ _
    | cache u c => exact ⟨rfl, fun d _ descriptor hmapped => ⟨descriptor, hmapped, rfl, rfl⟩⟩
    | _ => rfl
  · rintro p rfl
    rw [Function.update_self]
    refine ⟨?_, fun a ha => ?_⟩
    · change Chain m.next (Function.update k.state.sharedHeads h.classIndex head h.classIndex) ys
      rwa [Function.update_self]
    · obtain ⟨hmem, hnot⟩ := (hys a).mp ha
      obtain ⟨hc, hzero⟩ := hinv.free_of_shared hmem
      refine ⟨(hclass _ a).mpr ⟨hc, hnot⟩, ?_⟩
      have hblock : m.size = m₁.size := by
        funext x
        simp only [Memory.size, hsame.block]
      change m.size a = some 0
      rw [hblock, hsize, hzero]
  · intro c hc
    rw [Function.update_of_ne (by simp)]
    exact hinv.emptied t c hc
  · intro d hd
    obtain ⟨descriptor, hok⟩ := (hinv.thread t).descriptor d hd
    exact ⟨descriptor, hok.congr rfl rfl rfl⟩
  · exact (hinv.thread t).fits.congr rfl rfl
  · intro a ha
    exact hinv.argument_own ha
  · exact fun u _ a ha => hinv.argument_live u a ha
  · exact hinv.registry

end Unlink

/-! ### What a trim changes -/

/-- The lists without the blocks of the slabs `gone`. -/
def without (m : Memory) (gone : List Nat) (xs : List Nat) : List Nat :=
  xs.filter fun a => !gone.any fun base => ownedBy m base a

@[simp]
theorem without_nil (m : Memory) (xs : List Nat) : without m [] xs = xs := by
  simp [without]

/-- From `k` to `k'` the slabs `gone` have been released: the registry keeps its order, the shared lists
lose the blocks of these slabs and may be reordered, and apart from the registry links and the links of
free blocks on the shared lists everything that remains is as it was. -/
structure Trims (k k' : Config Tid) (bases bases' larges : List Nat) (g g' : Place Tid → List Nat)
    (gone : List Nat) : Prop where
  inv : Inv k' bases' larges g'
  kept : bases' = bases.filter fun base => decide (base ∉ gone)
  shared : ∀ c, (g' (.shared c)).Perm (without k.state.memory gone (g (.shared c)))
  elsewhere : ∀ p, (∀ c, p ≠ .shared c) → g' p = g p
  header : ∀ base ∈ bases', ∃ h next, k.state.memory.slab base = some h ∧
    k'.state.memory.slab base = some (h.withNext next)
  block : ∀ a, Populated k'.state.memory bases' larges a → ∃ b next, k.state.memory.block a = some b ∧
    k'.state.memory.block a = some { b with nextFree := next }
  same : ∀ p, (∀ c, p ≠ .shared c) → ∀ a ∈ g p, k'.state.memory.block a = k.state.memory.block a
  live : KeepsLive k k'.state.memory
  rest : ∃ memory mapped slabs sharedHeads errno unmapCalls, k' = { k with state := { k.state with
    memory := memory
    mapped := mapped
    slabs := slabs
    sharedHeads := sharedHeads
    errno := errno
    unmapCalls := unmapCalls } }

omit [DecidableEq Tid] in
theorem Trims.refl (hinv : Inv k bases larges g) : Trims k k bases bases larges g g [] where
  inv := hinv
  kept := by simp
  shared c := by simp
  elsewhere _ _ := rfl
  header base hbase := by
    obtain ⟨h, hh, -⟩ := hinv.storage.slab base hbase
    exact ⟨h, h.next, hh, hh⟩
  block a ha := by
    obtain ⟨b, -, hb, -⟩ := hinv.storage.extent ha
    exact ⟨b, b.nextFree, hb, hb⟩
  same _ _ _ _ := rfl
  live := KeepsLive.of_eq rfl
  rest := ⟨_, _, _, _, _, _, rfl⟩

omit [DecidableEq Tid] in
/-- The blocks that remain are owned as they were. -/
theorem Trims.ownedBy_eq {k' : Config Tid} {bases' gone : List Nat} {g' : Place Tid → List Nat}
    (htrims : Trims k k' bases bases' larges g g' gone) {c : ClassIndex} {a : Nat}
    (ha : a ∈ g' (.shared c)) (base : Nat) :
    ownedBy k'.state.memory base a = ownedBy k.state.memory base a := by
  obtain ⟨b, next, hb, hb'⟩ := htrims.block a (htrims.inv.populated ha)
  rw [ownedBy_of_block hb, ownedBy_of_block hb']

theorem Trims.trans {k₁ k₂ : Config Tid} {bases₁ bases₂ gone₁ gone₂ : List Nat}
    {g₁ g₂ : Place Tid → List Nat} (h₁ : Trims k k₁ bases bases₁ larges g g₁ gone₁)
    (h₂ : Trims k₁ k₂ bases₁ bases₂ larges g₁ g₂ gone₂) :
    Trims k k₂ bases bases₂ larges g g₂ (gone₁ ++ gone₂) where
  inv := h₂.inv
  kept := by
    rw [h₂.kept, h₁.kept, List.filter_filter]
    apply List.filter_congr
    intro base _
    simp [Bool.and_comm]
  shared c := by
    have hmiddle : without k₁.state.memory gone₂ (g₁ (.shared c))
        = without k.state.memory gone₂ (g₁ (.shared c)) := by
      apply List.filter_congr
      intro a ha
      simp only [h₁.ownedBy_eq ha]
    have hboth : without k.state.memory gone₂ (without k.state.memory gone₁ (g (.shared c)))
        = without k.state.memory (gone₁ ++ gone₂) (g (.shared c)) := by
      rw [without, without, List.filter_filter, without]
      apply List.filter_congr
      intro a _
      rw [List.any_append, Bool.not_or, Bool.and_comm]
    apply (h₂.shared c).trans
    rw [hmiddle, ← hboth]
    exact (h₁.shared c).filter _
  elsewhere p hp := (h₂.elsewhere p hp).trans (h₁.elsewhere p hp)
  header base hbase := by
    obtain ⟨h, next, hh, hh'⟩ := h₂.header base hbase
    have hbase₁ : base ∈ bases₁ := by
      rw [h₂.kept] at hbase
      exact (List.mem_filter.mp hbase).1
    obtain ⟨h₀, next₀, hh₀, hh₀'⟩ := h₁.header base hbase₁
    obtain rfl := Option.some.inj (hh.symm.trans hh₀')
    exact ⟨h₀, next, hh₀, hh'⟩
  block a ha := by
    obtain ⟨b, next, hb, hb'⟩ := h₂.block a ha
    have hpop : Populated k₁.state.memory bases₁ larges a := by
      obtain ⟨p, hp⟩ := (h₂.inv.population a).mpr ha
      by_cases hshared : ∃ c, p = .shared c
      · obtain ⟨c, rfl⟩ := hshared
        exact h₁.inv.populated (List.mem_of_mem_filter ((h₂.shared c).mem_iff.mp hp))
      · rw [h₂.elsewhere p fun c hc => hshared ⟨c, hc⟩] at hp
        exact h₁.inv.populated hp
    obtain ⟨b₀, next₀, hb₀, hb₀'⟩ := h₁.block a hpop
    obtain rfl := Option.some.inj (hb.symm.trans hb₀')
    exact ⟨b₀, next, hb₀, hb'⟩
  same p hp a ha := by
    have ha₁ : a ∈ g₁ p := by rwa [h₁.elsewhere p hp]
    exact (h₂.same p hp a ha₁).trans (h₁.same p hp a ha)
  live := by
    refine h₁.live.trans ?_ h₂.live
    obtain ⟨_, _, _, _, _, _, rfl⟩ := h₁.rest
    rfl
  rest := by
    obtain ⟨_, _, _, _, _, _, rfl⟩ := h₁.rest
    obtain ⟨_, _, _, _, _, _, rfl⟩ := h₂.rest
    exact ⟨_, _, _, _, _, _, rfl⟩

end Hplf
