import HplfMalloc.Proof.CacheLists
import HplfMalloc.Proof.TrimSteps
import HplfMalloc.Proof.WholeCalls
import HplfMalloc.SingleThread

/-!
# Counting blocks

One call of a single-threaded program changes the tally of its blocks in a way that does not depend on the
build: every slot of a class is free or live, an allocation finds a free one if there is one, and what is
asked of the system otherwise depends on its earlier answers only.
-/

namespace Hplf

open Lib Memory

variable {Tid : Type}

/-! ### What is asked of the system -/

def State.asked (s : State Tid) : Asked := ⟨s.pageQueries, s.mapOutcomes.length⟩

/-- The answers `A` are those of the system, as far as it was asked before `s`. -/
structure Agrees (A : Answers) (w : World) (s : State Tid) : Prop where
  pageSize : ∀ n, w.sysconf n = A.pageSize n
  maps : ∀ i answer, s.mapOutcomes[i]? = some answer → answer = A.maps i

variable {A : Answers} {w : World} {s s' : State Tid} {t : Tid} {c : ClassIndex}

theorem Agrees.of_prefix (hagrees : Agrees A w s') (hextends : s.mapOutcomes <+: s'.mapOutcomes) :
    Agrees A w s := by
  refine ⟨hagrees.pageSize, fun i answer hanswer => hagrees.maps i answer ?_⟩
  have hlt : i < s.mapOutcomes.length := (List.getElem?_eq_some_iff.mp hanswer).1
  obtain ⟨rest, heq⟩ := hextends
  rw [← heq, List.getElem?_append_left hlt]
  exact hanswer

variable [DecidableEq Tid]

theorem osPageSize_asked (hpage : ∀ n, w.sysconf n = A.pageSize n) {r : Option Nat}
    (hquery : osPageSize w s t = (s', r)) :
    r = A.page s.asked.queries ∧ s'.asked = ⟨s.asked.queries + 1, s.asked.maps⟩ ∧
      s'.mapOutcomes = s.mapOutcomes := by
  unfold osPageSize at hquery
  simp only [hpage] at hquery
  unfold Answers.page
  split at hquery
  · rename_i hbad
    obtain ⟨rfl, rfl⟩ := Prod.mk.inj hquery
    exact ⟨(if_pos hbad).symm, rfl, rfl⟩
  · rename_i hgood
    obtain ⟨rfl, rfl⟩ := Prod.mk.inj hquery
    exact ⟨(if_neg hgood).symm, rfl, rfl⟩

theorem osPageSize_outcomes {r : Option Nat} (hquery : osPageSize w s t = (s', r)) :
    s'.mapOutcomes = s.mapOutcomes := by
  unfold osPageSize at hquery
  simp only at hquery
  split at hquery
  · rw [← (Prod.mk.inj hquery).1]
    rfl
  · rw [← (Prod.mk.inj hquery).1]

/-- A mapping appends at most its own outcome. -/
theorem osMap_outcomes {n : Nat} {r : Option Mapping} (hmap : osMap w s t n = (s', r)) :
    s.mapOutcomes <+: s'.mapOutcomes := by
  unfold osMap at hmap
  split at hmap
  · rw [← (Prod.mk.inj hmap).1]
    exact List.prefix_rfl
  split at hmap
  · rename_i s₁ hquery
    rw [← (Prod.mk.inj hmap).1, osPageSize_outcomes hquery]
  rename_i s₁ pageSize hquery
  rw [← osPageSize_outcomes hquery]
  split at hmap
  · rw [← (Prod.mk.inj hmap).1]
    exact List.prefix_rfl
  dsimp only at hmap
  split at hmap
  · rw [← (Prod.mk.inj hmap).1]
    exact List.prefix_append _ _
  · rw [← (Prod.mk.inj hmap).1]
    exact List.prefix_append _ _

/-- **Mapping.** Whether `hplf_os_map` succeeds, and the length it obtains. -/
theorem osMap_asked {n : Nat} {r : Option Mapping} (hmap : osMap w s t n = (s', r))
    (hagrees : Agrees A w s') : (s'.asked, r.map Mapping.length) = A.map s.asked n := by
  unfold osMap at hmap
  unfold Answers.map
  split at hmap
  · rename_i hzero
    obtain ⟨rfl, rfl⟩ := Prod.mk.inj hmap
    rw [if_pos hzero]
    rfl
  rename_i hn
  rw [if_neg hn]
  split at hmap
  · rename_i s₁ hquery
    obtain ⟨hnone, hasked, -⟩ := osPageSize_asked hagrees.pageSize hquery
    obtain ⟨rfl, rfl⟩ := Prod.mk.inj hmap
    rw [hasked, ← hnone]
    rfl
  rename_i s₁ pageSize hquery
  obtain ⟨hsome, hasked, houtcomes⟩ := osPageSize_asked hagrees.pageSize hquery
  rw [← hsome, Option.bind_some]
  cases hround : sizeRoundUpMultiple n pageSize with
  | none =>
      simp only [hround] at hmap
      obtain ⟨rfl, rfl⟩ := Prod.mk.inj hmap
      change (s₁.asked, none) = _
      rw [hasked]
  | some length =>
  simp only [hround] at hmap
  dsimp only
  -- The outcome of this call is the one `A` assigns to it.
  have hanswer : s'.mapOutcomes = s₁.mapOutcomes
      ++ [(w.mmap s₁.mapOutcomes.length s₁.mappings length).isOk] →
      (w.mmap s₁.mapOutcomes.length s₁.mappings length).isOk = A.maps s.asked.maps ∧
        s'.mapOutcomes.length = s.asked.maps + 1 := by
    intro houtcomes'
    have hlength : s₁.mapOutcomes.length = s.asked.maps := by
      rw [houtcomes]
      rfl
    refine ⟨hagrees.maps _ _ ?_, ?_⟩
    · rw [houtcomes', ← hlength]
      exact List.getElem?_concat_length
    · rw [houtcomes', List.length_append, hlength]
      rfl
  have hqueries : s₁.pageQueries = s.asked.queries + 1 := congrArg Asked.queries hasked
  split at hmap
  · rename_i e herror
    obtain ⟨hs, rfl⟩ := Prod.mk.inj hmap
    obtain ⟨hfails, hlength⟩ := hanswer (hs ▸ rfl)
    rw [herror] at hfails
    rw [← hfails, State.asked, hlength, ← hs]
    change (Asked.mk s₁.pageQueries _, none) = _
    rw [hqueries]
    rfl
  · rename_i base hok
    obtain ⟨hs, rfl⟩ := Prod.mk.inj hmap
    obtain ⟨hworks, hlength⟩ := hanswer (hs ▸ rfl)
    rw [hok] at hworks
    rw [← hworks, State.asked, hlength, ← hs]
    change (Asked.mk s₁.pageQueries _, some length) = _
    rw [hqueries]
    rfl

theorem slabCreate_outcomes {capacity : Nat} {r : Option (Nat × Ptr)}
    (hcreate : slabCreate w s t c capacity = (s', r)) : s.mapOutcomes <+: s'.mapOutcomes := by
  unfold slabCreate at hcreate
  split at hcreate
  · rename_i s₁ hquery
    rw [← (Prod.mk.inj hcreate).1, osPageSize_outcomes hquery]
  rename_i s₁ pageSize hquery
  rw [← osPageSize_outcomes hquery]
  split at hcreate
  · rw [← (Prod.mk.inj hcreate).1]
    exact List.prefix_rfl
  split at hcreate
  · rename_i s₂ hmap
    have hextends := osMap_outcomes hmap
    rw [← (Prod.mk.inj hcreate).1]
    exact hextends
  · rename_i s₂ mapping hmap
    have hextends := osMap_outcomes hmap
    rw [← (Prod.mk.inj hcreate).1]
    exact hextends

/-- **Slab creation.** Whether it succeeds, and the number of slots. -/
theorem slabCreate_asked {r : Option (Nat × Ptr)}
    (hcreate : slabCreate w s t c (sizeClassCapacities c) = (s', r)) (hagrees : Agrees A w s') :
    (s'.asked, r.map fun _ => slabSlots c (w.sysconf s.pageQueries).toNat) = A.slab s.asked c := by
  unfold slabCreate at hcreate
  unfold Answers.slab
  split at hcreate
  · rename_i s₁ hquery
    obtain ⟨hnone, hasked, -⟩ := osPageSize_asked hagrees.pageSize hquery
    obtain ⟨rfl, rfl⟩ := Prod.mk.inj hcreate
    rw [hasked, ← hnone]
    rfl
  rename_i s₁ pageSize hquery
  obtain ⟨hsome, hasked, houtcomes⟩ := osPageSize_asked hagrees.pageSize hquery
  rw [← hsome, Option.bind_some]
  cases hlayout : slabLayoutCompute (sizeClassCapacities c) pageSize with
  | none =>
      simp only [hlayout] at hcreate
      obtain ⟨rfl, rfl⟩ := Prod.mk.inj hcreate
      change (s₁.asked, none) = _
      rw [hasked]
  | some layout =>
  simp only [hlayout] at hcreate
  have hslots : slabSlots c (w.sysconf s.pageQueries).toNat = layout.slotCount := by
    rw [slabSlots, ← (osPageSize_eq_some hquery).2.2, hlayout]
    rfl
  rw [hslots]
  dsimp only
  split at hcreate
  · rename_i s₂ hmap
    obtain ⟨rfl, rfl⟩ := Prod.mk.inj hcreate
    rw [← hasked, ← osMap_asked hmap hagrees]
    rfl
  · rename_i s₂ mapping hmap
    obtain ⟨rfl, rfl⟩ := Prod.mk.inj hcreate
    rw [← hasked, ← osMap_asked hmap ⟨hagrees.pageSize, hagrees.maps⟩]
    rfl

theorem allocateLarge_outcomes {n : Nat} {p : Ptr} (hallocate : allocateLarge w s t n = (s', p)) :
    s.mapOutcomes <+: s'.mapOutcomes := by
  unfold allocateLarge at hallocate
  split at hallocate
  · rename_i s₁ hquery
    rw [← (Prod.mk.inj hallocate).1, ← osPageSize_outcomes hquery]
    exact List.prefix_rfl
  rename_i s₁ pageSize hquery
  rw [← osPageSize_outcomes hquery]
  split at hallocate
  · rw [← (Prod.mk.inj hallocate).1]
    exact List.prefix_rfl
  split at hallocate
  · rename_i s₂ hmap
    have hextends := osMap_outcomes hmap
    rw [← (Prod.mk.inj hallocate).1]
    exact hextends
  · rename_i s₂ mapping hmap
    have hextends := osMap_outcomes hmap
    rw [← (Prod.mk.inj hallocate).1]
    exact hextends

/-- **Large allocation.** Whether it succeeds, and the capacity of the block. -/
theorem allocateLarge_asked {n : Nat} {block : Ptr}
    (hallocate : allocateLarge w s t n = (s', blockPayload block)) (hagrees : Agrees A w s') :
    (s'.asked, block.bind (spanOf s'.memory))
      = ((A.large s.asked n).1, (A.large s.asked n).2.map .large) := by
  have hblock : ∀ {base : Nat}, blockPayload (some base) = blockPayload block → block = some base := by
    intro base heq
    rw [← blockFromPayload_blockPayload base, heq]
    cases block with
    | none => simp at heq
    | some a => rw [blockFromPayload_blockPayload]
  have hnull : (none : Ptr) = blockPayload block → block = none := by
    intro heq
    cases block with
    | none => rfl
    | some a => simp at heq
  unfold allocateLarge at hallocate
  unfold Answers.large
  split at hallocate
  · rename_i s₁ hquery
    obtain ⟨hnone, hasked, -⟩ := osPageSize_asked hagrees.pageSize hquery
    obtain ⟨rfl, hp⟩ := Prod.mk.inj hallocate
    obtain rfl := hnull hp
    rw [← hnone]
    change (s₁.asked, none) = _
    rw [hasked]
    rfl
  rename_i s₁ pageSize hquery
  obtain ⟨hsome, hasked, houtcomes⟩ := osPageSize_asked hagrees.pageSize hquery
  rw [← hsome, Option.bind_some]
  cases hlayout : largeLayoutCompute n pageSize with
  | none =>
      simp only [hlayout] at hallocate
      obtain ⟨rfl, hp⟩ := Prod.mk.inj hallocate
      obtain rfl := hnull hp
      change (s₁.asked, none) = _
      rw [hasked]
      rfl
  | some layout =>
  simp only [hlayout] at hallocate
  dsimp only
  split at hallocate
  · rename_i s₂ hmap
    obtain ⟨rfl, hp⟩ := Prod.mk.inj hallocate
    obtain rfl := hnull hp
    rw [← hasked, ← osMap_asked hmap ⟨hagrees.pageSize, hagrees.maps⟩]
    rfl
  · rename_i s₂ mapping hmap
    obtain ⟨rfl, hp⟩ := Prod.mk.inj hallocate
    obtain rfl := hblock hp
    rw [← hasked, ← osMap_asked hmap ⟨hagrees.pageSize, hagrees.maps⟩, Option.bind_some, spanOf,
      initBlock_self]
    rfl

/-! ### Slots -/

/-- The slots of the slab at `base`, if it is of class `c`. -/
def classSlots (m : Memory) (c : ClassIndex) (base : Nat) : List Nat :=
  match m.slab base with
  | none => []
  | some h => if h.classIndex = c then h.slots base else []

/-- The number of slots of class `c` in the registered slabs. -/
def slotTotal (m : Memory) (bases : List Nat) (c : ClassIndex) : Nat :=
  (bases.flatMap (classSlots m c)).length

variable {k : Config Tid} {bases larges : List Nat} {g : Place Tid → List Nat} {v : Variant}

theorem mem_classSlots {m : Memory} {base a : Nat} :
    a ∈ classSlots m c base ↔ ∃ h, m.slab base = some h ∧ h.classIndex = c ∧ a ∈ h.slots base := by
  unfold classSlots
  cases m.slab base with
  | none => simp
  | some h =>
      by_cases hclass : h.classIndex = c
      · simp [hclass]
      · simp [hclass]

theorem mem_flatMap_classSlots {m : Memory} {a : Nat} :
    a ∈ bases.flatMap (classSlots m c) ↔ InClass m bases c a := by
  simp only [List.mem_flatMap, mem_classSlots]
  rfl

theorem slotTotal_congr {m m' : Memory} (hslabs : ∀ base ∈ bases, m'.slab base = m.slab base) :
    slotTotal m' bases c = slotTotal m bases c := by
  unfold slotTotal
  rw [List.flatMap_congr fun base hbase => by rw [classSlots, hslabs base hbase, ← classSlots]]

theorem slotTotal_cons {m : Memory} {base : Nat} {h : Slab} (hh : m.slab base = some h) :
    slotTotal m (base :: bases) c
      = (if h.classIndex = c then h.slotCount else 0) + slotTotal m bases c := by
  have hlength : (h.slots base).length = h.slotCount := by
    rw [Slab.slots, List.length_map, List.length_range]
  rw [slotTotal, List.flatMap_cons, List.length_append, classSlots, hh]
  by_cases hclass : h.classIndex = c
  · simp only [if_pos hclass, hlength]
    rfl
  · simp only [if_neg hclass]
    rfl

section

omit [DecidableEq Tid]

/-- No two slots are the same. -/
theorem Storage.nodup_slots {leaked : List Mapping} (hst : Storage s leaked bases larges) :
    (bases.flatMap (classSlots s.memory c)).Nodup := by
  rw [List.nodup_flatMap]
  constructor
  · intro base hbase
    obtain ⟨h, hh, hwf⟩ := hst.slab base hbase
    unfold classSlots
    rw [hh]
    by_cases hclass : h.classIndex = c
    · simp only [if_pos hclass]
      exact hwf.slots_nodup
    · simp only [if_neg hclass]
      exact List.nodup_nil
  · apply hst.registry.nodup.imp_of_mem
    intro base base' hbase hbase' hne a ha ha'
    obtain ⟨h, hh, -, hslot⟩ := mem_classSlots.mp ha
    obtain ⟨h', hh', -, hslot'⟩ := mem_classSlots.mp ha'
    exact hne (hst.slot_unique hbase hbase' hh hh' hslot hslot')

theorem Storage.spanOf_inClass {leaked : List Mapping} (hst : Storage s leaked bases larges) {a : Nat}
    (hclass : InClass s.memory bases c a) : spanOf s.memory a = some (.small c) := by
  obtain ⟨base, hbase, h, hh, rfl, hslot⟩ := hclass
  obtain ⟨b, hb, hslotOf⟩ := hst.slot base hbase h hh a hslot
  have howner : b.owner.slab = base := by
    rw [hslotOf.owner]
    rfl
  rw [spanOf, hb, Option.bind_eq_bind, Option.bind_some, hslotOf.kind]
  simp only [howner, hh, Option.bind_eq_bind, Option.bind_some]

/-- What the prefix of a live block says of its class. -/
theorem Inv.spanOf_iff (hinv : Inv k bases larges g) {a : Nat} (ha : a ∈ k.live) :
    spanOf k.state.memory a = some (.small c) ↔ InClass k.state.memory bases c a := by
  refine ⟨fun hspan => ?_, hinv.storage.spanOf_inClass⟩
  rcases hinv.live_cases ha with
    ⟨c', base, h, b, hbase, hh, hc, hslot, hb, hslotOf, -, -⟩ | ⟨b, hlarge, hb, hat, -, -⟩
  · have hclass : InClass k.state.memory bases c' a := ⟨base, hbase, h, hh, hc, hslot⟩
    rw [hinv.storage.spanOf_inClass hclass] at hspan
    rwa [← Span.small.inj (Option.some.inj hspan)]
  · rw [spanOf, hb, Option.bind_eq_bind, Option.bind_some, hat.kind] at hspan
    simp at hspan

theorem InClass.unique {leaked : List Mapping} (hst : Storage s leaked bases larges) {c' : ClassIndex}
    {a : Nat} (hclass : InClass s.memory bases c a) (hclass' : InClass s.memory bases c' a) : c = c' := by
  have hspan := hst.spanOf_inClass hclass
  rw [hst.spanOf_inClass hclass'] at hspan
  exact (Span.small.inj (Option.some.inj hspan)).symm

end

/-- **Every slot is free or live.** While no call is in progress and only `t` has a cache. -/
theorem Inv.free_add_live (hinv : Inv k bases larges g) (hquiescent : k.Quiescent)
    (halone : ∀ u, u ≠ t → g (.cache u c) = []) :
    (g (.shared c)).length + (g (.cache t c)).length
        + k.live.countP (fun a => spanOf k.state.memory a = some (.small c))
      = slotTotal k.state.memory bases c := by
  have hlive := hinv.live_eq
  set living := k.live.filter fun a => spanOf k.state.memory a = some (.small c) with hliving
  have hmem : ∀ a, a ∈ living ↔ a ∈ g .live ∧ InClass k.state.memory bases c a := by
    intro a
    rw [hliving, List.mem_filter, decide_eq_true_eq, hlive]
    exact and_congr_right fun ha => hinv.spanOf_iff ha
  have hperm : (g (.shared c) ++ (g (.cache t c) ++ living)).Perm
      (bases.flatMap (classSlots k.state.memory c)) := by
    refine (List.perm_ext_iff_of_nodup ?_ hinv.storage.nodup_slots).mpr fun a => ?_
    · refine List.nodup_append.mpr ⟨hinv.placed.nodup _, List.nodup_append.mpr
        ⟨hinv.placed.nodup _, (hlive ▸ hinv.placed.nodup .live).filter _, ?_⟩, ?_⟩
      · rintro a ha b hb rfl
        have hplace := hinv.placed.disjoint ha ((hmem a).mp hb).1
        simp at hplace
      · rintro a ha b hb rfl
        rcases List.mem_append.mp hb with hb | hb
        · have hplace := hinv.placed.disjoint ha hb
          simp at hplace
        · have hplace := hinv.placed.disjoint ha ((hmem a).mp hb).1
          simp at hplace
    · rw [mem_flatMap_classSlots, List.mem_append, List.mem_append, hmem]
      constructor
      · rintro (ha | ha | ⟨-, ha⟩)
        · exact (hinv.free_of_shared ha).1
        · exact (hinv.free_of_cache ha).1
        · exact ha
      · intro hclass
        obtain ⟨p, ha⟩ := (hinv.population a).mpr (Or.inl ⟨c, hclass⟩)
        cases p with
        | live => exact Or.inr (Or.inr ⟨ha, hclass⟩)
        | shared c' =>
            obtain rfl := InClass.unique hinv.storage (hinv.free_of_shared ha).1 hclass
            exact Or.inl ha
        | cache u c' =>
            obtain rfl := InClass.unique hinv.storage (hinv.free_of_cache ha).1 hclass
            by_cases hu : u = t
            · exact Or.inr (Or.inl (hu ▸ ha))
            · rw [halone u hu] at ha
              simp at ha
        | inflight u =>
            have hcarries := hinv.mine (t := u)
            rw [hquiescent u] at hcarries
            rw [show g (.inflight u) = [] from hcarries] at ha
            simp at ha
  have hlength := hperm.length_eq
  rw [List.length_append, List.length_append, hliving, ← List.countP_eq_length_filter] at hlength
  rw [slotTotal, ← hlength, Nat.add_assoc]

/-! ### Handles -/

/-- A handle of the program and the same handle of the tally. -/
def SameHandle (m : Memory) (entry : Nat × Nat) (entry' : Nat × Span) : Prop :=
  entry.1 = entry'.1 ∧ spanOf m entry.2 = some entry'.2

variable {m m' : Memory} {held : List (Nat × Nat)} {spans : List (Nat × Span)}

theorem lookup_sameHandle (hsame : List.Forall₂ (SameHandle m) held spans) (handle : Nat) :
    (held.lookup handle).map (spanOf m) = (spans.lookup handle).map some := by
  induction hsame with
  | nil => rfl
  | @cons entry entry' rest rest' hhead _ ih =>
      obtain ⟨n, a⟩ := entry
      obtain ⟨n', span⟩ := entry'
      obtain ⟨rfl, hspan⟩ := hhead
      rw [List.lookup_cons, List.lookup_cons]
      cases handle == n with
      | true => exact congrArg some hspan
      | false => exact ih

theorem eraseP_sameHandle (hsame : List.Forall₂ (SameHandle m) held spans) (handle : Nat) :
    List.Forall₂ (SameHandle m) (held.eraseP fun entry => entry.1 == handle)
      (spans.eraseP fun entry => entry.1 == handle) := by
  induction hsame with
  | nil => exact .nil
  | @cons entry entry' rest rest' hhead hrest ih =>
      have hboth : (entry.1 == handle) = (entry'.1 == handle) := by rw [hhead.1]
      cases hfirst : entry.1 == handle with
      | true =>
          rw [List.eraseP_cons_of_pos (by simpa using hfirst),
            List.eraseP_cons_of_pos (by simpa [← hboth] using hfirst)]
          exact hrest
      | false =>
          rw [List.eraseP_cons_of_neg (by simp [hfirst]),
            List.eraseP_cons_of_neg (by simp [← hboth, hfirst])]
          exact .cons hhead ih

theorem countP_sameHandle (hsame : List.Forall₂ (SameHandle m) held spans) :
    held.countP (fun entry => spanOf m entry.2 = some (.small c))
      = spans.countP fun entry => entry.2 = .small c := by
  induction hsame with
  | nil => rfl
  | @cons entry entry' rest rest' hhead _ ih =>
      rw [List.countP_cons, List.countP_cons, ih, hhead.2]
      simp

theorem SameHandle.congr (hsame : List.Forall₂ (SameHandle m) held spans)
    (hkept : ∀ entry ∈ held, spanOf m' entry.2 = spanOf m entry.2) :
    List.Forall₂ (SameHandle m') held spans := by
  induction hsame with
  | nil => exact .nil
  | @cons entry entry' rest rest' hhead _ ih =>
      refine .cons ⟨hhead.1, ?_⟩ (ih fun e he => hkept e (List.mem_cons_of_mem _ he))
      rw [hkept entry List.mem_cons_self]
      exact hhead.2

theorem lookup_mem {handle a : Nat} (hlookup : held.lookup handle = some a) :
    a ∈ held.map Prod.snd := by
  obtain ⟨before, after, rfl, -⟩ := List.lookup_eq_some_iff.mp hlookup
  simp

/-- Dropping a handle drops its block. -/
theorem eraseP_perm {handle a : Nat} (hlookup : held.lookup handle = some a) :
    ((held.eraseP fun entry => entry.1 == handle).map Prod.snd).Perm ((held.map Prod.snd).erase a) := by
  induction held with
  | nil => simp at hlookup
  | cons entry rest ih =>
      obtain ⟨n, b⟩ := entry
      rw [List.lookup_cons] at hlookup
      by_cases hn : handle = n
      · subst hn
        simp only [beq_self_eq_true, Option.some.injEq] at hlookup
        subst hlookup
        rw [List.eraseP_cons_of_pos (by simp), List.map_cons, List.erase_cons_head]
      · have hbeq : (handle == n) = false := by simp [hn]
        rw [hbeq] at hlookup
        rw [List.eraseP_cons_of_neg (by simpa using fun h => hn h.symm), List.map_cons, List.map_cons]
        by_cases hb : b = a
        · subst hb
          rw [List.erase_cons_head]
          exact ((ih hlookup).cons b).trans (List.perm_cons_erase (lookup_mem hlookup)).symm
        · rw [List.erase_cons_tail (by simpa using hb)]
          exact (ih hlookup).cons b

theorem eraseP_of_lookup_none {β : Type} {entries : List (Nat × β)} {handle : Nat}
    (hlookup : entries.lookup handle = none) :
    (entries.eraseP fun entry => entry.1 == handle) = entries := by
  apply List.eraseP_of_forall_not
  intro entry hentry heq
  have hne := List.lookup_eq_none_iff.mp hlookup entry hentry
  simp only [beq_iff_eq] at heq
  simp [heq] at hne

end Hplf
