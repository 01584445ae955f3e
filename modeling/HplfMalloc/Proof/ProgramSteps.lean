import HplfMalloc.Proof.Safety
import HplfMalloc.Proof.TallySteps

/-!
# Programs and their tally

Between two calls of a program every block is with the program, on a shared list or in the cache of the
one thread. Each call of either build returns, keeps this, and moves the tally as `Tally.call` says.
-/

namespace Hplf

open Lib Memory

variable {Tid : Type}

/-- Where the blocks are between two calls of the program `P` of thread `t`. -/
structure Account (v : Variant) (t : Tid) (P : Program Tid) where
  live : List Nat
  leaked : List Mapping
  bases : List Nat
  larges : List Nat
  places : Place Tid → List Nat
  inv : Inv (Config.resting P.state live leaked) bases larges places
  perm : live.Perm (P.held.map Prod.snd)
  alone : ∀ u, u ≠ t → ∀ c, places (.cache u c) = []
  locked : v = .locked → P.state.currentState t ≠ .active

/-- The tally `T` counts the handles `held`, the slots of the slabs at `bases`, and what was asked of the
system before `s`. -/
structure Matches (s : State Tid) (bases : List Nat) (held : List (Nat × Nat)) (T : Tally) : Prop where
  held : List.Forall₂ (SameHandle s.memory) held T.held
  slots : ∀ c, T.slots c = slotTotal s.memory bases c
  asked : T.asked = s.asked

variable {v : Variant} {w : World} {t : Tid} {P P' : Program Tid} {s s' : State Tid} {A : Answers}
variable {T : Tally} {bases larges : List Nat} {g : Place Tid → List Nat} {c : ClassIndex}
variable {live : List Nat} {leaked : List Mapping} {held : List (Nat × Nat)}

/-! ### What a tally tells -/

theorem Matches.congr (hmatch : Matches s bases held T)
    (hslabs : ∀ base ∈ bases, s'.memory.slab base = s.memory.slab base)
    (hspans : ∀ entry ∈ held, spanOf s'.memory entry.2 = spanOf s.memory entry.2)
    (hasked : s'.asked = s.asked) : Matches s' bases held T where
  held := SameHandle.congr hmatch.held hspans
  slots c := (hmatch.slots c).trans (slotTotal_congr hslabs).symm
  asked := hmatch.asked.trans hasked.symm

theorem Matches.keep (hmatch : Matches s bases held T) {n a : Nat} {span : Span}
    (hspan : spanOf s.memory a = some span) : Matches s bases ((n, a) :: held) (T.keep n (some span)) where
  held := .cons ⟨rfl, hspan⟩ hmatch.held
  slots := hmatch.slots
  asked := hmatch.asked

theorem Matches.drop (hmatch : Matches s bases held T) (handle : Nat) :
    Matches s bases (held.eraseP fun entry => entry.1 == handle) (T.drop handle) where
  held := eraseP_sameHandle hmatch.held handle
  slots := hmatch.slots
  asked := hmatch.asked

theorem Matches.live_eq (hmatch : Matches P.state bases P.held T) : P.liveCount c = T.live c :=
  countP_sameHandle hmatch.held

theorem NothingMapped.asked (hsame : NothingMapped s s') : s'.asked = s.asked := by
  rw [State.asked, hsame.queries, hsame.outcomes, State.asked]


/-- What a block can be resized to is read from its prefix and from the header of its slab. -/
theorem Inv.spanOf_congr {k : Config Tid} (hinv : Inv k bases larges g) {a : Nat} (ha : a ∈ k.live)
    {m : Memory} (hblock : m.block a = k.state.memory.block a)
    (hslabs : ∀ base ∈ bases, m.slab base = k.state.memory.slab base) :
    spanOf m a = spanOf k.state.memory a := by
  rcases hinv.live_cases ha with
    ⟨c, base, h, b, hbase, hh, hc, hslot, hb, hslotOf, -, -⟩ | ⟨b, hlarge, hb, hat, -, -⟩
  · have howner : b.owner.slab = base := by
      rw [hslotOf.owner]
      rfl
    simp only [spanOf, hblock, hb, Option.bind_eq_bind, Option.bind_some, howner, hslabs base hbase]
  · simp only [spanOf, hblock, hb, Option.bind_eq_bind, Option.bind_some, hat.kind]

theorem Inv.exists_span {k : Config Tid} (hinv : Inv k bases larges g) {a : Nat} (ha : a ∈ k.live) :
    ∃ span, spanOf k.state.memory a = some span := by
  rcases hinv.live_cases ha with
    ⟨c, base, h, b, hbase, hh, hc, hslot, hb, hslotOf, -, -⟩ | ⟨b, hlarge, hb, hat, -, -⟩
  · exact ⟨_, hinv.storage.spanOf_inClass ⟨base, hbase, h, hh, hc, hslot⟩⟩
  · refine ⟨.large b.capacity, ?_⟩
    rw [spanOf, hb, Option.bind_eq_bind, Option.bind_some, hat.kind]

variable [DecidableEq Tid]

namespace Account

variable (R : Account v t P)

def config : Config Tid := Config.resting P.state R.live R.leaked

section

omit [DecidableEq Tid]

theorem mem_live {entry : Nat × Nat} (hentry : entry ∈ P.held) : entry.2 ∈ R.live :=
  R.perm.mem_iff.mpr (List.mem_map_of_mem hentry)

theorem lookup_live {handle a : Nat} (hlookup : P.held.lookup handle = some a) : a ∈ R.live :=
  R.perm.mem_iff.mpr (lookup_mem hlookup)

theorem not_busy (a : Nat) : R.config.Unused a := fun _ h => by simp [config, Config.resting, Pc.argument] at h

/-- The locked build has no caches. -/
theorem cache_eq_nil (hlocked : v = .locked) : R.places (.cache t c) = [] :=
  R.inv.cache_eq_nil (by
    rw [Config.cacheOf_eq_current rfl]
    exact if_neg (R.locked hlocked)) c

end

/-- Every slot is on the shared list, in the cache or with the program. -/
theorem total (c : ClassIndex) :
    (R.places (.shared c)).length + (R.places (.cache t c)).length + P.liveCount c
      = slotTotal P.state.memory R.bases c := by
  have hcount : R.live.countP (fun a => spanOf P.state.memory a = some (.small c)) = P.liveCount c := by
    rw [R.perm.countP_eq, List.countP_map]
    rfl
  rw [← hcount]
  exact R.inv.free_add_live (fun _ => rfl) fun u hu => R.alone u hu c

/-- **The free blocks**, counted along the lists. -/
theorem freeCount (c : ClassIndex) :
    Program.freeCount P.state t c = some (slotTotal P.state.memory R.bases c - P.liveCount c) := by
  have htotal := R.total c
  have hshared : listLengthLoop P.state.memory addressSpace (P.state.sharedHeads c) 0
      = some (0 + (R.places (.shared c)).length) :=
    listLengthLoop_of_chain (R.inv.holds (.shared c)) (R.inv.length_lt _).le
  have hcacheOf : R.config.cacheOf t = cacheCurrent P.state t := Config.cacheOf_eq_current rfl
  unfold Program.freeCount
  simp only [hshared, Option.bind_eq_bind, Option.bind_some, Nat.zero_add]
  cases hcurrent : cacheCurrent P.state t with
  | none =>
      have hnil := R.inv.cache_eq_nil (hcacheOf.trans hcurrent) c
      rw [hnil] at htotal
      rw [← htotal]
      simp
  | some d =>
      obtain ⟨descriptor, hown⟩ := R.inv.ownCache (hcacheOf.trans hcurrent)
      have hcached : listLengthLoop P.state.memory addressSpace (descriptor.cache.heads c) 0
          = some (0 + (R.places (.cache t c)).length) :=
        listLengthLoop_of_chain (hown.chain c) (R.inv.length_lt _).le
      have hmapped : P.state.descriptor d = some descriptor := hown.ok.mapped
      simp only [hmapped, hcached, Option.bind_some, Nat.zero_add]
      rw [← htotal, Nat.add_sub_cancel]

/-- Whether an allocation finds a free block. -/
theorem live_lt_iff (hmatch : Matches P.state R.bases P.held T) :
    T.live c < T.slots c ↔ R.places (.shared c) ≠ [] ∨ v = .cached ∧ R.places (.cache t c) ≠ [] := by
  have htotal := R.total c
  rw [← hmatch.live_eq, hmatch.slots c, ← htotal]
  have hcached : R.places (.cache t c) ≠ [] → v = .cached := by
    intro hne
    cases v with
    | locked => exact absurd (R.cache_eq_nil rfl) hne
    | cached => rfl
  constructor
  · intro hlt
    by_cases hshared : R.places (.shared c) = []
    · have hne : R.places (.cache t c) ≠ [] := by
        intro hnil
        rw [hshared, hnil] at hlt
        simp at hlt
      exact Or.inr ⟨hcached hne, hne⟩
    · exact Or.inl hshared
  · rintro (hne | ⟨-, hne⟩)
    · have hpos := List.length_pos_iff.mpr hne
      omega
    · have hpos := List.length_pos_iff.mpr hne
      omega

/-- What a call shows, once the tally after it is known. -/
theorem report_eq (R' : Account v t P') {argument result : Ptr} {T' : Tally}
    (hmatch : Matches P'.state R'.bases P'.held T') :
    P.report P' t argument result
      = T'.report result.isNone (result.isSome && result = argument)
          (result.isSome && argument.isSome && result ≠ argument)
          (Program.newSlab P.state P'.state) := by
  unfold Program.report Tally.report
  congr 1
  · funext c
    rw [R'.freeCount c, ← hmatch.slots c, hmatch.live_eq]
  · funext c
    exact hmatch.live_eq

end Account

/-! ### New slabs -/

section

omit [DecidableEq Tid]

theorem newSlab_same {k k' : Config Tid} {larges' : List Nat} {g' : Place Tid → List Nat}
    (hinv : Inv k bases larges g) (hinv' : Inv k' bases larges' g') :
    Program.newSlab k.state k'.state = none := by
  apply if_pos
  rw [hinv.storage.registry.head?_eq, hinv'.storage.registry.head?_eq]

theorem newSlab_cons {k k' : Config Tid} {larges' : List Nat} {g' : Place Tid → List Nat} {base : Nat}
    {h : Slab} (hinv : Inv k bases larges g) (hinv' : Inv k' (base :: bases) larges' g')
    (hnew : base ∉ bases) (hh : k'.state.memory.slab base = some h) :
    Program.newSlab k.state k'.state = some h.classIndex := by
  have hslabs : k'.state.slabs = some base := hinv'.storage.registry.head?_eq
  have hne : k'.state.slabs ≠ k.state.slabs := by
    rw [hslabs, hinv.storage.registry.head?_eq]
    intro heq
    exact hnew (List.mem_of_mem_head? heq.symm)
  rw [Program.newSlab, if_neg hne, hslabs, Option.bind_some, hh]
  rfl

theorem newSlab_congr {s₀ : State Tid} (hslabs : s'.slabs = s.slabs)
    (hheader : ∀ base, s.slabs = some base → s'.memory.slab base = s.memory.slab base) :
    Program.newSlab s₀ s' = Program.newSlab s₀ s := by
  rw [Program.newSlab, Program.newSlab, hslabs]
  congr 1
  cases hhead : s.slabs with
  | none => rfl
  | some base => rw [Option.bind_some, Option.bind_some, hheader base hhead]

end

/-! ### Allocation -/

namespace Tally

variable {size capacity : Nat}

theorem take_free (hsize : 0 < size ∧ size ≤ ptrdiffMax) (hfor : sizeClassFor size = some (c, capacity))
    (hlt : T.live c < T.slots c) : T.take A size = ⟨T, some (.small c), none⟩ := by
  rw [take, if_neg (by omega), hfor]
  exact if_pos hlt

theorem take_slab (hsize : 0 < size ∧ size ≤ ptrdiffMax) (hfor : sizeClassFor size = some (c, capacity))
    (hfull : ¬ T.live c < T.slots c) {asked : Asked} {n : Nat} (hslab : (asked, some n) = A.slab T.asked c) :
    T.take A size = ⟨{ T with asked := asked, slots := Function.update T.slots c (T.slots c + n) },
      some (.small c), some c⟩ := by
  rw [take, if_neg (by omega), hfor]
  dsimp only
  rw [if_neg hfull, ← hslab]

theorem take_noSlab (hsize : 0 < size ∧ size ≤ ptrdiffMax)
    (hfor : sizeClassFor size = some (c, capacity)) (hfull : ¬ T.live c < T.slots c) {asked : Asked}
    (hslab : (asked, none) = A.slab T.asked c) :
    T.take A size = ⟨{ T with asked := asked }, none, none⟩ := by
  rw [take, if_neg (by omega), hfor]
  dsimp only
  rw [if_neg hfull, ← hslab]

theorem take_large (hsize : 0 < size ∧ size ≤ ptrdiffMax) (hfor : sizeClassFor size = none) :
    T.take A size
      = ⟨{ T with asked := (A.large T.asked size).1 }, (A.large T.asked size).2.map .large, none⟩ := by
  rw [take, if_neg (by omega), hfor]

end Tally

/-- An allocation of `size` bytes by the program has led to state `s` and delivered `block`. -/
structure Account.Allocates (R : Account v t P) (w : World) (size : Nat) (s : State Tid) (block : Ptr)
    (bases : List Nat) : Prop where
  sized : ∀ a, block = some a → s.memory.size a = some size
  inv : ∃ larges g, Inv (Config.resting s (block.toList ++ R.live) R.leaked) bases larges g ∧
    Foreign t R.places g
  outcomes : P.state.mapOutcomes <+: s.mapOutcomes
  tally : ∀ A T, Matches P.state R.bases P.held T → Agrees A w s →
    Matches s bases P.held (T.take A size).tally ∧
      block.map (spanOf s.memory) = (T.take A size).span.map some ∧
      Program.newSlab P.state s = (T.take A size).created

omit [DecidableEq Tid] in
theorem Sized.spanOf {leaked : List Mapping} (hst : Storage s leaked bases larges) {size capacity a : Nat}
    (hsized : Sized s.memory bases larges size a) (hfor : sizeClassFor size = some (c, capacity)) :
    Hplf.spanOf s.memory a = some (.small c) := by
  rcases hsized.2 with ⟨c', hclass, hfor'⟩ | ⟨-, hlt, -⟩
  · obtain ⟨rfl, -⟩ := Prod.mk.inj (Option.some.inj (hfor.symm.trans hfor'))
    exact hst.spanOf_inClass hclass
  · have hnone := sizeClassFor_eq_none_iff.mpr (Or.inr hlt)
    rw [hfor] at hnone
    simp at hnone

namespace Account

variable (R : Account v t P) {size : Nat} {block : Ptr}

section

omit [DecidableEq Tid]

theorem spans_kept {m : Memory} (hkeeps : KeepsLive R.config m)
    (hslabs : ∀ base ∈ R.bases, m.slab base = P.state.memory.slab base) :
    ∀ entry ∈ P.held, spanOf m entry.2 = spanOf P.state.memory entry.2 := by
  intro entry hentry
  have hlive := R.mem_live hentry
  exact R.inv.spanOf_congr hlive (hkeeps.block _ hlive) hslabs

/-- A delivered block, with the slabs that were there before. -/
theorem allocates_of_delivers {a : Nat} {bases' larges' : List Nat}
    (hdelivers : Delivers R.config t size R.bases R.places s a bases' larges')
    (houtcomes : P.state.mapOutcomes <+: s.mapOutcomes)
    (htally : ∀ A T, Matches P.state R.bases P.held T → Agrees A w s →
      (T.take A size).tally.held = T.held ∧
      (∀ c, (T.take A size).tally.slots c = slotTotal s.memory bases' c) ∧
      (T.take A size).tally.asked = s.asked ∧
      some (spanOf s.memory a) = (T.take A size).span.map some ∧
      Program.newSlab P.state s = (T.take A size).created) :
    R.Allocates w size s (some a) bases' where
  sized b hb := by
    obtain rfl := Option.some.inj hb
    exact hdelivers.sized.1
  inv := by
    obtain ⟨g', hinv, hforeign⟩ := hdelivers.inv
    exact ⟨larges', g', hinv, hforeign⟩
  outcomes := houtcomes
  tally A T hmatch hagrees := by
    obtain ⟨hheld, hslots, hasked, hspan, hcreated⟩ := htally A T hmatch hagrees
    refine ⟨⟨?_, hslots, hasked⟩, hspan, hcreated⟩
    rw [hheld]
    exact SameHandle.congr hmatch.held (R.spans_kept hdelivers.keeps hdelivers.slabs)

/-- A failed allocation. -/
theorem allocates_of_declines (hdeclines : Declines R.config R.bases R.larges R.places s)
    (houtcomes : P.state.mapOutcomes <+: s.mapOutcomes)
    (htally : ∀ A T, Matches P.state R.bases P.held T → Agrees A w s →
      T.take A size = ⟨{ T with asked := s.asked }, none, none⟩) :
    R.Allocates w size s none R.bases where
  sized a ha := by simp at ha
  inv := ⟨R.larges, R.places, hdeclines.inv, Foreign.refl _ _⟩
  outcomes := houtcomes
  tally A T hmatch hagrees := by
    have hmemory : s.memory = P.state.memory := hdeclines.memory
    rw [htally A T hmatch hagrees]
    refine ⟨⟨?_, fun c => ?_, rfl⟩, rfl, newSlab_same R.inv hdeclines.inv⟩
    · rw [hmemory]
      exact hmatch.held
    · rw [hmemory]
      exact hmatch.slots c

end

/-- **Allocation.** Either build obtains what the tally says. -/
theorem allocates (houtcome : MallocOutcome v w R.config t size R.bases R.larges R.places s block) :
    ∃ bases, R.Allocates w size s block bases := by
  have hfull : ∀ {c T}, R.places (.shared c) = [] ∧ (v = .cached → R.places (.cache t c) = []) →
      Matches P.state R.bases P.held T → ¬ T.live c < T.slots c := by
    intro c T hnone hmatch hlt
    rcases (R.live_lt_iff hmatch).mp hlt with hne | ⟨hcached, hne⟩
    · exact hne hnone.1
    · exact hne (hnone.2 hcached)
  cases houtcome with
  | refused hsize hsame hdeclines =>
      refine ⟨_, R.allocates_of_declines hdeclines (hsame.outcomes ▸ List.prefix_rfl) fun A T hmatch _ => ?_⟩
      rw [Tally.take, if_pos hsize, hsame.asked]
      change _ = (⟨{ T with asked := P.state.asked }, none, none⟩ : Taken)
      rw [← hmatch.asked]
  | @reused c capacity a s hsize hfor hfree hsame hdelivers =>
      refine ⟨_, R.allocates_of_delivers hdelivers (hsame.outcomes ▸ List.prefix_rfl) fun A T hmatch _ => ?_⟩
      obtain ⟨g', hinv, -⟩ := hdelivers.inv
      rw [Tally.take_free hsize hfor ((R.live_lt_iff hmatch).mpr hfree)]
      refine ⟨rfl, fun e => ?_, ?_, ?_, newSlab_same R.inv hinv⟩
      · exact (hmatch.slots e).trans (slotTotal_congr hdelivers.slabs).symm
      · exact hmatch.asked.trans hsame.asked.symm
      · exact congrArg some (hdelivers.sized.spanOf hinv.storage hfor)
  | @created c capacity a base free s₀ s₁ s h hsize hfor hnone hbefore hcreate hafter hnew hheader hclass
      hcount hdelivers =>
      have hextends : P.state.mapOutcomes <+: s.mapOutcomes := by
        rw [hafter.2, show P.state.mapOutcomes = s₀.mapOutcomes from hbefore.outcomes.symm]
        exact slabCreate_outcomes hcreate
      refine ⟨_, R.allocates_of_delivers hdelivers hextends fun A T hmatch hagrees => ?_⟩
      obtain ⟨g', hinv, -⟩ := hdelivers.inv
      have hasked := slabCreate_asked hcreate ⟨hagrees.pageSize, hafter.2 ▸ hagrees.maps⟩
      rw [show s₀.asked = T.asked from hbefore.asked.trans hmatch.asked.symm, hbefore.queries, ← hcount,
        Option.map_some] at hasked
      rw [Tally.take_slab hsize hfor (hfull hnone hmatch) hasked]
      refine ⟨rfl, fun e => ?_, ?_, ?_, ?_⟩
      · rw [slotTotal_cons hheader, slotTotal_congr hdelivers.slabs]
        change Function.update T.slots c _ e = _ + slotTotal P.state.memory R.bases e
        rw [← hmatch.slots e, hclass]
        by_cases he : e = c
        · subst he
          rw [Function.update_self, if_pos rfl, Nat.add_comm]
        · rw [Function.update_of_ne he, if_neg (Ne.symm he), Nat.zero_add]
      · rw [State.asked, State.asked, hafter.1, hafter.2]
      · exact congrArg some (hdelivers.sized.spanOf hinv.storage hfor)
      · rw [← hclass]
        exact newSlab_cons R.inv hinv hnew hheader
  | @slabFailed c capacity s₀ s₁ hsize hfor hnone hbefore hcreate hdeclines =>
      have hextends : P.state.mapOutcomes <+: s₁.mapOutcomes := by
        rw [show P.state.mapOutcomes = s₀.mapOutcomes from hbefore.outcomes.symm]
        exact slabCreate_outcomes hcreate
      refine ⟨_, R.allocates_of_declines hdeclines hextends fun A T hmatch hagrees => ?_⟩
      have hasked := slabCreate_asked hcreate ⟨hagrees.pageSize, hagrees.maps⟩
      rw [show s₀.asked = T.asked from hbefore.asked.trans hmatch.asked.symm] at hasked
      exact Tally.take_noSlab hsize hfor (hfull hnone hmatch) hasked
  | @mapped a s hsize hfor hallocate hdelivers =>
      refine ⟨_, R.allocates_of_delivers hdelivers (allocateLarge_outcomes hallocate)
        fun A T hmatch hagrees => ?_⟩
      obtain ⟨g', hinv, -⟩ := hdelivers.inv
      obtain ⟨hasked, hspan⟩ := Prod.mk.inj (allocateLarge_asked hallocate hagrees)
      rw [show State.asked R.config.state = T.asked from hmatch.asked.symm] at hasked hspan
      rw [Tally.take_large hsize hfor]
      refine ⟨rfl, fun e => ?_, hasked.symm, ?_, newSlab_same R.inv hinv⟩
      · exact (hmatch.slots e).trans (slotTotal_congr hdelivers.slabs).symm
      · obtain ⟨span, hknown⟩ := hinv.exists_span List.mem_cons_self
        change spanOf s.memory a = some span at hknown
        rw [Option.bind_some, hknown] at hspan
        rw [hknown]
        exact congrArg (Option.map some) hspan
  | @mapFailed s hsize hfor hallocate hdeclines =>
      refine ⟨_, R.allocates_of_declines hdeclines (allocateLarge_outcomes hallocate)
        fun A T hmatch hagrees => ?_⟩
      have hnull : allocateLarge w P.state t size = (s, blockPayload none) := hallocate
      obtain ⟨hasked, hspan⟩ := Prod.mk.inj (allocateLarge_asked hnull hagrees)
      rw [← hmatch.asked] at hasked hspan
      rw [Tally.take_large hsize hfor, ← hasked, ← hspan]
      rfl

omit [DecidableEq Tid] in
/-- The new block is filled from its start. -/
theorem Allocates.fill {R : Account v t P} {a n : Nat} (halloc : R.Allocates w size s (some a) bases)
    (hn : n ≤ size) (value : Nat → Option UInt8) :
    R.Allocates w size (s.filled a n value) (some a) bases := by
  obtain ⟨larges, g, hinv, hforeign⟩ := halloc.inv
  have hlive : a ∈ (Config.resting s ((some a).toList ++ R.live) R.leaked).live := List.mem_cons_self
  obtain ⟨b, hb⟩ := hinv.exists_block (p := .live) (hinv.live_eq ▸ hlive)
  have hsize : b.requestedSize = size := by
    have hsized := halloc.sized a rfl
    rw [size_eq_some (show s.memory.block a = some b from hb)] at hsized
    exact Option.some.inj hsized
  have hle := (hinv.live_size_le hlive hb).2
  obtain ⟨hinv', hheaders, -⟩ := hinv.overwrite hlive hb (a + sizeofBlock) n value (Nat.le_refl _)
    (by omega)
  have hspan : ∀ x ∈ a :: R.live, spanOf (s.filled a n value).memory x = spanOf s.memory x := by
    intro x hx
    exact hinv.spanOf_congr hx (hheaders.block x (hinv.live_populated hx)) hheaders.slab
  refine ⟨fun x hx => ?_, ⟨larges, g, hinv', hforeign⟩, halloc.outcomes, fun A T hmatch hagrees => ?_⟩
  · obtain rfl := Option.some.inj hx
    rw [Memory.size, show (s.filled a n value).memory.block a = s.memory.block a from
      hheaders.block a (hinv.live_populated hlive)]
    exact halloc.sized a rfl
  · obtain ⟨hmatch', hspan', hcreated⟩ := halloc.tally A T hmatch ⟨hagrees.pageSize, hagrees.maps⟩
    refine ⟨hmatch'.congr hheaders.slab (fun entry hentry => hspan _ ?_) rfl, ?_, ?_⟩
    · exact List.mem_cons_of_mem _ (R.mem_live hentry)
    · rw [← hspan', Option.map_some, Option.map_some, hspan a List.mem_cons_self]
    · rw [← hcreated]
      refine newSlab_congr rfl fun base hbase => hheaders.slab base ?_
      exact List.mem_of_mem_head? (hinv.storage.registry.head?_eq.symm.trans hbase)

end Account

/-! ### The locked build -/

section Locked

variable {size : Nat} {p : Ptr}

theorem malloc_locked (hmalloc : malloc .locked w s t size = some (s', p)) :
    s'.currentState = s.currentState := by
  unfold malloc at hmalloc
  split at hmalloc
  · rw [← (Prod.mk.inj (Option.some.inj hmalloc)).1]
  split at hmalloc
  · rw [← (Prod.mk.inj (Option.some.inj hmalloc)).1]
    rfl
  split at hmalloc
  · exact ((allocateSmallLocked_work hmalloc).sameLifecycle : SameLifecycle none s s').currentState
  · have hwork := allocateLarge_work (Option.some.inj hmalloc)
    exact (hwork.sameLifecycle : SameLifecycle none s s').currentState

theorem free_locked (hfree : free .locked w s t p = some s') : s'.currentState = s.currentState := by
  unfold free at hfree
  split at hfree
  · rw [← Option.some.inj hfree]
  rename_i block _
  obtain ⟨s₁, hblock, heq⟩ := Option.bind_eq_some_iff.mp hfree
  rw [← Option.some.inj heq]
  change s₁.currentState = _
  unfold freeBlock at hblock
  obtain ⟨header, -, hblock⟩ := Option.bind_eq_some_iff.mp hblock
  split at hblock
  · rw [← Option.some.inj hblock]
    exact (osUnmap_lifecycle : SameLifecycle none s _).currentState
  · obtain ⟨slab, -, hblock⟩ := Option.bind_eq_some_iff.mp hblock
    exact (freeSmallLocked_work hblock : ListWork none s s₁).sameLifecycle.currentState

theorem calloc_locked {count : Nat} (hcalloc : calloc .locked w s t count size = some (s', p)) :
    s'.currentState = s.currentState := by
  unfold calloc at hcalloc
  split at hcalloc
  · rw [← (Prod.mk.inj (Option.some.inj hcalloc)).1]
  split at hcalloc
  · rw [← (Prod.mk.inj (Option.some.inj hcalloc)).1]
    rfl
  obtain ⟨⟨s₁, q⟩, hmalloc, heq⟩ := Option.bind_eq_some_iff.mp hcalloc
  have hsame := malloc_locked hmalloc
  cases q with
  | none => rwa [← (Prod.mk.inj (Option.some.inj heq)).1]
  | some a =>
      rw [← (Prod.mk.inj (Option.some.inj heq)).1]
      exact hsame

theorem realloc_locked {q : Ptr} (hrealloc : realloc .locked w s t q size = some (s', p)) :
    s'.currentState = s.currentState := by
  unfold realloc at hrealloc
  split at hrealloc
  · split at hrealloc
    · obtain ⟨s₁, hfree, heq⟩ := Option.bind_eq_some_iff.mp hrealloc
      rw [← (Prod.mk.inj (Option.some.inj heq)).1]
      exact free_locked hfree
    split at hrealloc
    · rw [← (Prod.mk.inj (Option.some.inj hrealloc)).1]
      rfl
    obtain ⟨header, -, hrealloc⟩ := Option.bind_eq_some_iff.mp hrealloc
    obtain ⟨retain, -, hrealloc⟩ := Option.bind_eq_some_iff.mp hrealloc
    split at hrealloc
    · obtain ⟨s₁, hset, heq⟩ := Option.bind_eq_some_iff.mp hrealloc
      rw [← (Prod.mk.inj (Option.some.inj heq)).1]
      exact (setRequestedSize_work hset : ListWork none s s₁).sameLifecycle.currentState
    · obtain ⟨⟨s₁, replacement⟩, hmalloc, hrealloc⟩ := Option.bind_eq_some_iff.mp hrealloc
      have hsame := malloc_locked hmalloc
      cases replacement with
      | none => rwa [← (Prod.mk.inj (Option.some.inj hrealloc)).1]
      | some a =>
          obtain ⟨header, -, hrealloc⟩ := Option.bind_eq_some_iff.mp hrealloc
          obtain ⟨s₂, hfree, heq⟩ := Option.bind_eq_some_iff.mp hrealloc
          rw [← (Prod.mk.inj (Option.some.inj heq)).1]
          exact (free_locked hfree).trans hsame
  · exact malloc_locked hrealloc

omit [DecidableEq Tid] in
theorem Program.keep_state (n : Nat) : (P.keep n s p).state = s := by
  unfold Program.keep
  split
  · rfl
  · rfl

/-- **No lifecycle.** The calls of the locked build leave the lifecycle data alone. -/
theorem Program.perform_locked {n : Nat} {call : ScriptCall}
    (hperform : P.perform .locked w t n call = some (P', p)) :
    P'.state.currentState = P.state.currentState := by
  cases call with
  | malloc size =>
      obtain ⟨⟨s, q⟩, hmalloc, heq⟩ := Option.bind_eq_some_iff.mp hperform
      rw [← (Prod.mk.inj (Option.some.inj heq)).1, Program.keep_state]
      exact malloc_locked hmalloc
  | calloc count size =>
      obtain ⟨⟨s, q⟩, hcalloc, heq⟩ := Option.bind_eq_some_iff.mp hperform
      rw [← (Prod.mk.inj (Option.some.inj heq)).1, Program.keep_state]
      exact calloc_locked hcalloc
  | realloc handle size =>
      obtain ⟨⟨s, q⟩, hrealloc, heq⟩ := Option.bind_eq_some_iff.mp hperform
      have hsame := realloc_locked hrealloc
      dsimp only at heq
      split at heq
      · rwa [← (Prod.mk.inj (Option.some.inj heq)).1]
      · rwa [← (Prod.mk.inj (Option.some.inj heq)).1, Program.keep_state]
  | free handle =>
      obtain ⟨s, hfree, heq⟩ := Option.bind_eq_some_iff.mp hperform
      rw [← (Prod.mk.inj (Option.some.inj heq)).1]
      exact free_locked hfree
  | threadFlush =>
      change some (P, none) = some (P', p) at hperform
      rw [← (Prod.mk.inj (Option.some.inj hperform)).1]

end Locked

/-! ### One call -/

/-- A call has led to `P'` and returned `result`, and the tally moved as `Tally.call` says. -/
structure Account.Performs (R : Account v t P) (w : World) (n : Nat) (call : ScriptCall) (P' : Program Tid)
    (result : Ptr) : Prop where
  outcomes : P.state.mapOutcomes <+: P'.state.mapOutcomes
  account : ∃ R' : Account v t P', ∀ A T, Matches P.state R.bases P.held T → Agrees A w P'.state →
    Matches P'.state R'.bases P'.held (T.call A n call).1 ∧
      P.report P' t (P.argument call) result = (T.call A n call).2

namespace Account

variable (R : Account v t P) {size n handle : Nat} {call : ScriptCall} {block : Ptr}

/-- The account after a call. -/
def next (hinv : Inv (Config.resting P'.state live leaked) bases larges g)
    (hperm : live.Perm (P'.held.map Prod.snd)) (hforeign : Foreign t R.places g)
    (hlocked : v = .locked → P'.state.currentState t ≠ .active) : Account v t P' where
  live := live
  leaked := leaked
  bases := bases
  larges := larges
  places := g
  inv := hinv
  perm := hperm
  alone u hu c := (hforeign (.cache u c) u rfl hu).trans (R.alone u hu c)
  locked := hlocked

theorem locked_next (R : Account v t P) {result : Ptr}
    (hperform : P.perform v w t n call = some (P', result)) :
    v = .locked → P'.state.currentState t ≠ .active := by
  rintro rfl
  rw [Program.perform_locked hperform]
  exact R.locked rfl

theorem performs_of {result : Ptr} (R' : Account v t P')
    (houtcomes : P.state.mapOutcomes <+: P'.state.mapOutcomes)
    (htally : ∀ A T, Matches P.state R.bases P.held T → Agrees A w P'.state →
      Matches P'.state R'.bases P'.held (T.call A n call).1 ∧
        (T.call A n call).1.report result.isNone (result.isSome && result = P.argument call)
            (result.isSome && (P.argument call).isSome && result ≠ P.argument call)
            (Program.newSlab P.state P'.state)
          = (T.call A n call).2) : R.Performs w n call P' result := by
  refine ⟨houtcomes, R', fun A T hmatch hagrees => ?_⟩
  obtain ⟨hmatch', hreport⟩ := htally A T hmatch hagrees
  exact ⟨hmatch', (R'.report_eq hmatch').trans hreport⟩

/-- A call that allocates only. -/
theorem Allocates.performs {R : Account v t P} (halloc : R.Allocates w size s block bases)
    (hperform : P.perform v w t n call = some (P.keep n s (blockPayload block), blockPayload block))
    (hargument : P.argument call = none)
    (hcall : ∀ A T, Matches P.state R.bases P.held T → T.call A n call = T.allocate A n size) :
    R.Performs w n call (P.keep n s (blockPayload block)) (blockPayload block) := by
  obtain ⟨larges, g, hinv, hforeign⟩ := halloc.inv
  have hlocked := R.locked_next hperform
  have hstate : (P.keep n s (blockPayload block)).state = s := P.keep_state n
  have houtcomes : P.state.mapOutcomes <+: (P.keep n s (blockPayload block)).state.mapOutcomes :=
    hstate.symm ▸ halloc.outcomes
  cases block with
  | none =>
      refine R.performs_of (R.next hinv R.perm hforeign hlocked) houtcomes fun A T hmatch hagrees => ?_
      obtain ⟨hmatch', hspan, hcreated⟩ := halloc.tally A T hmatch hagrees
      have hnone : (T.take A size).span = none := Option.map_eq_none_iff.mp hspan.symm
      rw [hcall A T hmatch, Tally.allocate, hnone, hargument, ← hcreated]
      exact ⟨hmatch', rfl⟩
  | some a =>
      have hkeep : P.keep n s (blockPayload (some a)) = ⟨s, (n, a) :: P.held⟩ := by
        rw [Program.keep, blockFromPayload_blockPayload]
      rw [hkeep] at hlocked houtcomes ⊢
      refine R.performs_of (R.next hinv (R.perm.cons a) hforeign hlocked) houtcomes
        fun A T hmatch hagrees => ?_
      obtain ⟨hmatch', hspan, hcreated⟩ := halloc.tally A T hmatch hagrees
      obtain ⟨span, htaken, hknown⟩ := Option.map_eq_some_iff.mp hspan.symm
      have hkept := hmatch'.keep (n := n) hknown.symm
      rw [hcall A T hmatch, Tally.allocate, htaken, hargument, ← hcreated]
      refine ⟨hkept, ?_⟩
      simp

/-- A call that returns null and leaves every block where the program can count it. -/
theorem performs_unchanged {larges' : List Nat} {g' : Place Tid → List Nat}
    (hinv : Inv (Config.resting s R.live R.leaked) R.bases larges' g') (hforeign : Foreign t R.places g')
    (hspans : ∀ entry ∈ P.held, spanOf s.memory entry.2 = spanOf P.state.memory entry.2)
    (hslabs : ∀ base ∈ R.bases, s.memory.slab base = P.state.memory.slab base)
    (hsame : NothingMapped P.state s)
    (hperform : P.perform v w t n call = some ({ P with state := s }, none))
    (hcall : ∀ A T, Matches P.state R.bases P.held T →
      T.call A n call = (T, T.report true false false none)) :
    R.Performs w n call { P with state := s } none := by
  refine R.performs_of (R.next hinv R.perm hforeign (R.locked_next hperform))
    (hsame.outcomes ▸ List.prefix_rfl) fun A T hmatch _ => ?_
  rw [hcall A T hmatch]
  refine ⟨hmatch.congr hslabs hspans hsame.asked, ?_⟩
  rw [show Program.newSlab P.state s = none from newSlab_same R.inv hinv]
  rfl

theorem performs_declined (hdeclines : Declines R.config R.bases R.larges R.places s)
    (hsame : NothingMapped P.state s)
    (hperform : P.perform v w t n call = some ({ P with state := s }, none))
    (hcall : ∀ A T, Matches P.state R.bases P.held T →
      T.call A n call = (T, T.report true false false none)) :
    R.Performs w n call { P with state := s } none := by
  have hmemory : s.memory = P.state.memory := hdeclines.memory
  refine R.performs_unchanged hdeclines.inv (Foreign.refl _ _) ?_ ?_ hsame hperform hcall
  · intro entry _
    rw [hmemory]
  · intro base _
    rw [hmemory]

/-- A call that gives up the block of a handle. -/
theorem performs_released {a : Nat} (hlookup : P.held.lookup handle = some a)
    (hreleases : Releases R.config t a R.bases R.places s)
    (hperform : P.perform v w t n call = some (P.drop s handle, none))
    (hcall : ∀ A T, Matches P.state R.bases P.held T →
      T.call A n call = (T.drop handle, (T.drop handle).report true false false none)) :
    R.Performs w n call (P.drop s handle) none := by
  obtain ⟨leaked', larges', g', hinv, hforeign⟩ := hreleases.inv
  have hperm : (R.live.erase a).Perm ((P.drop s handle).held.map Prod.snd) :=
    (R.perm.erase a).trans (eraseP_perm hlookup).symm
  refine R.performs_of (R.next hinv hperm hforeign (R.locked_next hperform))
    (hreleases.same.outcomes ▸ List.prefix_rfl) fun A T hmatch _ => ?_
  have hspans : ∀ entry ∈ P.held.eraseP fun entry => entry.1 == handle,
      spanOf s.memory entry.2 = spanOf P.state.memory entry.2 := by
    intro entry hentry
    have hlive : entry.2 ∈ R.live.erase a := hperm.mem_iff.mpr (List.mem_map_of_mem hentry)
    exact R.inv.spanOf_congr (List.mem_of_mem_erase hlive) (hreleases.keeps.block _ hlive) hreleases.slabs
  rw [hcall A T hmatch]
  refine ⟨(hmatch.drop handle).congr hreleases.slabs hspans hreleases.same.asked, ?_⟩
  rw [show Program.newSlab P.state (P.drop s handle).state = none from newSlab_same R.inv hinv]
  rfl

section

omit [DecidableEq Tid]

/-- Whether a resize keeps the block is decided by what the tally knows of it. -/
theorem reallocCanRetain_eq {a : Nat} {b : Block} {span : Span} (hb : s.memory.block a = some b)
    (hspan : spanOf s.memory a = some span) (size : Nat) :
    reallocCanRetain s b size = some (span.retains size) := by
  rw [spanOf, hb, Option.bind_eq_bind, Option.bind_some] at hspan
  rw [reallocCanRetain]
  cases hkind : b.kind with
  | large =>
      rw [hkind] at hspan
      rw [← Option.some.inj hspan]
      rfl
  | small =>
      rw [hkind] at hspan
      obtain ⟨slab, hslab, heq⟩ := Option.bind_eq_some_iff.mp hspan
      rw [← Option.some.inj heq]
      cases hfor : sizeClassFor size with
      | none => simp [Span.retains, hfor]
      | some entry => simp [Span.retains, hfor, hslab]

theorem lookup_span {handle a : Nat} (hmatch : Matches s bases held T)
    (hlookup : held.lookup handle = some a) :
    ∃ span, T.held.lookup handle = some span ∧ spanOf s.memory a = some span := by
  have hsame := lookup_sameHandle hmatch.held handle
  rw [hlookup, Option.map_some] at hsame
  cases hspan : T.held.lookup handle with
  | none => simp [hspan] at hsame
  | some span =>
      rw [hspan, Option.map_some] at hsame
      exact ⟨span, rfl, Option.some.inj hsame⟩

/-- A resize is decided alike by the block and by the tally. -/
theorem lookup_retains {handle a : Nat} {b : Block} {retain : Bool} (hmatch : Matches s bases held T)
    (hlookup : held.lookup handle = some a) (hb : s.memory.block a = some b)
    (hretain : reallocCanRetain s b size = some retain) :
    ∃ span, T.held.lookup handle = some span ∧ spanOf s.memory a = some span ∧ span.retains size = retain := by
  obtain ⟨span, hheld, hknown⟩ := lookup_span hmatch hlookup
  rw [reallocCanRetain_eq hb hknown] at hretain
  exact ⟨span, hheld, hknown, Option.some.inj hretain⟩

theorem lookup_span_none {handle : Nat} (hmatch : Matches s bases held T)
    (hlookup : held.lookup handle = none) : T.held.lookup handle = none := by
  have hsame := lookup_sameHandle hmatch.held handle
  rw [hlookup] at hsame
  cases hspan : T.held.lookup handle with
  | none => rfl
  | some span => simp [hspan] at hsame

theorem argument_realloc {a : Nat} (hlookup : P.held.lookup handle = some a) :
    P.argument (.realloc handle size) = blockPayload (some a) := by
  rw [Program.argument, Program.pointer, hlookup]

theorem keep_drop (s : State Tid) (a : Nat) :
    (P.drop s handle).keep n s (blockPayload (some a))
      = ⟨s, (n, a) :: P.held.eraseP fun entry => entry.1 == handle⟩ := by
  rw [Program.keep, blockFromPayload_blockPayload]
  rfl

end

/-- A resize in place. -/
theorem performs_retained {a : Nat} {b : Block} {m : Memory} (hlookup : P.held.lookup handle = some a)
    (hsize : 0 < size ∧ size ≤ ptrdiffMax) (hb : P.state.memory.block a = some b)
    (hretain : reallocCanRetain P.state b size = some true)
    (hset : P.state.memory.setRequestedSize a size = some m) (hframe : Framed [a] P.state.memory m)
    (hinv : Inv (Config.resting { P.state with memory := m } R.live R.leaked) R.bases R.larges R.places)
    (hperform : P.perform v w t n (.realloc handle size)
      = some (⟨{ P.state with memory := m }, (n, a) :: P.held.eraseP fun entry => entry.1 == handle⟩,
          blockPayload (some a))) :
    R.Performs w n (.realloc handle size)
      ⟨{ P.state with memory := m }, (n, a) :: P.held.eraseP fun entry => entry.1 == handle⟩
      (blockPayload (some a)) := by
  have hspan : ∀ x, spanOf m x = spanOf P.state.memory x := by
    intro x
    by_cases hx : x = a
    · subst hx
      rw [Memory.setRequestedSize, modifyBlock_eq hb] at hset
      have hblock : m.block x = some { b with requestedSize := size } := by
        rw [← Option.some.inj hset]
        exact Function.update_self _ _ _
      simp only [spanOf, hblock, hb, hframe.slab, Option.bind_eq_bind, Option.bind_some]
    · have hout : x ∉ [a] := fun hmem => hx (List.mem_singleton.mp hmem)
      simp only [spanOf, hframe.block x hout, hframe.slab]
  have hperm : R.live.Perm
      (a :: (P.held.eraseP fun entry => entry.1 == handle).map Prod.snd) :=
    calc List.Perm R.live (P.held.map Prod.snd) := R.perm
      List.Perm _ (a :: (P.held.map Prod.snd).erase a) := List.perm_cons_erase (lookup_mem hlookup)
      List.Perm _ (a :: (P.held.eraseP fun entry => entry.1 == handle).map Prod.snd) :=
        (eraseP_perm hlookup).symm.cons a
  refine R.performs_of (R.next hinv hperm (Foreign.refl _ _) (R.locked_next hperform)) List.prefix_rfl
    fun A T hmatch _ => ?_
  obtain ⟨span, hheld, hknown, hretains⟩ := lookup_retains hmatch hlookup hb hretain
  have hcall : T.call A n (.realloc handle size)
      = ((T.drop handle).keep n (some span),
          ((T.drop handle).keep n (some span)).report false true false none) := by
    rw [Tally.call, hheld]
    dsimp only
    rw [if_neg (by omega), if_neg (by omega), if_pos hretains]
  have hmatch' : Matches { P.state with memory := m } R.bases P.held T :=
    hmatch.congr (fun base _ => congrFun hframe.slab base) (fun entry _ => hspan entry.2) rfl
  rw [hcall]
  refine ⟨(hmatch'.drop handle).keep ((hspan a).trans hknown), ?_⟩
  rw [argument_realloc hlookup, show Program.newSlab P.state { P.state with memory := m } = none from if_pos rfl]
  simp

/-- A resize that cannot stay in place and gets no other block. -/
theorem Allocates.performs_failed {R : Account v t P} {a : Nat} {b : Block}
    (halloc : R.Allocates w size s none bases) (hlookup : P.held.lookup handle = some a)
    (hsize : 0 < size ∧ size ≤ ptrdiffMax) (hb : P.state.memory.block a = some b)
    (hretain : reallocCanRetain P.state b size = some false)
    (hperform : P.perform v w t n (.realloc handle size) = some ({ P with state := s }, none)) :
    R.Performs w n (.realloc handle size) { P with state := s } none := by
  obtain ⟨larges, g, hinv, hforeign⟩ := halloc.inv
  refine R.performs_of (R.next hinv R.perm hforeign (R.locked_next hperform)) halloc.outcomes
    fun A T hmatch hagrees => ?_
  obtain ⟨hmatch', hspan, hcreated⟩ := halloc.tally A T hmatch hagrees
  obtain ⟨span, hheld, -, hretains⟩ := lookup_retains hmatch hlookup hb hretain
  have hnone : (T.take A size).span = none := Option.map_eq_none_iff.mp hspan.symm
  have hcall : T.call A n (.realloc handle size)
      = ((T.take A size).tally,
          (T.take A size).tally.report true false false (T.take A size).created) := by
    rw [Tally.call, hheld]
    dsimp only
    rw [if_neg (by omega), if_neg (by omega), if_neg (by simp [hretains]), hnone]
  rw [hcall, ← hcreated]
  exact ⟨hmatch', rfl⟩

/-- A resize that moves the block. -/
theorem Allocates.performs_moved {R : Account v t P} {a a' : Nat} {b : Block} {g' : Place Tid → List Nat}
    (halloc : R.Allocates w size s (some a') bases) (hlookup : P.held.lookup handle = some a)
    (hsize : 0 < size ∧ size ≤ ptrdiffMax) (hb : P.state.memory.block a = some b)
    (hretain : reallocCanRetain P.state b size = some false) (hne : a' ≠ a)
    (hinv : Inv (Config.resting s (a' :: R.live) R.leaked) bases larges g')
    (hforeign : Foreign t R.places g')
    (hreleases : Releases (Config.resting s (a' :: R.live) R.leaked) t a bases g' s')
    (hperform : P.perform v w t n (.realloc handle size)
      = some (⟨s', (n, a') :: P.held.eraseP fun entry => entry.1 == handle⟩, blockPayload (some a'))) :
    R.Performs w n (.realloc handle size) ⟨s', (n, a') :: P.held.eraseP fun entry => entry.1 == handle⟩
      (blockPayload (some a')) := by
  obtain ⟨leaked', larges', g'', hinv', hforeign'⟩ := hreleases.inv
  have herase : (a' :: R.live).erase a = a' :: R.live.erase a := List.erase_cons_tail (by simpa using hne)
  have hperm : (R.live.erase a).Perm ((P.held.eraseP fun entry => entry.1 == handle).map Prod.snd) :=
    (R.perm.erase a).trans (eraseP_perm hlookup).symm
  have hinv'' : Inv (Config.resting s' (a' :: R.live.erase a) leaked') bases larges' g'' := by
    rw [← herase]
    exact hinv'
  have houtcomes : s'.mapOutcomes = s.mapOutcomes := hreleases.same.outcomes
  refine R.performs_of (R.next hinv'' (hperm.cons a') (hforeign.trans hforeign') (R.locked_next hperform))
    (houtcomes ▸ halloc.outcomes) fun A T hmatch hagrees => ?_
  obtain ⟨hmatch', hspan, hcreated⟩ := halloc.tally A T hmatch ⟨hagrees.pageSize, houtcomes ▸ hagrees.maps⟩
  obtain ⟨span, hheld, -, hretains⟩ := lookup_retains hmatch hlookup hb hretain
  obtain ⟨span', htaken, hspan'⟩ := Option.map_eq_some_iff.mp hspan.symm
  have hcall : T.call A n (.realloc handle size)
      = (((T.take A size).tally.drop handle).keep n (some span'),
          (((T.take A size).tally.drop handle).keep n (some span')).report false false true
            (T.take A size).created) := by
    rw [Tally.call, hheld]
    dsimp only
    rw [if_neg (by omega), if_neg (by omega), if_neg (by simp [hretains]), htaken]
  -- The blocks that stay are the same before and after the old one is released.
  have hkept : ∀ x ∈ a' :: R.live.erase a, spanOf s'.memory x = spanOf s.memory x := by
    intro x hx
    rw [← herase] at hx
    exact hinv.spanOf_congr (List.mem_of_mem_erase hx) (hreleases.keeps.block x hx) hreleases.slabs
  have hdropped := (hmatch'.drop handle).congr hreleases.slabs
    (fun entry hentry => hkept _ (List.mem_cons_of_mem _
      (hperm.mem_iff.mpr (List.mem_map_of_mem hentry)))) hreleases.same.asked
  have hnew : Program.newSlab P.state s' = Program.newSlab P.state s := by
    have hslabs : s.slabs = bases.head? := hinv.storage.registry.head?_eq
    refine newSlab_congr (hinv''.storage.registry.head?_eq.trans hslabs.symm) fun base hbase => ?_
    exact hreleases.slabs base (List.mem_of_mem_head? (hslabs.symm.trans hbase))
  rw [hcall, argument_realloc hlookup, ← hcreated, ← hnew]
  refine ⟨hdropped.keep ((hkept a' List.mem_cons_self).trans hspan'.symm), ?_⟩
  simp [hne]

/-! ### Every call -/

theorem performs_malloc (w : World) (n size : Nat) :
    ∃ P' result, P.perform v w t n (.malloc size) = some (P', result) ∧
      R.Performs w n (.malloc size) P' result := by
  obtain ⟨s, block, hmalloc, houtcome⟩ := R.inv.malloc v w (t := t) rfl size
  change malloc v w P.state t size = _ at hmalloc
  obtain ⟨bases, halloc⟩ := R.allocates houtcome
  have hperform : P.perform v w t n (.malloc size)
      = some (P.keep n s (blockPayload block), blockPayload block) := by
    simp only [Program.perform, hmalloc, Option.bind_eq_bind, Option.bind_some]
  exact ⟨_, _, hperform, halloc.performs hperform rfl fun A T _ => rfl⟩

theorem performs_calloc (w : World) (n count size : Nat) :
    ∃ P' result, P.perform v w t n (.calloc count size) = some (P', result) ∧
      R.Performs w n (.calloc count size) P' result := by
  obtain ⟨s, block, hcalloc, houtcome⟩ := R.inv.calloc v w (t := t) rfl count size
  change calloc v w P.state t count size = _ at hcalloc
  have hperform : P.perform v w t n (.calloc count size)
      = some (P.keep n s (blockPayload block), blockPayload block) := by
    simp only [Program.perform, hcalloc, Option.bind_eq_bind, Option.bind_some]
  refine ⟨_, _, hperform, ?_⟩
  have hproduct : ∀ {A T total}, count ≠ 0 ∧ size ≠ 0 → sizeMultiply count size = some total →
      Tally.call A T n (.calloc count size) = T.allocate A n total := by
    intro A T total hsize hproduct
    rw [Tally.call, if_neg (not_or.mpr hsize), hproduct]
  cases houtcome with
  | refused hsize hsame hdeclines =>
      apply R.performs_declined hdeclines hsame hperform
      intro A T _
      rw [Tally.call]
      split
      · rfl
      · rename_i hnonzero
        rcases hsize with h | h | h
        · exact absurd (Or.inl h) hnonzero
        · exact absurd (Or.inr h) hnonzero
        · rw [h]
  | failed hsize hmultiply hmalloc =>
      obtain ⟨bases, halloc⟩ := R.allocates hmalloc
      exact halloc.performs hperform rfl fun A T _ => hproduct hsize hmultiply
  | cleared hsize hmultiply hmalloc =>
      obtain ⟨bases, halloc⟩ := R.allocates hmalloc
      exact (halloc.fill (Nat.le_refl _) _).performs hperform rfl fun A T _ => hproduct hsize hmultiply

theorem performs_free (w : World) (n handle : Nat) :
    ∃ P' result, P.perform v w t n (.free handle) = some (P', result) ∧
      R.Performs w n (.free handle) P' result := by
  cases hlookup : P.held.lookup handle with
  | none =>
      -- The null pointer: nothing is freed and no handle is dropped.
      have hdrop : P.drop P.state handle = { P with state := P.state } := by
        rw [Program.drop, eraseP_of_lookup_none hlookup]
      have hperform : P.perform v w t n (.free handle) = some ({ P with state := P.state }, none) := by
        rw [Program.perform, Program.pointer, hlookup]
        exact congrArg (fun P' => some (P', none)) hdrop
      refine ⟨_, _, hperform, R.performs_unchanged R.inv (Foreign.refl _ _) (fun _ _ => rfl)
        (fun _ _ => rfl) (.refl _) hperform fun A T hmatch => ?_⟩
      have hheld : T.drop handle = T := by
        rw [Tally.drop, eraseP_of_lookup_none (lookup_span_none hmatch hlookup)]
      rw [Tally.call, hheld]
  | some a =>
      obtain ⟨s, hfree, hreleases⟩ := R.inv.free v w (t := t) rfl (R.lookup_live hlookup) (R.not_busy a)
      change free v w P.state t _ = _ at hfree
      have hperform : P.perform v w t n (.free handle) = some (P.drop s handle, none) := by
        simp only [Program.perform, Program.pointer, hlookup, hfree, Option.bind_eq_bind, Option.bind_some]
      exact ⟨_, _, hperform, R.performs_released hlookup hreleases hperform fun A T _ => rfl⟩

theorem performs_threadFlush (w : World) (n : Nat) :
    ∃ P' result, P.perform v w t n .threadFlush = some (P', result) ∧
      R.Performs w n .threadFlush P' result := by
  obtain ⟨s, g', hflush, hquiet, hinv, hforeign⟩ := R.inv.threadFlush v (t := t) rfl
  change threadFlush v P.state t = _ at hflush
  have hperform : P.perform v w t n .threadFlush = some ({ P with state := s }, none) := by
    simp only [Program.perform, hflush, Option.bind_eq_bind, Option.bind_some]
  have hslabs : ∀ base ∈ R.bases, s.memory.slab base = P.state.memory.slab base :=
    fun base _ => congrFun hquiet.slab base
  exact ⟨_, _, hperform, R.performs_unchanged hinv hforeign (R.spans_kept hquiet.keepsLive hslabs) hslabs
    hquiet.lists.nothingMapped hperform fun A T _ => rfl⟩

theorem performs_realloc (w : World) (n handle size : Nat) :
    ∃ P' result, P.perform v w t n (.realloc handle size) = some (P', result) ∧
      R.Performs w n (.realloc handle size) P' result := by
  cases hlookup : P.held.lookup handle with
  | none =>
      -- A resize of the null pointer is an allocation.
      obtain ⟨s, block, hmalloc, houtcome⟩ := R.inv.malloc v w (t := t) rfl size
      change malloc v w P.state t size = _ at hmalloc
      obtain ⟨bases, halloc⟩ := R.allocates houtcome
      have hrealloc : realloc v w P.state t (P.pointer handle) size = some (s, blockPayload block) := by
        rw [Program.pointer, hlookup]
        exact hmalloc
      have hperform : P.perform v w t n (.realloc handle size)
          = some (P.keep n s (blockPayload block), blockPayload block) := by
        simp only [Program.perform, hrealloc, Option.bind_eq_bind, Option.bind_some, Program.drop,
          eraseP_of_lookup_none hlookup]
        split
        · rename_i hnull
          rw [hnull.1]
          rfl
        · rfl
      refine ⟨_, _, hperform, halloc.performs hperform ?_ fun A T hmatch => ?_⟩
      · rw [Program.argument, Program.pointer, hlookup]
        rfl
      · rw [Tally.call, lookup_span_none hmatch hlookup]
  | some a =>
      obtain ⟨s, block, hrealloc, houtcome⟩ := R.inv.realloc v w (t := t) rfl (R.lookup_live hlookup)
        (R.not_busy a) size
      change realloc v w P.state t _ size = _ at hrealloc
      have hperform : P.perform v w t n (.realloc handle size)
          = if blockPayload block = none ∧ size ≠ 0 then
              some ({ P with state := s }, blockPayload block)
            else
              some ((P.drop s handle).keep n s (blockPayload block), blockPayload block) := by
        simp only [Program.perform, Program.pointer, hlookup, hrealloc, Option.bind_eq_bind,
          Option.bind_some]
      cases houtcome with
      | released hsize hreleases =>
          rw [if_neg (fun h => h.2 hsize)] at hperform
          refine ⟨_, _, hperform, R.performs_released hlookup hreleases hperform fun A T hmatch => ?_⟩
          obtain ⟨span, hheld, -⟩ := lookup_span hmatch hlookup
          rw [Tally.call, hheld]
          exact if_pos hsize
      | refused hsize hsame hdeclines =>
          have hpos : size ≠ 0 := by omega
          rw [if_pos ⟨rfl, hpos⟩] at hperform
          refine ⟨_, _, hperform, R.performs_declined hdeclines hsame hperform fun A T hmatch => ?_⟩
          obtain ⟨span, hheld, -⟩ := lookup_span hmatch hlookup
          rw [Tally.call, hheld]
          dsimp only
          rw [if_neg hpos, if_pos hsize]
      | retained hsize hb hretain hset hframe hinv =>
          rw [if_neg (by simp), keep_drop] at hperform
          exact ⟨_, _, hperform, R.performs_retained hlookup hsize hb hretain hset hframe hinv hperform⟩
      | failed hsize hb hretain hmalloc =>
          have hpos : size ≠ 0 := by omega
          obtain ⟨bases, halloc⟩ := R.allocates hmalloc
          rw [if_pos ⟨rfl, hpos⟩] at hperform
          exact ⟨_, _, hperform, halloc.performs_failed hlookup hsize hb hretain hperform⟩
      | @moved b a' s₁ s bases' larges' g' hsize hb hretain hmalloc hdelivers hinv hforeign hreleases =>
          obtain ⟨bases, halloc⟩ := R.allocates hmalloc
          have hfilled := halloc.fill (Nat.min_le_right b.requestedSize size)
            fun i => s₁.memory.byte (a + sizeofBlock + i)
          obtain ⟨_, _, hinv', -⟩ := hfilled.inv
          obtain rfl := hinv'.storage.registry.unique hinv.storage.registry
          have hne : a' ≠ a := fun heq => hdelivers.fresh (heq ▸ R.lookup_live hlookup)
          rw [if_neg (by simp), keep_drop] at hperform
          exact ⟨_, _, hperform, hfilled.performs_moved hlookup hsize hb hretain hne hinv hforeign hreleases
            hperform⟩

/-- **One call.** It returns, and moves the tally as `Tally.call` says. -/
theorem performs (w : World) (n : Nat) (call : ScriptCall) :
    ∃ P' result, P.perform v w t n call = some (P', result) ∧ R.Performs w n call P' result := by
  cases call with
  | malloc size => exact R.performs_malloc w n size
  | calloc count size => exact R.performs_calloc w n count size
  | realloc handle size => exact R.performs_realloc w n handle size
  | free handle => exact R.performs_free w n handle
  | threadFlush => exact R.performs_threadFlush w n

/-- Before any call nothing is held and nothing is free. -/
def initial (v : Variant) (t : Tid) : Account v t (Program.initial : Program Tid) where
  live := []
  leaked := []
  bases := []
  larges := []
  places := fun _ => []
  inv := Inv.initial
  perm := List.Perm.refl _
  alone _ _ _ := rfl
  locked _ h := by simp [Program.initial, State.initial] at h

end Account

omit [DecidableEq Tid] in
theorem Matches.initial : Matches (State.initial : State Tid) [] [] Tally.initial where
  held := .nil
  slots _ := rfl
  asked := rfl

/-- **A whole program.** It runs to its end, and shows what the tally of the answers it got shows. -/
theorem Account.runs (w : World) (script : List ScriptCall) :
    ∀ {P : Program Tid} (n : Nat) (R : Account v t P), ∃ P' reports,
      Program.run v w t n P script = some (P', reports) ∧ P.state.mapOutcomes <+: P'.state.mapOutcomes ∧
      ∀ A T, Matches P.state R.bases P.held T → Agrees A w P'.state → reports = (T.run A n script).2 := by
  induction script with
  | nil =>
      intro P n R
      exact ⟨P, [], rfl, List.prefix_rfl, fun A T _ _ => rfl⟩
  | cons call rest ih =>
      intro P n R
      obtain ⟨P₁, result, hperform, hperforms⟩ := R.performs w n call
      obtain ⟨R₁, htally⟩ := hperforms.account
      obtain ⟨P', reports, hrun, hextends, hreports⟩ := ih (n + 1) R₁
      refine ⟨P', P.report P₁ t (P.argument call) result :: reports, ?_,
        hperforms.outcomes.trans hextends, fun A T hmatch hagrees => ?_⟩
      · rw [Program.run]
        simp only [hperform, hrun, Option.bind_eq_bind, Option.bind_some]
      · -- The answers at the end of the run are those the first call got.
        obtain ⟨hmatch', hreport⟩ := htally A T hmatch (hagrees.of_prefix hextends)
        rw [hreport, hreports A _ hmatch' hagrees]
        rfl

end Hplf
