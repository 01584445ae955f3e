import HplfMalloc.Proof.TrimSteps

/-!
# The registry loop of a trim

Each turn of the loop keeps the slab it looks at, fails to release it, or releases it. A whole run of the
loop releases exactly the slabs that are free and whose unmapping succeeds, in registry order.
-/

namespace Hplf

open Lib Memory

variable {Tid : Type} [DecidableEq Tid]
variable {k : Config Tid} {t : Tid} {larges : List Nat} {g : Place Tid → List Nat}
variable {done rest : List Nat} {base : Nat} {h : Slab}

theorem Memory.Framed.exists_nextFree {nodes : List Nat} {m m' : Memory} (hframe : Framed nodes m m')
    (hsize : m'.size = m.size) {a : Nat} {b : Block} (hb : m.block a = some b) :
    ∃ next, m'.block a = some { b with nextFree := next } := by
  obtain ⟨b', hb', howner, hcapacity, hkind⟩ := hframe.exists_block hb
  have hrequested : b'.requestedSize = b.requestedSize := by
    have heq := congrFun hsize a
    rwa [size_eq_some hb, size_eq_some hb', Option.some.injEq] at heq
  refine ⟨b'.nextFree, ?_⟩
  rw [hb', ← howner, ← hcapacity, ← hkind, ← hrequested]

/-- The configuration after the slab with header `h` has been unmapped. -/
def Config.released (k : Config Tid) (h : Slab) (m : Memory) (slabs : Ptr)
    (heads : ClassIndex → Ptr) : Config Tid :=
  { k with state := { k.state with
      memory := m.clobber h.mapping.base h.mapping.length
      mapped := k.state.mapped.erase h.mapping
      slabs := slabs
      sharedHeads := heads
      unmapCalls := k.state.unmapCalls ++ [h.mapping] } }

/-- **Releasing.** The slab is unlinked, its blocks have left the list, and its region is unmapped. -/
theorem Inv.trims_release {m m₁ : Memory} {slabs head : Ptr} {ys : List Nat}
    (hinv : Inv k (done ++ base :: rest) larges g) (hh : k.state.memory.slab base = some h)
    (hall : allFree k.state.memory (sharedLists g) base = true)
    (hframe : Framed (g (.shared h.classIndex)) k.state.memory m₁)
    (hsize : m₁.size = k.state.memory.size) (hsame : SameSlabs m₁ m)
    (hregistry : Chain m.slabNext slabs (done ++ rest)) (hchain : Chain m.next head ys)
    (hperm : ys.Perm ((g (.shared h.classIndex)).filter
      fun a => !ownedBy k.state.memory base a)) (t : Tid) :
    SameHeaders (done ++ rest) larges m (m.clobber h.mapping.base h.mapping.length) ∧
      Trims k (k.released h m slabs (Function.update k.state.sharedHeads h.classIndex head))
        (done ++ base :: rest) (done ++ rest) larges g
        (Function.update g (.shared h.classIndex) ys) [base] := by
  have hunlinked := hinv.unlinkSlab hh hall hframe hsize hsame hregistry hchain hperm t
  have hapart : ∀ r' ∈ slabMappings m (done ++ rest) ++ largeMappings m larges,
      h.mapping.Apart r' := fun r' hr' =>
    (hunlinked.storage.leaked_apart hr' List.mem_cons_self).symm
  have hheaders := hunlinked.storage.sameHeaders_of_apart
    (SameOutside.clobber m h.mapping.base h.mapping.length) hapart
  have hnotMem : base ∉ done ++ rest :=
    (List.nodup_cons.mp (List.nodup_middle.mp hinv.storage.registry.nodup)).1
  have hreleased : Inv (k.released h m slabs (Function.update k.state.sharedHeads h.classIndex head))
      (done ++ rest) larges (Function.update g (.shared h.classIndex) ys) := by
    refine (hunlinked.unmap List.mem_cons_self).congr
      ⟨rfl, rfl, rfl, rfl, rfl, rfl, rfl, rfl, rfl, rfl, rfl, rfl, ?_⟩
    exact (List.erase_cons_head ..).symm
  refine ⟨hheaders, hreleased, ?_, fun c => ?_, fun p hp => ?_, fun base' hbase' => ?_, fun a ha => ?_,
    fun p hp a ha => ?_, ?_, _, _, _, _, _, _, rfl⟩
  · rw [List.filter_append, List.filter_cons_of_neg (by simp), ← List.filter_append, eq_comm,
      List.filter_eq_self]
    intro base' hbase'
    have hne : base' ≠ base := fun heq => hnotMem (heq ▸ hbase')
    simpa using hne
  · by_cases hc : c = h.classIndex
    · subst hc
      rw [Function.update_self]
      refine hperm.trans (List.Perm.of_eq ?_)
      simp [without]
    · rw [Function.update_of_ne (by simpa using hc), without, List.filter_eq_self.mpr]
      intro a ha
      -- The blocks of the slab are all on the list of its own class.
      have hnot : a ∉ h.slots base := fun hslot => hc (by
        simpa using hinv.placed.disjoint ha ((allFree_iff hh).mp hall a hslot))
      have howned := (hinv.storage.ownedBy_iff (by simp) hh (hinv.free_of_shared ha).1).not.mpr hnot
      simpa using howned
  · exact Function.update_of_ne (hp h.classIndex) _ _
  · obtain ⟨h₁, hh₁, -⟩ := hunlinked.storage.slab base' hbase'
    obtain ⟨h₀, next, hh₀, rfl⟩ := hsame.of_header hh₁
    exact ⟨h₀, next, hframe.slab ▸ hh₀, (hheaders.slab base' hbase').trans hh₁⟩
  · have hpop : Populated m (done ++ rest) larges a :=
      ha.imp_left (Exists.imp fun c => (hheaders.inClass_iff c a).mp)
    have hold : Populated k.state.memory (done ++ base :: rest) larges a := by
      refine hpop.imp_left (Exists.imp fun c hc => ?_)
      exact ((hinv.storage.inClass_unlinked hh hframe.slab hsame c a).mp hc).1
    obtain ⟨b, -, hb, -⟩ := hinv.storage.extent hold
    obtain ⟨next, hnext⟩ := hframe.exists_nextFree hsize hb
    refine ⟨b, next, hb, (hheaders.block a hpop).trans ?_⟩
    rw [hsame.block, hnext]
  · have hnot : a ∉ g (.shared h.classIndex) := fun hmem =>
      hp h.classIndex (hinv.placed.disjoint ha hmem)
    have ha' : a ∈ Function.update g (.shared h.classIndex) ys p := by
      rwa [Function.update_of_ne (hp h.classIndex)]
    apply (hheaders.block a (hunlinked.populated ha')).trans
    rw [hsame.block, hframe.block a hnot]
  · have hlive : KeepsLive k m := by
      refine ⟨fun a ha => ?_, fun a ha b hb i hi => by rw [hsame.byte, hframe.byte]⟩
      rw [hsame.block, hframe.block a fun hmem => hinv.not_live (by simp) hmem ha]
    refine KeepsLive.trans ?_ ?_
      (hunlinked.keepsLive_of_apart (SameOutside.clobber m _ _) hapart)
    · exact hlive
    · rfl

/-- The configuration after a failed unmap: the list has been rearranged. -/
def Config.rearranged (k : Config Tid) (m : Memory) (heads : ClassIndex → Ptr) (errno : Tid → Errno)
    (h : Slab) : Config Tid :=
  { k with state := { k.state with
      memory := m
      sharedHeads := heads
      errno := errno
      unmapCalls := k.state.unmapCalls ++ [h.mapping] } }

/-- **Restoring.** Rearranging the list of one class is all a failed unmap leaves behind. -/
theorem Inv.trims_restore {bases : List Nat} {m : Memory} {head : Ptr} {ys : List Nat}
    (hinv : Inv k bases larges g) (hidle : k.pc t = .idle)
    (hframe : Framed (g (.shared h.classIndex)) k.state.memory m)
    (hsize : m.size = k.state.memory.size) (hchain : Chain m.next head ys)
    (hperm : ys.Perm (g (.shared h.classIndex))) (errno : Tid → Errno) :
    Trims k (k.rearranged m (Function.update k.state.sharedHeads h.classIndex head) errno h)
      bases bases larges g (Function.update g (.shared h.classIndex) ys) [] := by
  have hmine : g (.inflight t) = [] := hinv.carries_at hidle
  have hlists : replace₂ g (.shared h.classIndex) (.inflight t) ys []
      = Function.update g (.shared h.classIndex) ys := by
    rw [replace₂, ← hmine, Function.update_eq_self_iff, Function.update_of_ne (by simp)]
  have hinv' := hinv.exchangeShared (t := t) .idle [] hframe hchain
    (fun a ha => ?_) (by simpa [hmine] using hperm) (fun a ha => Or.inl ha)
    (by rw [hidle]; exact ⟨rfl, fun _ h => h, Iff.rfl⟩) (by rw [hidle]) (fun e he => he.elim) trivial
    rfl (by simp)
  · rw [hlists] at hinv'
    refine ⟨hinv'.congr ⟨rfl, rfl, rfl, rfl, rfl, rfl, rfl, rfl, rfl, ?_, rfl, rfl, rfl⟩, by simp,
      fun c => ?_, fun p hp => ?_, fun base' hbase' => ?_, fun a ha => ?_, fun p hp a ha => ?_, ?_,
      _, _, _, _, _, _, rfl⟩
    · change k.pc = Function.update k.pc t .idle
      rw [← hidle, Function.update_eq_self]
    · rw [without_nil]
      by_cases hc : c = h.classIndex
      · subst hc
        rwa [Function.update_self]
      · rw [Function.update_of_ne (by simpa using hc)]
    · exact Function.update_of_ne (hp h.classIndex) _ _
    · obtain ⟨h₀, hh₀, -⟩ := hinv.storage.slab base' hbase'
      exact ⟨h₀, h₀.next, hh₀, (congrFun hframe.slab base').trans hh₀⟩
    · have hpop : Populated k.state.memory bases larges a :=
        ha.imp_left (Exists.imp fun c hc => hc.congr hframe.slab.symm)
      obtain ⟨b, -, hb, -⟩ := hinv.storage.extent hpop
      obtain ⟨next, hnext⟩ := hframe.exists_nextFree hsize hb
      exact ⟨b, next, hb, hnext⟩
    · exact hframe.block a fun hmem => hp h.classIndex (hinv.placed.disjoint ha hmem)
    · refine ⟨fun a ha => hframe.block a fun hmem => hinv.not_live (by simp) hmem ha,
        fun a ha b hb i hi => ?_⟩
      change m.byte _ = _
      rw [hframe.byte]
  · have hfree := hinv.free_of_shared (hperm.mem_iff.mp ha)
    exact hfree.congr hframe.slab (congrFun hsize a)

/-- The course of a turn whose unmap succeeds. -/
theorem trimLoop_released {w : World} {s s₁ s₂ : State Tid} {freeLists : ClassIndex → Ptr}
    {link : RegistryLink} {m : Memory} {removed remaining : Ptr} {fuel total bytes : Nat}
    (hread : readLink s link = some (some base)) (hh : s.memory.slab base = some h)
    (hcount : slabFreeCount s.memory base freeLists = some h.slotCount)
    (hdetach : detachSlabBlocks s.memory base freeLists = some (m, removed, remaining))
    (hwrite : writeLink { s with memory := m } link h.next = some s₁)
    (hunmap : osUnmap w s₁ t h.mapping = (s₂, some bytes)) :
    trimLoop w t (fuel + 1) s freeLists link total
      = trimLoop w t fuel s₂ (Function.update freeLists h.classIndex remaining) link
        ((sizeAdd total bytes).getD sizeMax) := by
  rw [trimLoop, hread]
  simp only [Option.bind_eq_bind, Option.bind_some, hh, hcount, ne_eq, not_true_eq_false, if_false,
    hdetach, hwrite]
  rw [show (⟨h.mappingBase, h.mappingLength⟩ : Mapping) = h.mapping from rfl, hunmap]

/-- The course of a turn whose unmap fails. -/
theorem trimLoop_restored {w : World} {s s₁ s₂ s₃ : State Tid} {freeLists : ClassIndex → Ptr}
    {link : RegistryLink} {m m₃ m₄ : Memory} {removed remaining joined : Ptr} {fuel total : Nat}
    (hread : readLink s link = some (some base)) (hh : s.memory.slab base = some h)
    (hcount : slabFreeCount s.memory base freeLists = some h.slotCount)
    (hdetach : detachSlabBlocks s.memory base freeLists = some (m, removed, remaining))
    (hwrite : writeLink { s with memory := m } link h.next = some s₁)
    (hunmap : osUnmap w s₁ t h.mapping = (s₂, none))
    (hjoin : joinFreeLists s₂.memory removed remaining = some (m₃, joined))
    (hset : m₃.setSlabNext base h.next = some m₄)
    (hrestore : writeLink { s₂ with memory := m₄ } link (some base) = some s₃) :
    trimLoop w t (fuel + 1) s freeLists link total
      = trimLoop w t fuel s₃ (Function.update freeLists h.classIndex joined) (.next base) total := by
  rw [trimLoop, hread]
  simp only [Option.bind_eq_bind, Option.bind_some, hh, hcount, ne_eq, not_true_eq_false, if_false,
    hdetach, hwrite]
  rw [show (⟨h.mappingBase, h.mappingLength⟩ : Mapping) = h.mapping from rfl, hunmap]
  simp only [hjoin, Option.bind_some, hset, hrestore, Function.update_idem]

section Attempt

variable {s : State Tid} {freeLists : ClassIndex → Ptr} {xs : List Nat}
variable (w : World) (t : Tid) (fuel total : Nat)
variable (hregistry : Chain s.memory.slabNext s.slabs (done ++ base :: rest))
variable (hh : s.memory.slab base = some h)
variable (hchain : Chain s.memory.next (freeLists h.classIndex) xs)
variable (hlength : xs.length ≤ addressSpace)
include hregistry hh hchain hlength

omit hregistry in
omit [DecidableEq Tid] in
theorem slabFreeCount_of_chain : slabFreeCount s.memory base freeLists
    = some (xs.filter (ownedBy s.memory base)).length := by
  simp only [slabFreeCount, hh, Option.bind_eq_bind, Option.bind_some]
  rw [slabFreeCountLoop_of_chain hchain hlength, Nat.zero_add]

/-- **Keeping.** A slab with a slot elsewhere is passed over. -/
theorem trimLoop_keep
    (hcount : (xs.filter (ownedBy s.memory base)).length ≠ h.slotCount) :
    trimLoop w t (fuel + 1) s freeLists (linkAfter done) total
      = trimLoop w t fuel s freeLists (linkAfter (done ++ [base])) total := by
  rw [trimLoop, readLink_linkAfter hregistry, List.head?_cons]
  simp only [Option.bind_eq_bind, Option.bind_some, hh, slabFreeCount_of_chain hh hchain hlength]
  rw [if_pos hcount, linkAfter_append]

/-- **Trying to release.** The slab is unlinked, its blocks leave the list and its region is unmapped; if
the unmap fails, both structures are put back but for the order of the list. -/
theorem trimLoop_attempt (hvalid : h.mapping.Valid)
    (hcount : (xs.filter (ownedBy s.memory base)).length = h.slotCount) :
    (∃ m head ys errno,
      trimLoop w t (fuel + 1) s freeLists (linkAfter done) total
        = trimLoop w t fuel { s with
            memory := m
            unmapCalls := s.unmapCalls ++ [h.mapping]
            errno := errno } (Function.update freeLists h.classIndex head)
          (linkAfter (done ++ [base])) total ∧
      w.munmap s.unmapCalls.length ≠ none ∧ Framed xs s.memory m ∧ m.size = s.memory.size ∧
      Chain m.next head ys ∧ ys.Perm xs) ∨
    (∃ m₁ m slabs head,
      trimLoop w t (fuel + 1) s freeLists (linkAfter done) total
        = trimLoop w t fuel { s with
            memory := m.clobber h.mapping.base h.mapping.length
            mapped := s.mapped.erase h.mapping
            slabs := slabs
            unmapCalls := s.unmapCalls ++ [h.mapping] }
          (Function.update freeLists h.classIndex head) (linkAfter done)
          ((sizeAdd total h.mappingLength).getD sizeMax) ∧
      w.munmap s.unmapCalls.length = none ∧ Framed xs s.memory m₁ ∧ m₁.size = s.memory.size ∧
      SameSlabs m₁ m ∧ (∀ base' ∈ rest, m.slab base' = s.memory.slab base') ∧
      Chain m.slabNext slabs (done ++ rest) ∧
      Chain m.next head (xs.filter fun a => !ownedBy s.memory base a).reverse) := by
  have hnodup := hregistry.nodup
  have hnotMem : base ∉ done ++ rest := (List.nodup_cons.mp (List.nodup_middle.mp hnodup)).1
  have hdone : ∀ base' ∈ done, base' ∉ base :: rest := by
    intro base' hmem hmem'
    exact (List.nodup_append.mp hnodup).2.2 base' hmem base' hmem' rfl
  have hread : readLink s (linkAfter done) = some (some base) := readLink_linkAfter hregistry
  have hfull : slabFreeCount s.memory base freeLists = some h.slotCount := by
    rw [slabFreeCount_of_chain hh hchain hlength, hcount]
  obtain ⟨m, removed, remaining, hsplit, hremoved, hremaining, hframe, hsize⟩ :=
    detachSlabBlocksLoop_of_chain base hchain (chain_nil.mpr rfl) (chain_nil.mpr rfl)
      (by simpa using hchain.nodup) hlength
  rw [List.append_nil] at hremoved hremaining
  have hdetach : detachSlabBlocks s.memory base freeLists = some (m, removed, remaining) := by
    simp only [detachSlabBlocks, hh, Option.bind_eq_bind, Option.bind_some, hsplit]
  -- Detaching the blocks does not touch the registry, so the link can be redirected past the slab.
  have hregistry₁ : Chain m.slabNext s.slabs (done ++ base :: rest) := by
    have hslabNext : m.slabNext = s.memory.slabNext := by
      funext x
      simp only [slabNext, hframe.slab]
    rw [hslabNext]
    exact hregistry
  have htarget : Chain m.slabNext h.next rest := by
    obtain ⟨r, -, -, q, hq, hrest⟩ := chain_append.mp hregistry₁
    rw [slabNext, hframe.slab, hh] at hq
    obtain rfl := Option.some.inj hq
    exact hrest
  obtain ⟨m₂, slabs, hwrite, hregistry₂, hsame, hsameOther⟩ :=
    exists_writeLink (s := { s with memory := m }) hregistry₁ htarget
      fun base' hmem hmem' => hdone base' hmem (List.mem_cons_of_mem _ hmem')
  have hnext₂ : m₂.next = m.next := by
    funext x
    simp only [Memory.next, hsame.block]
  rw [← hnext₂] at hremoved hremaining
  rcases osUnmap_valid w { s with memory := m₂, slabs := slabs } t hvalid
    with ⟨errno, hfailed, hanswer⟩ | ⟨hunmapped, hanswer⟩
  · left
    have hdisj : ∀ a ∈ (xs.filter (ownedBy s.memory base)).reverse,
        a ∉ (xs.filter fun a => !ownedBy s.memory base a).reverse := by
      intro a ha ha'
      simp only [List.mem_reverse, List.mem_filter, Bool.not_eq_true'] at ha ha'
      exact absurd (ha.2.symm.trans ha'.2) (by simp)
    have hremovedLength : (xs.filter (ownedBy s.memory base)).reverse.length ≤ addressSpace := by
      rw [List.length_reverse]
      exact (List.length_filter_le _ _).trans hlength
    obtain ⟨m₃, joined, hjoin, hjoined, hframe₃, hsize₃⟩ :=
      joinFreeLists_of_chains hremoved hremaining hdisj hremovedLength
    -- Both writes to the registry put back what was there.
    have hh₃ : m₃.slab base = some h := by
      rw [hframe₃.slab, hsameOther base fun hmem => hnotMem (List.mem_append_left _ hmem), hframe.slab,
        hh]
    have hset : m₃.setSlabNext base h.next = some m₃ := by
      rw [setSlabNext_eq hh₃, show h.withNext h.next = h from rfl, ← hh₃, Function.update_eq_self]
    have hread₁ : readLink { s with memory := m } (linkAfter done) = some (some base) :=
      readLink_linkAfter (l := base :: rest) hregistry₁
    have hrestore := writeLink_restore { s with
        memory := m₃
        slabs := slabs
        unmapCalls := s.unmapCalls ++ [h.mapping]
        errno := errno } hread₁ hwrite hframe₃.slab rfl
    refine ⟨{ m₃ with slab := m.slab }, joined, _, errno, ?_, hanswer, ⟨hframe.slab, ?_, fun a ha => ?_,
      fun a => ?_⟩, ?_, hjoined, ?_⟩
    · rw [linkAfter_append]
      exact trimLoop_restored hread hh hfull hdetach hwrite hfailed hjoin hset hrestore
    · calc m₃.byte = _ := hframe₃.byte
        _ = m.byte := hsame.byte
        _ = s.memory.byte := hframe.byte
    · have hnot : a ∉ (xs.filter (ownedBy s.memory base)).reverse := fun hmem =>
        ha (List.mem_of_mem_filter (List.mem_reverse.mp hmem))
      apply (hframe₃.block a hnot).trans
      rw [hsame.block, hframe.block a ha]
    · apply (hframe₃.fixed a).trans
      rw [hsame.block, hframe.fixed a]
    · apply Eq.trans (b := m₃.size) rfl
      rw [hsize₃, ← hsize]
      funext x
      simp only [Memory.size, hsame.block]
    · exact ((List.reverse_perm _).append (List.reverse_perm _)).trans (List.filter_append_perm _ _)
  · right
    refine ⟨m, m₂, slabs, remaining, ?_, hanswer, hframe, hsize, hsame, fun base' hbase' => ?_,
      hregistry₂, hremaining⟩
    · exact trimLoop_released hread hh hfull hdetach hwrite hunmapped
    · rw [hsameOther base' fun hmem => hdone base' hmem (List.mem_cons_of_mem _ hbase'), hframe.slab]

end Attempt

/-- One turn from a configuration that satisfies the invariant: a slab all of whose slots are on the
shared list is unmapped once. -/
theorem Inv.trimLoop_try (hinv : Inv k (done ++ base :: rest) larges g)
    (hh : k.state.memory.slab base = some h) (w : World) (t : Tid) (fuel total : Nat)
    (heads : ClassIndex → Ptr) (hidle : k.pc t = .idle)
    (hall : allFree k.state.memory (sharedLists g) base = true) :
    ∃ k' g' done' gone total',
      trimLoop w t (fuel + 1) { k.state with sharedHeads := heads } k.state.sharedHeads
          (linkAfter done) total
        = trimLoop w t fuel { k'.state with sharedHeads := heads } k'.state.sharedHeads
          (linkAfter done') total' ∧
      Trims k k' (done ++ base :: rest) (done' ++ rest) larges g g' gone ∧
      (∀ base' ∈ rest, k'.state.memory.slab base' = k.state.memory.slab base') ∧
      k'.state.unmapCalls = k.state.unmapCalls ++ [h.mapping] ∧
      (w.munmap k.state.unmapCalls.length = none ∧ gone = [base] ∧
          total' = (sizeAdd total h.mappingLength).getD sizeMax ∨
        w.munmap k.state.unmapCalls.length ≠ none ∧ gone = [] ∧ total' = total) := by
  have hbase : base ∈ done ++ base :: rest := by simp
  have hvalid : h.mapping.Valid := hinv.storage.valid _ (List.mem_append_left _
    (hinv.storage.ledger.mem_iff.mpr (by simp [mem_slabMappings hbase hh])))
  have hchain : Chain k.state.memory.next (k.state.sharedHeads h.classIndex)
    (g (.shared h.classIndex)) := hinv.holds (.shared h.classIndex)
  rcases trimLoop_attempt (s := { k.state with sharedHeads := heads }) w t fuel total
      hinv.storage.registry hh hchain (hinv.length_lt _).le hvalid
      ((hinv.count_eq_iff hbase hh).mpr hall) with
    ⟨m, head, ys, errno, hturn, hanswer, hframe, hsize, hjoined, hperm⟩ |
    ⟨m₁, m, slabs, head, hturn, hanswer, hframe, hsize, hsame, hother, hregistry, hremaining⟩
  · have htrims := hinv.trims_restore hidle hframe hsize hjoined hperm errno
    rw [show done ++ base :: rest = (done ++ [base]) ++ rest by simp] at htrims ⊢
    exact ⟨_, _, _, [], total, hturn, htrims, fun base' _ => congrFun hframe.slab base', rfl,
      Or.inr ⟨hanswer, rfl, rfl⟩⟩
  · obtain ⟨hheaders, htrims⟩ := hinv.trims_release hh hall hframe hsize hsame hregistry hremaining
      (List.reverse_perm _) t
    refine ⟨_, _, done, [base], _, hturn, htrims, fun base' hbase' => ?_, rfl,
      Or.inl ⟨hanswer, rfl, rfl⟩⟩
    exact (hheaders.slab base' (List.mem_append_right _ hbase')).trans (hother base' hbase')

/-! ### The whole loop -/

/-- The slabs among `tried` whose unmapping succeeds; the first of them is the `call`-th unmap. -/
def releasedSlabs (w : World) : Nat → List Nat → List Nat
  | _, [] => []
  | call, base :: rest =>
      if w.munmap call = none then
        base :: releasedSlabs w (call + 1) rest
      else
        releasedSlabs w (call + 1) rest

/-- The sum of the mapping lengths of slabs. -/
def mappingTotal (m : Memory) (bases : List Nat) : Nat :=
  ((slabMappings m bases).map Mapping.length).sum

theorem slabMappings_cons {m : Memory} (hh : m.slab base = some h) (bases : List Nat) :
    slabMappings m (base :: bases) = h.mapping :: slabMappings m bases :=
  List.filterMap_cons_some (by rw [hh, Option.map_some])

theorem releasedSlabs_sublist (w : World) (call : Nat) (tried : List Nat) :
    (releasedSlabs w call tried).Sublist tried := by
  induction tried generalizing call with
  | nil => exact List.Sublist.refl _
  | cons base rest ih =>
      rw [releasedSlabs]
      split
      · exact (ih _).cons_cons base
      · exact (ih _).cons base

omit [DecidableEq Tid] in
/-- Releasing other slabs does not change whether a slab is free. -/
theorem Trims.allFree_eq {k' : Config Tid} {bases bases' gone : List Nat} {g' : Place Tid → List Nat}
    (htrims : Trims k k' bases bases' larges g g' gone) (hinv : Inv k bases larges g)
    (hbase : base ∈ bases') (hsame : k'.state.memory.slab base = k.state.memory.slab base) :
    allFree k'.state.memory (sharedLists g') base = allFree k.state.memory (sharedLists g) base := by
  obtain ⟨hmem, hkept⟩ : base ∈ bases ∧ base ∉ gone := by
    rw [htrims.kept] at hbase
    simpa using hbase
  obtain ⟨h, hh, -⟩ := hinv.storage.slab base hmem
  have hiff : ∀ a ∈ h.slots base, a ∈ g' (.shared h.classIndex) ↔ a ∈ g (.shared h.classIndex) := by
    intro a ha
    obtain ⟨b, hb, hslotOf⟩ := hinv.storage.slot base hmem h hh a ha
    have hnone : (gone.any fun base' => ownedBy k.state.memory base' a) = false := by
      rw [List.any_eq_false]
      intro base' hgone howned
      rw [ownedBy_of_block hb, hslotOf.owner, decide_eq_true_eq] at howned
      obtain rfl : base = base' := howned
      exact hkept hgone
    rw [(htrims.shared _).mem_iff, without, List.mem_filter, hnone]
    simp
  rw [Bool.eq_iff_iff, allFree_iff (hsame.trans hh), allFree_iff hh]
  exact forall₂_congr hiff

theorem min_sizeAdd {total bytes : Nat} (more : Nat) (htotal : total ≤ sizeMax) :
    (sizeAdd total bytes).getD sizeMax ≤ sizeMax ∧
      min sizeMax ((sizeAdd total bytes).getD sizeMax + more) = min sizeMax (total + (bytes + more)) := by
  by_cases hfits : total + bytes ≤ sizeMax
  · rw [sizeAdd_of_le hfits, Option.getD_some]
    omega
  · have hnone : sizeAdd total bytes = none := by
      rw [sizeAdd, if_pos (by omega)]
    rw [hnone, Option.getD_none]
    omega

/-- **The loop.** From the link after `done` on, exactly the free slabs are tried, in order, and those
whose unmapping succeeds are released. -/
theorem Inv.trimLoop_spec (w : World) (t : Tid) (heads : ClassIndex → Ptr) (todo : List Nat) :
    ∀ {k : Config Tid} {done : List Nat} {g : Place Tid → List Nat} {fuel total : Nat},
      Inv k (done ++ todo) larges g → k.pc t = .idle → todo.length < fuel → total ≤ sizeMax →
      ∃ k' bases' g',
        trimLoop w t fuel { k.state with sharedHeads := heads } k.state.sharedHeads (linkAfter done)
            total
          = some ({ k'.state with sharedHeads := heads }, k'.state.sharedHeads,
            min sizeMax (total + mappingTotal k.state.memory (releasedSlabs w k.state.unmapCalls.length
              (todo.filter (allFree k.state.memory (sharedLists g)))))) ∧
        Trims k k' (done ++ todo) bases' larges g g' (releasedSlabs w k.state.unmapCalls.length
          (todo.filter (allFree k.state.memory (sharedLists g)))) ∧
        k'.state.unmapCalls = k.state.unmapCalls
          ++ slabMappings k.state.memory (todo.filter (allFree k.state.memory (sharedLists g))) := by
  induction todo with
  | nil =>
      intro k done g fuel total hinv _ hfuel htotal
      obtain ⟨fuel, rfl⟩ : ∃ n, fuel = n + 1 := ⟨fuel - 1, by simp at hfuel; omega⟩
      have hread : readLink { k.state with sharedHeads := heads } (linkAfter done) = some none :=
        readLink_linkAfter (s := { k.state with sharedHeads := heads }) hinv.storage.registry
      refine ⟨k, done ++ [], g, ?_, Trims.refl hinv, by simp [slabMappings]⟩
      rw [trimLoop, hread]
      simp [releasedSlabs, mappingTotal, slabMappings, htotal]
  | cons base rest ih =>
      intro k done g fuel total hinv hidle hfuel htotal
      obtain ⟨fuel, rfl⟩ : ∃ n, fuel = n + 1 := ⟨fuel - 1, by simp at hfuel; omega⟩
      have hfuel' : rest.length < fuel := by simpa using hfuel
      obtain ⟨h, hh, -⟩ := hinv.storage.slab base (by simp)
      cases hall : allFree k.state.memory (sharedLists g) base with
      | false =>
          have hinv' : Inv k ((done ++ [base]) ++ rest) larges g := by simpa using hinv
          obtain ⟨k', bases', g', hloop, htrims, hcalls⟩ := ih hinv' hidle hfuel' htotal
          rw [List.filter_cons_of_neg (by simp [hall])]
          refine ⟨k', bases', g', ?_, by simpa using htrims, hcalls⟩
          have hcount : ((g (.shared h.classIndex)).filter (ownedBy k.state.memory base)).length
              ≠ h.slotCount := fun heq => by
            rw [(hinv.count_eq_iff (by simp) hh).mp heq] at hall
            simp at hall
          have hturn := trimLoop_keep (s := { k.state with sharedHeads := heads }) w t fuel total
            hinv.storage.registry hh (hinv.holds (.shared h.classIndex)) (hinv.length_lt _).le hcount
          rw [hturn, hloop]
      | true =>
          obtain ⟨k₁, g₁, done', gone, total', hturn, htrims, hrest, hcalls, houtcome⟩ :=
            hinv.trimLoop_try hh w t fuel total heads hidle hall
          have hidle₁ : k₁.pc t = .idle := by
            obtain ⟨_, _, _, _, _, _, rfl⟩ := htrims.rest
            exact hidle
          have htotal' : total' ≤ sizeMax := by
            rcases houtcome with ⟨-, -, rfl⟩ | ⟨-, -, rfl⟩
            · exact (min_sizeAdd 0 htotal).1
            · exact htotal
          have hfilter : rest.filter (allFree k₁.state.memory (sharedLists g₁))
              = rest.filter (allFree k.state.memory (sharedLists g)) :=
            List.filter_congr fun base' hbase' =>
              htrims.allFree_eq hinv (List.mem_append_right _ hbase') (hrest base' hbase')
          have hmappings : ∀ bases, bases ⊆ rest →
              slabMappings k₁.state.memory bases = slabMappings k.state.memory bases := by
            intro bases hsub
            exact List.filterMap_congr fun base' hbase' => by rw [hrest base' (hsub hbase')]
          obtain ⟨k', bases', g', hloop, htrims', hcalls'⟩ := ih htrims.inv hidle₁ hfuel' htotal'
          have hcallCount : k₁.state.unmapCalls.length = k.state.unmapCalls.length + 1 := by
            rw [hcalls, List.length_append, List.length_singleton]
          rw [hfilter, hcallCount] at hloop htrims'
          rw [hfilter, hmappings (rest.filter _) (List.filter_subset_self _)] at hcalls'
          have hreleased : ∀ call, mappingTotal k₁.state.memory (releasedSlabs w call
              (rest.filter (allFree k.state.memory (sharedLists g))))
              = mappingTotal k.state.memory (releasedSlabs w call
                (rest.filter (allFree k.state.memory (sharedLists g)))) := fun call => by
            rw [mappingTotal, mappingTotal, hmappings]
            exact List.Subset.trans (releasedSlabs_sublist w call _).subset (List.filter_subset_self _)
          rw [hreleased] at hloop
          rw [List.filter_cons_of_pos (by rw [hall]), slabMappings_cons hh]
          refine ⟨k', bases', g', ?_, ?_, ?_⟩
          · rw [hturn, hloop, releasedSlabs]
            rcases houtcome with ⟨hanswer, -, rfl⟩ | ⟨hanswer, -, rfl⟩
            · rw [if_pos hanswer, (min_sizeAdd _ htotal).2, mappingTotal, mappingTotal,
                slabMappings_cons hh, List.map_cons, List.sum_cons]
              rfl
            · rw [if_neg hanswer]
          · rw [releasedSlabs]
            rcases houtcome with ⟨hanswer, rfl, -⟩ | ⟨hanswer, rfl, -⟩
            · rw [if_pos hanswer]
              exact htrims.trans htrims'
            · rw [if_neg hanswer]
              exact htrims.trans htrims'
          · rw [hcalls', hcalls, List.append_assoc]
            rfl

/-! ### Detaching and publishing all lists -/

section

omit [DecidableEq Tid]

/-- Detaching every list moves the heads into the local array and leaves the shared ones empty. -/
theorem detachAll_of_chains (lists : ClassIndex → List Nat) (classes : List ClassIndex) :
    ∀ (s : State Tid) (freeLists : ClassIndex → Ptr),
      (∀ c ∈ classes, Chain s.memory.next (s.sharedHeads c) (lists c) ∧
        (lists c).length ≤ addressSpace) → classes.Nodup →
      detachAll classes s freeLists = some ({ s with
        sharedHeads := fun c => if c ∈ classes then none else s.sharedHeads c },
        fun c => if c ∈ classes then s.sharedHeads c else freeLists c) := by
  induction classes with
  | nil =>
      intro s freeLists _ _
      simp [detachAll]
  | cons c rest ih =>
      intro s freeLists hchains hnodup
      obtain ⟨hnotMem, hnodup'⟩ := List.nodup_cons.mp hnodup
      obtain ⟨hchain, hlength⟩ := hchains c List.mem_cons_self
      obtain ⟨list, hdetach, howns⟩ := transferMutexDetach_of_chain hchain hlength
      have hfirst : list.first = s.sharedHeads c := by
        rw [howns.chain.head?_eq, hchain.head?_eq]
      have hrest : ∀ e ∈ rest, Chain s.memory.next
          (Function.update s.sharedHeads c none e) (lists e) ∧ (lists e).length ≤ addressSpace := by
        intro e he
        have hne : e ≠ c := fun heq => hnotMem (heq ▸ he)
        rw [Function.update_of_ne hne]
        exact hchains e (List.mem_cons_of_mem _ he)
      rw [detachAll, hdetach, Option.bind_eq_bind, Option.bind_some]
      refine (ih { s with sharedHeads := Function.update s.sharedHeads c none } _ hrest
        hnodup').trans ?_
      rw [hfirst]
      congr 2
      · congr 1
        funext e
        by_cases hec : e = c
        · simp [hec, hnotMem]
        · simp [hec]
      · funext e
        by_cases hec : e = c
        · simp [hec, hnotMem]
        · simp [hec]

theorem transferMutexPublish_empty {s : State Tid} {c : ClassIndex} {list : TransferList}
    {xs : List Nat} (howns : list.Owns s.memory xs) (hnone : s.sharedHeads c = none) :
    transferMutexPublish s c list
      = some { s with sharedHeads := Function.update s.sharedHeads c list.first } := by
  have hfirst := howns.chain.head?_eq
  rcases List.eq_nil_or_concat xs with rfl | ⟨init, last, rfl⟩
  · rw [transferMutexPublish, hfirst, List.head?_nil, ← hnone, Function.update_eq_self]
    rw [hnone]
  · rw [List.concat_eq_append] at *
    have hlast : list.last = some last := by simp [howns.last]
    obtain ⟨first, hsome⟩ : ∃ first, list.first = some first := by
      rw [hfirst]
      exact Option.isSome_iff_exists.mp (by simp)
    obtain ⟨_, -, -, q, hq, hnil⟩ := path_append.mp howns.chain
    obtain rfl := path_nil.mp hnil
    obtain ⟨b, hb, hlink⟩ := exists_block_of_next hq
    have hset : s.memory.setNextFree last none = some s.memory := by
      rw [setNextFree, modifyBlock_eq hb, ← hlink, Function.update_eq_self_iff.mpr hb.symm]
    rw [transferMutexPublish, hsome, hnone]
    simp only [hlast, hset, Option.bind_eq_bind, Option.bind_some]

/-- Publishing every list to an empty head writes back what its last link already holds. -/
theorem publishAll_of_chains (freeLists : ClassIndex → Ptr) (lists : ClassIndex → List Nat)
    (classes : List ClassIndex) :
    ∀ (s : State Tid),
      (∀ c ∈ classes, Chain s.memory.next (freeLists c) (lists c) ∧
        (lists c).length ≤ addressSpace ∧ s.sharedHeads c = none) → classes.Nodup →
      publishAll freeLists classes s = some { s with
        sharedHeads := fun c => if c ∈ classes then freeLists c else s.sharedHeads c } := by
  induction classes with
  | nil =>
      intro s _ _
      simp [publishAll]
  | cons c rest ih =>
      intro s hchains hnodup
      obtain ⟨hnotMem, hnodup'⟩ := List.nodup_cons.mp hnodup
      obtain ⟨hchain, hlength, hnone⟩ := hchains c List.mem_cons_self
      obtain ⟨list, hlist, howns⟩ := transferListFromChain_of_chain hchain hlength
      have hfirst : list.first = freeLists c := by
        rw [howns.chain.head?_eq, hchain.head?_eq]
      rw [publishAll, hlist, Option.bind_eq_bind, Option.bind_some,
        transferMutexPublish_empty howns hnone, Option.bind_eq_bind, Option.bind_some, hfirst]
      have hrest : ∀ e ∈ rest, Chain s.memory.next (freeLists e) (lists e) ∧
          (lists e).length ≤ addressSpace ∧
          Function.update s.sharedHeads c (freeLists c) e = none := by
        intro e he
        have hne : e ≠ c := fun heq => hnotMem (heq ▸ he)
        rw [Function.update_of_ne hne]
        exact hchains e (List.mem_cons_of_mem _ he)
      refine (ih { s with sharedHeads := Function.update s.sharedHeads c (freeLists c) }
        hrest hnodup').trans ?_
      congr 2
      funext e
      by_cases hec : e = c
      · simp [hec, hnotMem]
      · simp [hec]

end

/-- **Trimming.** In a configuration that satisfies the invariant and in which thread `t` is between
calls, a trim by `t` succeeds, releases exactly the free slabs whose unmapping succeeds, and returns the
sum of their mapping lengths, cut off at the largest size. -/
theorem Inv.trimQuiescent {bases : List Nat} (hinv : Inv k bases larges g) (hidle : k.pc t = .idle)
    (v : Variant) (w : World) :
    ∃ k' bases' g',
      trimQuiescent v w k.state t = some (k'.state, min sizeMax (mappingTotal k.state.memory
        (releasedSlabs w k.state.unmapCalls.length
          (bases.filter (allFree k.state.memory (sharedLists g)))))) ∧
      Trims k k' bases bases' larges g g' (releasedSlabs w k.state.unmapCalls.length
        (bases.filter (allFree k.state.memory (sharedLists g)))) ∧
      k'.state.unmapCalls = k.state.unmapCalls
        ++ slabMappings k.state.memory (bases.filter (allFree k.state.memory (sharedLists g))) := by
  have hlength : bases.length < addressSpace := by
    apply length_le_addressSpace hinv.storage.registry.nodup
    intro base hbase
    obtain ⟨h, hh, hwf⟩ := hinv.storage.slab base hbase
    have hvalid := hinv.storage.valid h.mapping (List.mem_append_left _
      (hinv.storage.ledger.mem_iff.mpr (by simp [mem_slabMappings hbase hh])))
    have hpos := hvalid.base_pos
    have hlengthPos := hvalid.length_pos
    have hfits := hvalid.fits
    rw [hwf.mapping_eq] at hpos hlengthPos hfits
    dsimp only at hpos hlengthPos hfits
    omega
  cases v with
  | locked =>
      obtain ⟨k', bases', g', hloop, htrims, hcalls⟩ := Inv.trimLoop_spec w t k.state.sharedHeads bases
        (show Inv k ([] ++ bases) larges g from hinv) hidle hlength (Nat.zero_le sizeMax)
      rw [linkAfter_nil, Nat.zero_add] at hloop
      refine ⟨k', bases', g', ?_, htrims, hcalls⟩
      simp only [Hplf.trimQuiescent, hloop, Option.bind_eq_bind, Option.bind_some]
  | cached =>
      obtain ⟨k', bases', g', hloop, htrims, hcalls⟩ := Inv.trimLoop_spec w t (fun _ => none) bases
        (show Inv k ([] ++ bases) larges g from hinv) hidle hlength (Nat.zero_le sizeMax)
      rw [linkAfter_nil, Nat.zero_add] at hloop
      have hdetach := detachAll_of_chains (sharedLists g) classIndices k.state (fun _ => none)
        (fun c _ => ⟨hinv.holds (.shared c), (hinv.length_lt _).le⟩)
        nodup_classIndices
      have hpublish := publishAll_of_chains k'.state.sharedHeads (sharedLists g') classIndices
        { k'.state with sharedHeads := fun _ => none }
        (fun c _ => ⟨htrims.inv.holds (.shared c), (htrims.inv.length_lt _).le, rfl⟩)
        nodup_classIndices
      simp only [mem_classIndices, if_true] at hdetach hpublish
      refine ⟨k', bases', g', ?_, htrims, hcalls⟩
      simp only [Hplf.trimQuiescent, hdetach, hloop, hpublish, Option.bind_eq_bind, Option.bind_some]

end Hplf
