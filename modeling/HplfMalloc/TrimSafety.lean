import HplfMalloc.Proof.Safety
import HplfMalloc.Schedule

/-!
# A trim never touches released storage

A successful unmap removes the slab header and the block prefixes of its mapping, and an access to a
removed header is a fault. From any well-formed registry and shared lists, whatever else is in memory and
whichever unmaps fail, `hplf_trim_quiescent` runs to its end without a fault and leaves a well-formed
registry and shared lists of what it kept.
-/

namespace Hplf

open Lib Memory

variable {Tid : Type} [DecidableEq Tid]

/-- The registry with slabs `bases` and the free lists `lists` of a trim: the slabs lie apart, and each
list holds slots of registered slabs of its class. -/
structure TrimStore (m : Memory) (slabs : Ptr) (heads : ClassIndex → Ptr) (bases : List Nat)
    (lists : ClassIndex → List Nat) : Prop where
  registry : Chain m.slabNext slabs bases
  slab : ∀ base ∈ bases, ∃ h, m.slab base = some h ∧ h.WellFormed base ∧ h.mapping.Valid
  apart : ∀ base ∈ bases, ∀ base' ∈ bases, base ≠ base' → ∀ h h', m.slab base = some h →
    m.slab base' = some h' → h.mapping.Apart h'.mapping
  list : ∀ c, Chain m.next (heads c) (lists c)
  block : ∀ c, ∀ a ∈ lists c, ∃ base ∈ bases, ∃ h b, m.slab base = some h ∧ h.classIndex = c ∧
    a ∈ h.slots base ∧ m.block a = some b ∧ b.owner = .small base

/-- What a trim leaves of registry `bases` and lists `lists`: everything that left them is gone from
memory. -/
structure TrimRemoved (m : Memory) (bases bases' : List Nat) (lists lists' : ClassIndex → List Nat) :
    Prop where
  kept : bases'.Sublist bases
  slab : ∀ base ∈ bases, base ∉ bases' → m.slab base = none
  listed : ∀ c, lists' c ⊆ lists c
  block : ∀ c, ∀ a ∈ lists c, a ∉ lists' c → m.block a = none

/-- Headers are only ever removed. -/
structure Memory.Fewer (m m' : Memory) : Prop where
  slab : ∀ base, m.slab base = none → m'.slab base = none
  block : ∀ a, m.block a = none → m'.block a = none

theorem Memory.Framed.fewer {nodes : List Nat} {m m' : Memory} (hframe : Framed nodes m m') :
    Fewer m m' where
  slab base hnone := by rw [hframe.slab, hnone]
  block a hnone := by
    have hfixed := hframe.fixed a
    rwa [hnone, Option.map_none, Option.map_eq_none_iff] at hfixed

theorem SameSlabs.fewer {m m' : Memory} (hsame : SameSlabs m m') : Fewer m m' where
  slab base hnone := by
    obtain ⟨next, heq⟩ := hsame.slab base
    rw [heq, hnone, Option.map_none]
  block a hnone := by rw [hsame.block, hnone]

theorem Memory.fewer_clobber (m : Memory) (lo length : Nat) : Fewer m (m.clobber lo length) where
  slab base hnone := by simp [clobber, hnone]
  block a hnone := by simp [clobber, hnone]

theorem Memory.Fewer.trans {m₁ m₂ m₃ : Memory} (h₁ : Fewer m₁ m₂) (h₂ : Fewer m₂ m₃) :
    Fewer m₁ m₃ where
  slab base hnone := h₂.slab base (h₁.slab base hnone)
  block a hnone := h₂.block a (h₁.block a hnone)

theorem TrimRemoved.refl (m : Memory) (bases : List Nat) (lists : ClassIndex → List Nat) :
    TrimRemoved m bases bases lists lists where
  kept := List.Sublist.refl _
  slab _ hbase hnot := absurd hbase hnot
  listed _ := List.Subset.refl _
  block _ _ ha hnot := absurd ha hnot

theorem TrimRemoved.trans {m m' : Memory} {bases₁ bases₂ bases₃ : List Nat}
    {lists₁ lists₂ lists₃ : ClassIndex → List Nat} (h₁ : TrimRemoved m bases₁ bases₂ lists₁ lists₂)
    (hfewer : Fewer m m') (h₂ : TrimRemoved m' bases₂ bases₃ lists₂ lists₃) :
    TrimRemoved m' bases₁ bases₃ lists₁ lists₃ where
  kept := h₂.kept.trans h₁.kept
  slab base hbase hnot := by
    by_cases hmem : base ∈ bases₂
    · exact h₂.slab base hmem hnot
    · exact hfewer.slab base (h₁.slab base hbase hmem)
  listed c := List.Subset.trans (h₂.listed c) (h₁.listed c)
  block c a ha hnot := by
    by_cases hmem : a ∈ lists₂ c
    · exact h₂.block c a hmem hnot
    · exact hfewer.block a (h₁.block c a ha hmem)

variable {m : Memory} {slabs : Ptr} {heads : ClassIndex → Ptr} {bases : List Nat}
variable {lists : ClassIndex → List Nat} {c : ClassIndex} {a base : Nat} {h : Slab}

namespace TrimStore

theorem wellFormed (hstore : TrimStore m slabs heads bases lists) (hbase : base ∈ bases)
    (hh : m.slab base = some h) : h.WellFormed base ∧ h.mapping.Valid := by
  obtain ⟨h', hh', hwf, hvalid⟩ := hstore.slab base hbase
  obtain rfl := Option.some.inj (hh.symm.trans hh')
  exact ⟨hwf, hvalid⟩

/-- A slot lies in the mapping of its slab. -/
theorem slot_inside {h : Slab} (hwf : h.WellFormed base) (ha : a ∈ h.slots base) :
    base ≤ a ∧ a + sizeofBlock ≤ base + h.mappingLength := by
  obtain ⟨i, hi, rfl⟩ := List.mem_map.mp ha
  rw [List.mem_range] at hi
  have hstride := hwf.stride_le
  have hfits := hwf.fits
  have hmul : (i + 1) * h.slotStride ≤ h.slotCount * h.slotStride := Nat.mul_le_mul_right _ hi
  rw [Nat.succ_mul] at hmul
  unfold slotAddress
  omega

theorem bases_length (hstore : TrimStore m slabs heads bases lists) :
    bases.length < addressSpace := by
  apply length_le_addressSpace hstore.registry.nodup
  intro base hbase
  obtain ⟨h, hh, hwf, hvalid⟩ := hstore.slab base hbase
  have hpos := hvalid.base_pos
  have hlengthPos := hvalid.length_pos
  have hfits := hvalid.fits
  rw [hwf.mapping_eq] at hpos hlengthPos hfits
  dsimp only at hpos hlengthPos hfits
  omega

theorem list_length (hstore : TrimStore m slabs heads bases lists) (c : ClassIndex) :
    (lists c).length < addressSpace := by
  apply length_le_addressSpace (hstore.list c).nodup
  intro a ha
  obtain ⟨base, hbase, h, b, hh, -, hslot, -, -⟩ := hstore.block c a ha
  obtain ⟨hwf, hvalid⟩ := hstore.wellFormed hbase hh
  have hpos := hvalid.base_pos
  have hfits := hvalid.fits
  obtain ⟨hlow, hhigh⟩ := slot_inside hwf hslot
  rw [hwf.mapping_eq] at hpos hfits
  unfold sizeofBlock at hhigh
  dsimp only at hpos hfits
  omega

/-- No block is on two lists. -/
theorem disjoint (hstore : TrimStore m slabs heads bases lists) {c' : ClassIndex} (ha : a ∈ lists c)
    (ha' : a ∈ lists c') : c = c' := by
  obtain ⟨base, -, h, b, hh, rfl, -, hb, howner⟩ := hstore.block c a ha
  obtain ⟨base', -, h', b', hh', rfl, -, hb', howner'⟩ := hstore.block c' a ha'
  obtain rfl := Option.some.inj (hb.symm.trans hb')
  obtain rfl := Owner.small.inj (howner.symm.trans howner')
  obtain rfl := Option.some.inj (hh.symm.trans hh')
  rfl

/-- The other lists are as they were after a change to the links of one. -/
theorem list_framed (hstore : TrimStore m slabs heads bases lists) {m' : Memory} {head : Ptr}
    {ys : List Nat} (hframe : Framed (lists c) m m') (hchain : Chain m'.next head ys)
    (e : ClassIndex) :
    Chain m'.next (Function.update heads c head e) (Function.update lists c ys e) := by
  by_cases he : e = c
  · subst he
    rwa [Function.update_self, Function.update_self]
  · rw [Function.update_of_ne he, Function.update_of_ne he]
    exact hframe.chain (hstore.list e) fun a ha hmem => he (hstore.disjoint ha hmem)

/-- **Restoring.** Rearranging one list keeps the store well formed. -/
theorem rearrange (hstore : TrimStore m slabs heads bases lists) {m' : Memory} {head : Ptr}
    {ys : List Nat} (hframe : Framed (lists c) m m') (hchain : Chain m'.next head ys)
    (hperm : ys.Perm (lists c)) :
    TrimStore m' slabs (Function.update heads c head) bases (Function.update lists c ys) where
  registry := hstore.registry.congr fun base _ => by simp only [slabNext, hframe.slab]
  slab := by
    rw [hframe.slab]
    exact hstore.slab
  apart := by
    rw [hframe.slab]
    exact hstore.apart
  list := hstore.list_framed hframe hchain
  block e a ha := by
    have hold : a ∈ lists e := by
      by_cases he : e = c
      · subst he
        rw [Function.update_self] at ha
        exact hperm.mem_iff.mp ha
      · rwa [Function.update_of_ne he] at ha
    obtain ⟨base, hbase, h, b, hh, hclass, hslot, hb, howner⟩ := hstore.block e a hold
    obtain ⟨b', hb', howner', -, -⟩ := hframe.exists_block hb
    exact ⟨base, hbase, h, b', hframe.slab ▸ hh, hclass, hslot, hb', howner'.trans howner⟩

theorem removed_rearrange {ys : List Nat} (m : Memory) (hperm : ys.Perm (lists c)) :
    TrimRemoved m bases bases lists (Function.update lists c ys) := by
  have hmem : ∀ e a, a ∈ Function.update lists c ys e ↔ a ∈ lists e := by
    intro e a
    by_cases he : e = c
    · subst he
      rw [Function.update_self, hperm.mem_iff]
    · rw [Function.update_of_ne he]
  exact ⟨List.Sublist.refl _, fun _ hbase hnot => absurd hbase hnot, fun e a ha => (hmem e a).mp ha,
    fun e a ha hnot => absurd ((hmem e a).mpr ha) hnot⟩

/-- The lists without the blocks of the slab at `base`. -/
def listsWithout (m : Memory) (lists : ClassIndex → List Nat) (c : ClassIndex) (base : Nat) :
    ClassIndex → List Nat :=
  Function.update lists c ((lists c).filter fun a => !ownedBy m base a).reverse

section Release

variable {done rest : List Nat} {m₁ m₂ : Memory} {slabs' head : Ptr}
variable (hstore : TrimStore m slabs heads (done ++ base :: rest) lists)
variable (hh : m.slab base = some h)
variable (hframe : Framed (lists h.classIndex) m m₁) (hsame : SameSlabs m₁ m₂)
include hstore hh

/-- The blocks of a slab are all on the list of its class. -/
theorem mem_listsWithout (e : ClassIndex) (a : Nat) :
    a ∈ listsWithout m lists h.classIndex base e ↔ a ∈ lists e ∧ ownedBy m base a = false := by
  unfold listsWithout
  by_cases he : e = h.classIndex
  · subst he
    simp
  · rw [Function.update_of_ne he, iff_self_and]
    intro ha
    obtain ⟨base', -, h', b, hh', rfl, -, hb, howner⟩ := hstore.block e a ha
    rw [ownedBy_of_block hb, howner, decide_eq_false_iff_not]
    rintro rfl
    exact he (congrArg Slab.classIndex (Option.some.inj (hh'.symm.trans hh)))

include hframe hsame

/-- The header of another slab lies outside the released mapping. -/
theorem exists_kept_slab {base' : Nat} {h' : Slab} (hbase' : base' ∈ done ++ rest)
    (hh' : m.slab base' = some h') :
    (m₂.clobber h.mapping.base h.mapping.length).slab base' = m₂.slab base' ∧
      ∃ next, m₂.slab base' = some (h'.withNext next) := by
  have hne : base ≠ base' := by
    rintro rfl
    exact (List.nodup_cons.mp (List.nodup_middle.mp hstore.registry.nodup)).1 hbase'
  have hmem : base' ∈ done ++ base :: rest := by
    rw [List.mem_append] at hbase' ⊢
    exact hbase'.imp_right (List.mem_cons_of_mem base)
  have hapart := hstore.apart base (by simp) base' hmem hne h h' hh hh'
  obtain ⟨hwf', -⟩ := hstore.wellFormed hmem hh'
  have hheader := hwf'.header_le
  refine ⟨(SameOutside.clobber m₂ _ _).slab base' fun hoverlap => ?_,
    hsame.exists_header (hframe.slab ▸ hh')⟩
  rw [hwf'.mapping_eq] at hapart
  unfold Overlap at hoverlap
  unfold Mapping.Apart at hapart
  dsimp only at hapart
  omega

/-- **Releasing.** Unlinking a slab, taking its blocks off their list and unmapping its region keeps the
store well formed: nothing that stays points into the region. -/
theorem release (hregistry : Chain m₂.slabNext slabs' (done ++ rest))
    (hchain : Chain m₂.next head
      ((lists h.classIndex).filter fun a => !ownedBy m base a).reverse) :
    TrimStore (m₂.clobber h.mapping.base h.mapping.length) slabs'
      (Function.update heads h.classIndex head) (done ++ rest)
      (listsWithout m lists h.classIndex base) := by
  have hkept : ∀ base' ∈ done ++ rest, base' ∈ done ++ base :: rest := by
    intro base' hbase'
    rw [List.mem_append] at hbase' ⊢
    exact hbase'.imp_right (List.mem_cons_of_mem base)
  have hheader : ∀ base' ∈ done ++ rest, ∃ h' next, m.slab base' = some h' ∧
      (m₂.clobber h.mapping.base h.mapping.length).slab base' = m₂.slab base' ∧
      m₂.slab base' = some (h'.withNext next) := by
    intro base' hbase'
    obtain ⟨h', hh', -⟩ := hstore.slab base' (hkept base' hbase')
    obtain ⟨hsurvives, next, hnext⟩ := hstore.exists_kept_slab hh hframe hsame hbase' hh'
    exact ⟨h', next, hh', hsurvives, hnext⟩
  -- A block that stays is a slot of another slab, and so outside the region.
  have hblock : ∀ e, ∀ a ∈ listsWithout m lists h.classIndex base e,
      ∃ base' ∈ done ++ rest, ∃ h' b, m.slab base' = some h' ∧ h'.classIndex = e ∧
        a ∈ h'.slots base' ∧ b.owner = .small base' ∧ m₂.block a = some b ∧
        (m₂.clobber h.mapping.base h.mapping.length).block a = m₂.block a := by
    intro e a ha
    obtain ⟨hold, hother⟩ := (hstore.mem_listsWithout hh e a).mp ha
    obtain ⟨base', hbase', h', b, hh', hclass, hslot, hb, howner⟩ := hstore.block e a hold
    have hne : base ≠ base' := by
      rintro rfl
      rw [ownedBy_of_block hb, howner, decide_eq_false_iff_not] at hother
      exact hother rfl
    have hmem : base' ∈ done ++ rest := by
      rw [List.mem_append, List.mem_cons] at hbase'
      rw [List.mem_append]
      exact hbase'.imp_right fun hcons => hcons.resolve_left hne.symm
    have hapart := hstore.apart base (by simp) base' hbase' hne h h' hh hh'
    obtain ⟨hwf', -⟩ := hstore.wellFormed hbase' hh'
    obtain ⟨hlow, hhigh⟩ := slot_inside hwf' hslot
    obtain ⟨b', hb', howner', -, -⟩ := hframe.exists_block hb
    refine ⟨base', hmem, h', b', hh', hclass, hslot, howner'.trans howner, hsame.block ▸ hb',
      (SameOutside.clobber m₂ _ _).block a fun hoverlap => ?_⟩
    rw [hwf'.mapping_eq] at hapart
    unfold Overlap at hoverlap
    unfold Mapping.Apart at hapart
    dsimp only at hapart
    omega
  refine ⟨hregistry.congr fun base' hbase' => ?_, fun base' hbase' => ?_,
    fun base₁ hbase₁ base₂ hbase₂ hne h₁ h₂ hh₁ hh₂ => ?_, fun e => ?_, fun e a ha => ?_⟩
  · obtain ⟨h', next, -, hsurvives, -⟩ := hheader base' hbase'
    simp only [slabNext, hsurvives]
  · obtain ⟨h', next, hh', hsurvives, hnext⟩ := hheader base' hbase'
    obtain ⟨hwf', hvalid'⟩ := hstore.wellFormed (hkept base' hbase') hh'
    exact ⟨h'.withNext next, hsurvives.trans hnext, hwf'.withNext next, hvalid'⟩
  · obtain ⟨h₁', next₁, hh₁', hsurvives₁, hnext₁⟩ := hheader base₁ hbase₁
    obtain ⟨h₂', next₂, hh₂', hsurvives₂, hnext₂⟩ := hheader base₂ hbase₂
    obtain rfl := Option.some.inj (hh₁.symm.trans (hsurvives₁.trans hnext₁))
    obtain rfl := Option.some.inj (hh₂.symm.trans (hsurvives₂.trans hnext₂))
    exact hstore.apart base₁ (hkept base₁ hbase₁) base₂ (hkept base₂ hbase₂) hne h₁' h₂' hh₁' hh₂'
  · have hnext : m₂.next = m₁.next := by
      funext x
      simp only [Memory.next, hsame.block]
    have hlist := hstore.list_framed hframe (hnext ▸ hchain) e
    rw [← hnext] at hlist
    apply hlist.congr
    intro a ha
    obtain ⟨_, -, _, _, -, -, -, -, -, hsurvives⟩ := hblock e a ha
    simp only [Memory.next, hsurvives]
  · obtain ⟨base', hbase', h', b, hh', hclass, hslot, howner, hb, hsurvives⟩ := hblock e a ha
    obtain ⟨hsame', next, hnext⟩ := hstore.exists_kept_slab hh hframe hsame hbase' hh'
    exact ⟨base', hbase', h'.withNext next, b, hsame'.trans hnext, hclass, hslot,
      hsurvives.trans hb, howner⟩

omit hframe hsame in
/-- What left the registry and the list lay in the region. -/
theorem removed_release (m₂ : Memory) :
    TrimRemoved (m₂.clobber h.mapping.base h.mapping.length) (done ++ base :: rest) (done ++ rest)
      lists (listsWithout m lists h.classIndex base) := by
  obtain ⟨hwf, hvalid⟩ := hstore.wellFormed (by simp) hh
  refine ⟨(List.sublist_cons_self base rest).append_left done, fun base' hbase' hnot => ?_,
    fun e a ha => ((hstore.mem_listsWithout hh e a).mp ha).1, fun e a ha hnot => ?_⟩
  · obtain rfl : base' = base := by
      rw [List.mem_append, not_or] at hnot
      exact ((List.mem_append.mp hbase').resolve_left hnot.1 |> List.mem_cons.mp).resolve_right hnot.2
    have hlength := hvalid.length_pos
    have hoverlap : Overlap base' sizeofSlab h.mapping.base h.mapping.length := by
      rw [hwf.mapping_eq] at hlength ⊢
      unfold Overlap sizeofSlab
      dsimp only at hlength ⊢
      omega
    simp only [clobber, if_pos hoverlap]
  · obtain ⟨base', -, h', b, hh', -, hslot, hb, howner⟩ := hstore.block e a ha
    obtain rfl : base' = base := by
      rw [hstore.mem_listsWithout hh e a, ownedBy_of_block hb, howner, decide_eq_false_iff_not] at hnot
      exact Decidable.not_not.mp fun hne => hnot ⟨ha, hne⟩
    obtain rfl := Option.some.inj (hh.symm.trans hh')
    obtain ⟨hlow, hhigh⟩ := slot_inside hwf hslot
    have hoverlap : Overlap a sizeofBlock h.mapping.base h.mapping.length := by
      rw [hwf.mapping_eq]
      unfold Overlap
      unfold sizeofBlock at hhigh ⊢
      dsimp only
      omega
    simp only [clobber, if_pos hoverlap]

end Release

/-- **The loop.** From the link after `done` on, the loop ends without a fault. -/
theorem trimLoop (w : World) (t : Tid) (todo : List Nat) :
    ∀ {s : State Tid} {heads : ClassIndex → Ptr} {done : List Nat} {lists : ClassIndex → List Nat}
      {fuel : Nat} (total : Nat),
      TrimStore s.memory s.slabs heads (done ++ todo) lists → todo.length < fuel →
      ∃ s' heads' total' bases' lists',
        trimLoop w t fuel s heads (linkAfter done) total = some (s', heads', total') ∧
        s'.sharedHeads = s.sharedHeads ∧
        TrimStore s'.memory s'.slabs heads' bases' lists' ∧
        TrimRemoved s'.memory (done ++ todo) bases' lists lists' ∧ Fewer s.memory s'.memory := by
  induction todo with
  | nil =>
      intro s heads done lists fuel total hstore hfuel
      obtain ⟨fuel, rfl⟩ : ∃ n, fuel = n + 1 := ⟨fuel - 1, by simp at hfuel; omega⟩
      refine ⟨s, heads, total, _, lists, ?_, rfl, hstore, TrimRemoved.refl _ _ _,
        (Framed.refl [] s.memory).fewer⟩
      rw [Hplf.trimLoop, readLink_linkAfter hstore.registry]
      rfl
  | cons base rest ih =>
      intro s heads done lists fuel total hstore hfuel
      obtain ⟨fuel, rfl⟩ : ∃ n, fuel = n + 1 := ⟨fuel - 1, by simp at hfuel; omega⟩
      have hfuel' : rest.length < fuel := by simpa using hfuel
      have hsplit : done ++ base :: rest = (done ++ [base]) ++ rest := by simp
      obtain ⟨h, hh, -, hvalid⟩ := hstore.slab base (by simp)
      have hlength := (hstore.list_length h.classIndex).le
      by_cases hcount : ((lists h.classIndex).filter (ownedBy s.memory base)).length = h.slotCount
      · rcases trimLoop_attempt w t fuel total hstore.registry hh (hstore.list h.classIndex) hlength
            hvalid hcount with
          ⟨m, head, ys, errno, hturn, -, hframe, -, hjoined, hperm⟩ |
          ⟨m₁, m, slabs, head, hturn, -, hframe, -, hsame, -, hregistry, hremaining⟩
        · rw [hturn, hsplit]
          rw [hsplit] at hstore
          obtain ⟨s', heads', total', bases', lists', hloop, hshared, hstore', hremoved, hfewer⟩ :=
            ih (s := { s with
              memory := m
              unmapCalls := s.unmapCalls ++ [h.mapping]
              errno := errno }) total (hstore.rearrange hframe hjoined hperm) hfuel'
          exact ⟨s', heads', total', bases', lists', hloop, hshared, hstore',
            (removed_rearrange m hperm).trans hfewer hremoved, hframe.fewer.trans hfewer⟩
        · rw [hturn]
          obtain ⟨s', heads', total', bases', lists', hloop, hshared, hstore', hremoved, hfewer⟩ :=
            ih (s := { s with
              memory := m.clobber h.mapping.base h.mapping.length
              mapped := s.mapped.erase h.mapping
              slabs := slabs
              unmapCalls := s.unmapCalls ++ [h.mapping] }) ((sizeAdd total h.mappingLength).getD sizeMax)
              (hstore.release hh hframe hsame hregistry hremaining) hfuel'
          exact ⟨s', heads', total', bases', lists', hloop, hshared, hstore',
            (hstore.removed_release hh m).trans hfewer hremoved,
            (hframe.fewer.trans (hsame.fewer.trans (m.fewer_clobber _ _))).trans hfewer⟩
      · rw [trimLoop_keep w t fuel total hstore.registry hh (hstore.list h.classIndex) hlength hcount,
          hsplit]
        exact ih total (hsplit ▸ hstore) hfuel'

end TrimStore

/-- **A trim is safe and terminates.** From a well-formed registry and shared lists it reaches its end
without an access to a removed header, whichever unmaps fail. It leaves a well-formed registry and lists,
and every slab and block that left them has been removed from memory. -/
theorem trimQuiescent_safe (v : Variant) (w : World) (t : Tid) (s : State Tid) (bases : List Nat)
    (lists : ClassIndex → List Nat)
    (hstore : TrimStore s.memory s.slabs s.sharedHeads bases lists) :
    ∃ s' released bases' lists', trimQuiescent v w s t = some (s', released) ∧
      TrimStore s'.memory s'.slabs s'.sharedHeads bases' lists' ∧
      TrimRemoved s'.memory bases bases' lists lists' := by
  have hfuel := hstore.bases_length
  cases v with
  | locked =>
      obtain ⟨s', heads', total', bases', lists', hloop, -, hstore', hremoved, -⟩ :=
        TrimStore.trimLoop w t bases 0
          (show TrimStore s.memory s.slabs s.sharedHeads ([] ++ bases) lists from hstore) hfuel
      refine ⟨{ s' with sharedHeads := heads' }, total', bases', lists', ?_, hstore', hremoved⟩
      rw [linkAfter_nil] at hloop
      simp only [trimQuiescent, hloop, Option.bind_eq_bind, Option.bind_some]
  | cached =>
      have hdetach := detachAll_of_chains lists classIndices s (fun _ => none)
        (fun c _ => ⟨hstore.list c, (hstore.list_length c).le⟩) nodup_classIndices
      simp only [mem_classIndices, if_true] at hdetach
      obtain ⟨s', heads', total', bases', lists', hloop, hshared, hstore', hremoved, -⟩ :=
        TrimStore.trimLoop w t bases (s := { s with sharedHeads := fun _ => none }) 0
          (show TrimStore s.memory s.slabs s.sharedHeads ([] ++ bases) lists from hstore) hfuel
      have hpublish := publishAll_of_chains heads' lists' classIndices s'
        (fun c _ => ⟨hstore'.list c, (hstore'.list_length c).le, congrFun hshared c⟩)
        nodup_classIndices
      simp only [mem_classIndices, if_true] at hpublish
      refine ⟨{ s' with sharedHeads := heads' }, total', bases', lists', ?_, hstore', hremoved⟩
      rw [linkAfter_nil] at hloop
      simp only [trimQuiescent, hdetach, hloop, hpublish, Option.bind_eq_bind, Option.bind_some]

omit [DecidableEq Tid] in
/-- The registry and the shared lists of a configuration that satisfies the invariant. -/
theorem Inv.trimStore {k : Config Tid} {bases larges : List Nat} {g : Place Tid → List Nat}
    (hinv : Inv k bases larges g) :
    TrimStore k.state.memory k.state.slabs k.state.sharedHeads bases (sharedLists g) where
  registry := hinv.storage.registry
  slab base hbase := by
    obtain ⟨h, hh, hwf⟩ := hinv.storage.slab base hbase
    refine ⟨h, hh, hwf, hinv.storage.valid _ (List.mem_append_left _ ?_)⟩
    exact hinv.storage.ledger.mem_iff.mpr (by simp [mem_slabMappings hbase hh])
  apart base hbase base' hbase' hne h h' hh hh' := hinv.storage.slab_apart hbase hbase' hne hh hh'
  list c := hinv.holds (.shared c)
  block c a ha := by
    obtain ⟨⟨base, hbase, h, hh, hclass, hslot⟩, -⟩ := hinv.free_of_shared ha
    obtain ⟨b, hb, hslotOf⟩ := hinv.storage.slot base hbase h hh a hslot
    exact ⟨base, hbase, h, b, hh, hclass, hslot, hb, hslotOf.owner⟩

/-- Of three slabs the last has a live block; the trim releases the second and cannot unmap the first. -/
theorem trimQuiescent_safe_three_slabs : ∃ (k : Config (Fin 2)) (bases : List Nat)
    (lists : ClassIndex → List Nat), k.live.length = 1 ∧
      TrimStore k.state.memory k.state.slabs k.state.sharedHeads bases lists ∧
      ∃ s' released bases' lists',
        trimQuiescent .cached secondUnmapFails k.state 1 = some (s', released) ∧
        released = 65536 ∧ s'.unmapCalls.length = k.state.unmapCalls.length + 2 ∧
        TrimStore s'.memory s'.slabs s'.sharedHeads bases' lists' ∧
        TrimRemoved s'.memory bases bases' lists lists' := by
  obtain ⟨k, hreach, -, hlive, htrims⟩ := exists_threeSlabs
  obtain ⟨bases, larges, g, hinv⟩ := safe_of_reachable hreach
  obtain ⟨s', released, bases', lists', htrim, hstore, hremoved⟩ :=
    trimQuiescent_safe .cached secondUnmapFails 1 k.state bases (sharedLists g) hinv.trimStore
  obtain ⟨hreleased, hcalls⟩ := htrims s' released htrim
  exact ⟨k, bases, sharedLists g, hlive, hinv.trimStore, s', released, bases', lists', htrim, hreleased, hcalls,
    hstore, hremoved⟩

end Hplf
