import HplfMalloc.Proof.Frame

/-!
# Moving blocks between shared lists and calls

The invariant through a detach, a publish, and the other steps that involve no cache: each moves blocks
between a shared list, the clients, and the hands of the acting call.
-/

namespace Hplf

open Lib Memory

variable {Tid : Type}
variable {k : Config Tid} {t : Tid} {bases larges : List Nat} {g : Place Tid → List Nat}

/-! ### Blocks and their bounds -/

theorem Storage.slot_bounds {s : State Tid} {leaked : List Mapping}
    (hst : Storage s leaked bases larges) {base : Nat} (hbase : base ∈ bases) {h : Slab}
    (hh : s.memory.slab base = some h) {a : Nat} (ha : a ∈ h.slots base) :
    h.mapping ∈ s.mapped ∧ h.mapping.Valid ∧ base + sizeofSlab ≤ a ∧ payloadAlignment ∣ a ∧
      a + (sizeofBlock + h.classCapacity) ≤ base + h.mappingLength := by
  obtain ⟨h', hh', hwf⟩ := hst.slab base hbase
  obtain rfl := Option.some.inj (hh.symm.trans hh')
  have hmem : h.mapping ∈ s.mapped := by
    rw [hst.ledger.mem_iff, List.mem_append, List.mem_append]
    refine Or.inl (Or.inl (List.mem_filterMap.mpr ⟨base, hbase, ?_⟩))
    rw [hh, Option.map_some]
  have hvalid := hst.valid h.mapping (List.mem_append_left _ hmem)
  obtain ⟨hlow, hhigh⟩ := hwf.slot_bounds ha
  refine ⟨hmem, hvalid, hlow, ?_, hhigh⟩
  obtain ⟨i, -, rfl⟩ := List.mem_map.mp ha
  refine Nat.dvd_add ?_ (Nat.dvd_add hwf.first_aligned (Dvd.dvd.mul_left hwf.stride_aligned i))
  have haligned := hvalid.aligned
  rwa [Slab.mapping, hwf.mappingBase] at haligned

theorem Storage.large_bounds {s : State Tid} {leaked : List Mapping}
    (hst : Storage s leaked bases larges) {a : Nat} (ha : a ∈ larges) :
    ∃ b, s.memory.block a = some b ∧ b.LargeAt a ∧
      (⟨a, sizeofBlock + b.capacity⟩ : Mapping) ∈ s.mapped ∧
      (⟨a, sizeofBlock + b.capacity⟩ : Mapping).Valid := by
  obtain ⟨b, hb, hlarge⟩ := hst.large a ha
  have hmem : (⟨a, sizeofBlock + b.capacity⟩ : Mapping) ∈ s.mapped := by
    rw [hst.ledger.mem_iff, List.mem_append, List.mem_append]
    refine Or.inl (Or.inr (List.mem_filterMap.mpr ⟨a, ha, ?_⟩))
    rw [hb, Option.map_some, Block.mapping, hlarge.owner]
    rfl
  exact ⟨b, hb, hlarge, hmem, hst.valid _ (List.mem_append_left _ hmem)⟩

theorem InClass.bounds {s : State Tid} {leaked : List Mapping}
    (hst : Storage s leaked bases larges) {c : ClassIndex} {a : Nat}
    (hclass : InClass s.memory bases c a) : 0 < a ∧ a < addressSpace := by
  obtain ⟨base, hbase, h, hh, -, ha⟩ := hclass
  obtain ⟨-, hvalid, hlow, -, hhigh⟩ := hst.slot_bounds hbase hh ha
  obtain ⟨h', hh', hwf⟩ := hst.slab base hbase
  obtain rfl := Option.some.inj (hh.symm.trans hh')
  have hfits := hvalid.fits
  simp only [Slab.mapping, hwf.mappingBase] at hfits
  unfold sizeofSlab at hlow
  unfold sizeofBlock at hhigh
  omega

theorem Inv.block_bounds (hinv : Inv k bases larges g) {p : Place Tid} {a : Nat} (ha : a ∈ g p) :
    0 < a ∧ a < addressSpace := by
  rcases (hinv.population a).mp ⟨p, ha⟩ with ⟨c, hclass⟩ | hlarge
  · exact hclass.bounds hinv.storage
  · obtain ⟨b, -, -, -, hvalid⟩ := hinv.storage.large_bounds hlarge
    have hpos := hvalid.base_pos
    have hlength := hvalid.length_pos
    have hfits := hvalid.fits
    simp only at hpos hlength hfits
    omega

theorem Inv.length_lt (hinv : Inv k bases larges g) (p : Place Tid) :
    (g p).length < addressSpace :=
  length_le_addressSpace (hinv.placed.nodup p) fun _ ha => hinv.block_bounds ha

/-- Every block in a place has a prefix. -/
theorem Inv.exists_block (hinv : Inv k bases larges g) {p : Place Tid} {a : Nat} (ha : a ∈ g p) :
    ∃ b, k.state.memory.block a = some b := by
  rcases (hinv.population a).mp ⟨p, ha⟩ with ⟨c, base, hbase, h, hh, -, hslot⟩ | hlarge
  · obtain ⟨b, hb, -⟩ := hinv.storage.slot base hbase h hh a hslot
    exact ⟨b, hb⟩
  · obtain ⟨b, hb, -⟩ := hinv.storage.large a hlarge
    exact ⟨b, hb⟩

theorem Inv.exists_next (hinv : Inv k bases larges g) {p : Place Tid} {a : Nat} (ha : a ∈ g p) :
    ∃ q, k.state.memory.next a = some q := by
  obtain ⟨b, hb⟩ := hinv.exists_block ha
  exact ⟨_, next_eq_some hb⟩

/-! ### The mutex transfer -/

theorem transferMutexPublish_of_owns {s : State Tid} {c : ClassIndex} {list : TransferList}
    {xs ys : List Nat} (howns : list.Owns s.memory xs)
    (hchain : Chain s.memory.next (s.sharedHeads c) ys) (hdisj : ∀ a ∈ xs, a ∉ ys) :
    ∃ m', transferMutexPublish s c list = some { s with
        memory := m'
        sharedHeads := Function.update s.sharedHeads c (xs ++ ys).head? } ∧
      Framed xs s.memory m' ∧ m'.size = s.memory.size ∧
      Chain m'.next (xs ++ ys).head? (xs ++ ys) := by
  by_cases hnil : xs = []
  · subst hnil
    have hfirst : list.first = none := howns.chain
    refine ⟨s.memory, ?_, Framed.refl _ _, rfl, ?_⟩
    · simp [transferMutexPublish, hfirst, ← hchain.head?_eq]
    · rw [List.nil_append, ← hchain.head?_eq]
      exact hchain
  · obtain ⟨first, last, m', hfirst, hlast, hset, hframe, hsize, hjoined⟩ :=
      howns.exists_prepend hnil hchain hdisj
    have hhead : (xs ++ ys).head? = some first := hjoined.head?_eq.symm
    refine ⟨m', ?_, hframe, hsize, by rw [hhead]; exact hjoined⟩
    simp [transferMutexPublish, hfirst, hlast, hset, hhead]

theorem transferMutexDetach_of_chain {s : State Tid} {c : ClassIndex} {xs : List Nat}
    (hchain : Chain s.memory.next (s.sharedHeads c) xs) (hlength : xs.length ≤ addressSpace) :
    ∃ list, transferMutexDetach s c = some ({ s with
        sharedHeads := Function.update s.sharedHeads c none }, list) ∧ list.Owns s.memory xs := by
  obtain ⟨list, hlist, howns⟩ := transferListFromChain_of_chain hchain hlength
  exact ⟨list, by simp [transferMutexDetach, hlist], howns⟩

end Hplf
