import HplfMalloc.Trim
import HplfMalloc.Proof.TransferListLemmas

/-!
# Partitioning and rejoining a free list, and editing the registry

The list loops of `hplf_trim_quiescent` over chains in storage: counting the blocks of one slab, splitting
them off, joining two lists, and reading and writing the registry through a pointer to a link.
-/

namespace Hplf

open Lib Memory

/-- The prefix at `a` names `slab` as its owner. -/
def ownedBy (m : Memory) (slab : Nat) (a : Nat) : Bool :=
  match m.block a with
  | some b => b.owner.slab = slab
  | none => false

theorem ownedBy_of_block {m : Memory} {slab a : Nat} {b : Block} (hb : m.block a = some b) :
    ownedBy m slab a = decide (b.owner.slab = slab) := by
  simp [ownedBy, hb]

theorem Memory.Framed.ownedBy {nodes : List Nat} {m m' : Memory} (hframe : Framed nodes m m')
    (slab a : Nat) : ownedBy m' slab a = ownedBy m slab a := by
  have hfixed := hframe.fixed a
  unfold Hplf.ownedBy
  cases hb : m.block a with
  | none =>
      rw [hb, Option.map_none, Option.map_eq_none_iff] at hfixed
      simp [hfixed]
  | some b =>
      obtain ⟨b', hb', howner, -, -⟩ := hframe.exists_block hb
      simp [hb', howner]

/-- **Counting.** The loop counts the blocks of the list that the slab owns. -/
theorem slabFreeCountLoop_of_chain {m : Memory} {slab : Nat} {xs : List Nat} :
    ∀ {p : Ptr} {fuel count : Nat}, Chain m.next p xs → xs.length ≤ fuel →
      slabFreeCountLoop m slab fuel p count = some (count + (xs.filter (ownedBy m slab)).length) := by
  induction xs with
  | nil =>
      intro p fuel count hchain _
      obtain rfl := chain_nil.mp hchain
      cases fuel <;> simp [slabFreeCountLoop]
  | cons a xs ih =>
      intro p fuel count hchain hfuel
      obtain ⟨rfl, q, hq, hrest⟩ := chain_cons.mp hchain
      obtain ⟨b, hb, rfl⟩ := exists_block_of_next hq
      obtain ⟨fuel, rfl⟩ : ∃ n, fuel = n + 1 := ⟨fuel - 1, by simp at hfuel; omega⟩
      have hlength : xs.length ≤ fuel := by simpa using hfuel
      rw [slabFreeCountLoop, hb, Option.bind_eq_bind, Option.bind_some, ih hrest hlength,
        List.filter_cons, ownedBy_of_block hb]
      by_cases howner : b.owner.slab = slab
      · simp only [howner, decide_true, if_true, List.length_cons]
        congr 1
        omega
      · simp [howner]

/-- What one step of the partition does: the head of the list becomes the head of its destination. -/
theorem exists_moveHead {m : Memory} {a : Nat} {q target : Ptr} {xs ys zs : List Nat} {other : Ptr}
    (hchain : Chain m.next (some a) (a :: xs)) (htarget : Chain m.next target ys)
    (hother : Chain m.next other zs) (hnodup : (a :: xs ++ ys ++ zs).Nodup)
    (hq : m.next a = some q) :
    ∃ m', m.setNextFree a target = some m' ∧ Framed [a] m m' ∧ m'.size = m.size ∧
      Chain m'.next q xs ∧ Chain m'.next (some a) (a :: ys) ∧ Chain m'.next other zs := by
  obtain ⟨m', hset, hframe, hsize, hnext⟩ := exists_setNextFree hq target
  obtain ⟨_, heq, hrest⟩ := hchain.follow hq
  obtain ⟨-, rfl⟩ := List.cons.inj heq
  rw [List.cons_append, List.cons_append, List.nodup_cons] at hnodup
  have hnot := hnodup.1
  simp only [List.mem_append, not_or] at hnot
  have hkeep : ∀ l : List Nat, a ∉ l → ∀ b ∈ l, b ∉ [a] := by
    intro l hl b hb hmem
    exact hl (List.mem_singleton.mp hmem ▸ hb)
  exact ⟨m', hset, hframe, hsize, hframe.chain hrest (hkeep xs hnot.1.1),
    ⟨rfl, target, by simp [hnext], hframe.chain htarget (hkeep ys hnot.1.2)⟩,
    hframe.chain hother (hkeep zs hnot.2)⟩

/-- **Partition.** The list is split in place into two chains, each in reverse order, in front of what the
two destinations held. -/
theorem detachSlabBlocksLoop_of_chain (slab : Nat) {xs : List Nat} :
    ∀ {m : Memory} {p removed remaining : Ptr} {ys zs : List Nat} {fuel : Nat},
      Chain m.next p xs → Chain m.next removed ys → Chain m.next remaining zs →
      (xs ++ ys ++ zs).Nodup → xs.length ≤ fuel →
      ∃ m' removed' remaining',
        detachSlabBlocksLoop slab fuel m p removed remaining = some (m', removed', remaining') ∧
          Chain m'.next removed' ((xs.filter (ownedBy m slab)).reverse ++ ys) ∧
          Chain m'.next remaining' ((xs.filter fun a => !ownedBy m slab a).reverse ++ zs) ∧
          Framed xs m m' ∧ m'.size = m.size := by
  induction xs with
  | nil =>
      intro m p removed remaining ys zs fuel hchain hys hzs _ _
      obtain rfl := chain_nil.mp hchain
      refine ⟨m, removed, remaining, ?_, by simpa using hys, by simpa using hzs, Framed.refl _ _, rfl⟩
      cases fuel <;> rfl
  | cons a xs ih =>
      intro m p removed remaining ys zs fuel hchain hys hzs hnodup hfuel
      obtain ⟨rfl, q, hq, -⟩ := chain_cons.mp hchain
      obtain ⟨b, hb, rfl⟩ := exists_block_of_next hq
      obtain ⟨fuel, rfl⟩ : ∃ n, fuel = n + 1 := ⟨fuel - 1, by simp at hfuel; omega⟩
      have hlength : xs.length ≤ fuel := by simpa using hfuel
      rw [detachSlabBlocksLoop, hb, Option.bind_eq_bind, Option.bind_some]
      by_cases howner : b.owner.slab = slab
      · obtain ⟨m₁, hset, hframe, hsize, hrest, hys', hzs'⟩ :=
          exists_moveHead hchain hys hzs hnodup hq
        have hnodup' : (xs ++ (a :: ys) ++ zs).Nodup := by
          refine (List.Perm.nodup_iff ?_).mp hnodup
          exact List.perm_middle.symm.append_right zs
        obtain ⟨m₂, removed', remaining', hloop, hremoved, hremaining, hframe₂, hsize₂⟩ :=
          ih hrest hys' hzs' hnodup' hlength
        have howned : ownedBy m₁ slab = ownedBy m slab := funext (hframe.ownedBy slab)
        rw [howned] at hremoved hremaining
        refine ⟨m₂, removed', remaining', ?_, ?_, ?_, ?_, hsize₂.trans hsize⟩
        · rw [if_pos howner, hset, Option.bind_eq_bind, Option.bind_some, hloop]
        · simpa [List.filter_cons, ownedBy_of_block hb, howner] using hremoved
        · simpa [List.filter_cons, ownedBy_of_block hb, howner] using hremaining
        · exact (hframe.mono (by simp)).trans (hframe₂.mono (by simp))
      · have hswapped : (a :: xs ++ zs ++ ys).Nodup := by
          refine (List.Perm.nodup_iff ?_).mp hnodup
          rw [List.append_assoc, List.append_assoc]
          exact List.perm_append_comm.append_left _
        obtain ⟨m₁, hset, hframe, hsize, hrest, hzs', hys'⟩ :=
          exists_moveHead hchain hzs hys hswapped hq
        have hnodup' : (xs ++ ys ++ (a :: zs)).Nodup := by
          refine (List.Perm.nodup_iff ?_).mp hnodup
          exact List.perm_middle.symm
        obtain ⟨m₂, removed', remaining', hloop, hremoved, hremaining, hframe₂, hsize₂⟩ :=
          ih hrest hys' hzs' hnodup' hlength
        have howned : ownedBy m₁ slab = ownedBy m slab := funext (hframe.ownedBy slab)
        rw [howned] at hremoved hremaining
        refine ⟨m₂, removed', remaining', ?_, ?_, ?_, ?_, hsize₂.trans hsize⟩
        · rw [if_neg howner, hset, Option.bind_eq_bind, Option.bind_some, hloop]
        · simpa [List.filter_cons, ownedBy_of_block hb, howner] using hremoved
        · simpa [List.filter_cons, ownedBy_of_block hb, howner] using hremaining
        · exact (hframe.mono (by simp)).trans (hframe₂.mono (by simp))

theorem chainTail_of_chain {m : Memory} {xs : List Nat} :
    ∀ {a last : Nat} {fuel : Nat}, Chain m.next (some a) (xs ++ [last]) → xs.length < fuel →
      chainTail m fuel a = some last := by
  induction xs with
  | nil =>
      intro a last fuel hchain hfuel
      obtain ⟨heq, q, hq, hnil⟩ := chain_cons.mp hchain
      obtain rfl := Option.some.inj heq
      obtain rfl := chain_nil.mp hnil
      obtain ⟨fuel, rfl⟩ : ∃ n, fuel = n + 1 := ⟨fuel - 1, by omega⟩
      simp [chainTail, hq]
  | cons b xs ih =>
      intro a last fuel hchain hfuel
      obtain ⟨heq, q, hq, hrest⟩ := chain_cons.mp hchain
      obtain rfl := Option.some.inj heq
      obtain ⟨fuel, rfl⟩ : ∃ n, fuel = n + 1 := ⟨fuel - 1, by simp at hfuel; omega⟩
      obtain ⟨c, rfl⟩ : ∃ c, q = some c := by
        cases xs with
        | nil => exact ⟨last, hrest.1⟩
        | cons c xs => exact ⟨c, hrest.1⟩
      have hlength : xs.length < fuel := by simpa using hfuel
      simp only [chainTail, hq, Option.bind_eq_bind, Option.bind_some]
      exact ih hrest hlength

/-- **Rejoining.** The second list is appended to the first. -/
theorem joinFreeLists_of_chains {m : Memory} {p q : Ptr} {xs ys : List Nat}
    (hxs : Chain m.next p xs) (hys : Chain m.next q ys) (hdisj : ∀ a ∈ xs, a ∉ ys)
    (hlength : xs.length ≤ addressSpace) :
    ∃ m' r, joinFreeLists m p q = some (m', r) ∧ Chain m'.next r (xs ++ ys) ∧ Framed xs m m' ∧
      m'.size = m.size := by
  rcases List.eq_nil_or_concat xs with rfl | ⟨init, last, rfl⟩
  · obtain rfl := chain_nil.mp hxs
    exact ⟨m, q, rfl, hys, Framed.refl _ _, rfl⟩
  · rw [List.concat_eq_append] at *
    obtain ⟨a, rfl⟩ : ∃ a, p = some a := by
      rw [hxs.head?_eq]
      exact Option.isSome_iff_exists.mp (by simp)
    have htail : chainTail m addressSpace a = some last :=
      chainTail_of_chain hxs (by simp at hlength; omega)
    obtain ⟨m', hset, hframe, hsize, hjoined⟩ := exists_join hxs hys (hdisj last (by simp))
    refine ⟨m', some a, ?_, by simpa using hjoined, hframe.mono (by simp), hsize⟩
    simp only [joinFreeLists, htail, hset, Option.bind_eq_bind, Option.bind_some]

/-! ### The registry -/

variable {Tid : Type}

/-- The link that follows the slabs `done`. -/
def linkAfter (done : List Nat) : RegistryLink :=
  match done.getLast? with
  | none => .head
  | some last => .next last

@[simp]
theorem linkAfter_nil : linkAfter [] = .head := rfl

@[simp]
theorem linkAfter_append (done : List Nat) (base : Nat) : linkAfter (done ++ [base]) = .next base := by
  simp [linkAfter]

theorem readLink_linkAfter {s : State Tid} {done l : List Nat}
    (hregistry : Chain s.memory.slabNext s.slabs (done ++ l)) :
    readLink s (linkAfter done) = some l.head? := by
  obtain ⟨r, hpath, hchain⟩ := chain_append.mp hregistry
  obtain rfl := hchain.head?_eq
  rcases List.eq_nil_or_concat done with rfl | ⟨init, last, rfl⟩
  · rw [linkAfter_nil, readLink]
    exact congrArg some hpath
  · rw [List.concat_eq_append] at *
    obtain ⟨_, -, hlast⟩ := path_append.mp hpath
    obtain ⟨-, q, hq, hnil⟩ := path_cons.mp hlast
    rw [linkAfter_append, readLink, ← path_nil.mp hnil]
    exact hq

/-- Only registry links differ: the header at each address is the same but for `next`. -/
structure SameSlabs (m m' : Memory) : Prop where
  block : m'.block = m.block
  byte : m'.byte = m.byte
  slab : ∀ base, ∃ next, m'.slab base = (m.slab base).map fun h => { h with next := next }

theorem SameSlabs.refl (m : Memory) : SameSlabs m m := by
  refine ⟨rfl, rfl, fun base => ?_⟩
  cases hh : m.slab base with
  | none => exact ⟨none, rfl⟩
  | some h => exact ⟨h.next, rfl⟩

/-- **Restoring a link.** Writing back what a link held before undoes a write to it, whatever happened to
the blocks in between. -/
theorem writeLink_restore {s s₁ : State Tid} (s₂ : State Tid) {link : RegistryLink} {q target : Ptr}
    (hread : readLink s link = some q) (hwrite : writeLink s link target = some s₁)
    (hslab : s₂.memory.slab = s₁.memory.slab) (hslabs : s₂.slabs = s₁.slabs) :
    writeLink s₂ link q
      = some { s₂ with memory := { s₂.memory with slab := s.memory.slab }, slabs := s.slabs } := by
  cases link with
  | head =>
      obtain rfl := Option.some.inj hwrite
      obtain rfl := Option.some.inj hread
      have hslab' : s₂.memory.slab = s.memory.slab := hslab
      rw [writeLink, ← hslab']
  | next last =>
      obtain ⟨h, hh, rfl⟩ := Option.map_eq_some_iff.mp hread
      rw [writeLink, Memory.setSlabNext, hh] at hwrite
      obtain rfl := Option.some.inj hwrite
      have hslab' : s₂.memory.slab = Function.update s.memory.slab last
        (some { h with next := target }) := hslab
      have hslabs' : s₂.slabs = s.slabs := hslabs
      have hrestored : Function.update s₂.memory.slab last (some h) = s.memory.slab := by
        rw [hslab', Function.update_idem, ← hh, Function.update_eq_self]
      rw [writeLink, Memory.setSlabNext, hslab', Function.update_self, Option.map_some, ← hslab',
        Option.bind_eq_bind, Option.bind_some, hrestored, ← hslabs']

/-- **Relinking.** Writing the link after `done` makes `done` lead to any chain of other slabs. -/
theorem exists_writeLink {s : State Tid} {done todo todo' : List Nat} {target : Ptr}
    (hregistry : Chain s.memory.slabNext s.slabs (done ++ todo))
    (htarget : Chain s.memory.slabNext target todo') (hdisj : ∀ base ∈ done, base ∉ todo') :
    ∃ m slabs, writeLink s (linkAfter done) target = some { s with memory := m, slabs := slabs } ∧
      Chain m.slabNext slabs (done ++ todo') ∧ SameSlabs s.memory m ∧
      ∀ base, base ∉ done → m.slab base = s.memory.slab base := by
  rcases List.eq_nil_or_concat done with rfl | ⟨init, last, rfl⟩
  · exact ⟨s.memory, target, rfl, htarget, SameSlabs.refl _, fun _ _ => rfl⟩
  · rw [List.concat_eq_append] at *
    obtain ⟨r, hpath, -⟩ := chain_append.mp hregistry
    obtain ⟨_, _, hlast⟩ := path_append.mp hpath
    obtain ⟨-, q, hq, -⟩ := path_cons.mp hlast
    obtain ⟨h, hh, -⟩ := Option.map_eq_some_iff.mp hq
    have hnotMem : last ∉ init := by
      have hnodup := hregistry.nodup
      rw [List.append_assoc, List.nodup_append] at hnodup
      intro hmem
      exact hnodup.2.2 last hmem last (by simp) rfl
    refine ⟨{ s.memory with
        slab := Function.update s.memory.slab last (some { h with next := target }) }, s.slabs, ?_, ?_,
      ⟨rfl, rfl, fun base => ?_⟩, fun base hbase => ?_⟩
    · rw [linkAfter_append, writeLink, Memory.setSlabNext, hh]
      rfl
    · have hnext : Memory.slabNext { s.memory with
          slab := Function.update s.memory.slab last (some { h with next := target }) }
          = Function.update s.memory.slabNext last (some target) := by
        funext x
        by_cases hx : x = last
        · subst hx
          simp [slabNext]
        · simp [slabNext, hx]
      rw [hnext]
      refine chain_append.mpr ⟨target, Path.relink_last last target hpath hnotMem, ?_⟩
      apply htarget.congr
      intro base hbase
      have hne : base ≠ last := fun heq => hdisj last (by simp) (heq ▸ hbase)
      exact Function.update_of_ne hne _ _
    · by_cases hb : base = last
      · subst hb
        exact ⟨target, by simp [hh]⟩
      · obtain ⟨next, hnext⟩ := (SameSlabs.refl s.memory).slab base
        exact ⟨next, by rw [← hnext]; simp [hb]⟩
    · have hne : base ≠ last := fun heq => hbase (by simp [heq])
      simp [hne]

end Hplf
