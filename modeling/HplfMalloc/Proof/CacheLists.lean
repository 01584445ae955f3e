import HplfMalloc.Lib.Intervals
import HplfMalloc.Proof.ThreadCacheLemmas
import Mathlib.Algebra.BigOperators.Fin

/-!
# A cache as lists of blocks

`CacheRep` says that a cache represents one list of blocks for each class: the chains are these lists, the
counts their lengths, and the byte total their weight. The blocks are distinct objects of one address
space, so the total is always a size. Each operation of `thread_cache.c` on a cache that represents some
lists acts on these lists, and what it leaves represents the lists that remain.
-/

namespace Hplf

open Lib Memory ThreadCache
open scoped BigOperators

/-- The bytes of a slot of the class: prefix and payload. -/
def slotBytes (c : ClassIndex) : Nat := sizeofBlock + sizeClassCapacities c

/-- The blocks are distinct objects in one address space. -/
structure Separate (lists : ClassIndex → List Nat) : Prop where
  fits : ∀ c, ∀ a ∈ lists c, a + slotBytes c ≤ addressSpace
  apart : ∀ c e, ∀ a ∈ lists c, ∀ b ∈ lists e, (c, a) ≠ (e, b) →
    a + slotBytes c ≤ b ∨ b + slotBytes e ≤ a

/-- **The representation.** The cache holds these lists, and its counters agree with them. -/
structure CacheRep (m : Memory) (cache : ThreadCache) (lists : ClassIndex → List Nat) : Prop where
  chain : ∀ c, Chain m.next (cache.heads c) (lists c)
  count : ∀ c, cache.counts c = (lists c).length
  bytes : cache.totalSlotBytes = ∑ c, cache.counts c * sizeClassCapacities c
  separate : Separate lists

variable {m m' : Memory} {cache : ThreadCache} {lists lists' : ClassIndex → List Nat} {c : ClassIndex}

/-! ### Separate blocks -/

theorem Separate.subset (hseparate : Separate lists) (hsub : ∀ c, lists' c ⊆ lists c) :
    Separate lists' where
  fits c a ha := hseparate.fits c a (hsub c ha)
  apart c e a ha b hb := hseparate.apart c e a (hsub c ha) b (hsub e hb)

/-- No block is in the lists of two classes. -/
theorem Separate.disjoint (hseparate : Separate lists) {e : ClassIndex} {a : Nat} (ha : a ∈ lists c)
    (hne : e ≠ c) : a ∉ lists e := by
  intro hmem
  have hapart := hseparate.apart c e a ha a hmem fun heq => hne (congrArg Prod.fst heq).symm
  have hpos : 0 < sizeofBlock := by decide
  unfold slotBytes at hapart
  omega

/-- All blocks of the lists of some classes, with their classes. -/
def labelled (lists : ClassIndex → List Nat) (classes : List ClassIndex) : List (ClassIndex × Nat) :=
  classes.flatMap fun c => (lists c).map fun a => (c, a)

theorem mem_labelled {classes : List ClassIndex} {b : ClassIndex × Nat} :
    b ∈ labelled lists classes ↔ b.1 ∈ classes ∧ b.2 ∈ lists b.1 := by
  obtain ⟨e, a⟩ := b
  simp [labelled]

theorem nodup_labelled {classes : List ClassIndex} (hclasses : classes.Nodup)
    (hlists : ∀ c, (lists c).Nodup) : (labelled lists classes).Nodup := by
  refine List.nodup_flatMap.mpr ⟨fun c _ => (hlists c).map fun a b heq => congrArg Prod.snd heq, ?_⟩
  refine hclasses.imp fun hne b hleft hright => ?_
  obtain ⟨a, -, rfl⟩ := List.mem_map.mp hleft
  obtain ⟨a', -, heq⟩ := List.mem_map.mp hright
  exact hne (congrArg Prod.fst heq).symm

theorem sum_labelled (classes : List ClassIndex) :
    ((labelled lists classes).map fun b => slotBytes b.1).sum
      = (classes.map fun c => (lists c).length * slotBytes c).sum := by
  induction classes with
  | nil => rfl
  | cons c rest ih =>
      have hcons : labelled lists (c :: rest)
          = ((lists c).map fun a => (c, a)) ++ labelled lists rest := List.flatMap_cons
      calc ((labelled lists (c :: rest)).map fun b => slotBytes b.1).sum
        _ = (((lists c).map fun a => (c, a)).map fun b => slotBytes b.1).sum
              + ((labelled lists rest).map fun b => slotBytes b.1).sum := by
            rw [hcons, List.map_append, List.sum_append]
        _ = (lists c).length * slotBytes c + (rest.map fun c => (lists c).length * slotBytes c).sum := by
            rw [ih, List.map_map]
            simp [Function.comp_def]
        _ = ((c :: rest).map fun c => (lists c).length * slotBytes c).sum := by
            rw [List.map_cons, List.sum_cons]

/-- The payloads of separate blocks take less than the address space. -/
theorem Separate.bytes_lt (hseparate : Separate lists) (hlists : ∀ c, (lists c).Nodup) :
    ∑ c, (lists c).length * sizeClassCapacities c < 2 ^ 64 := by
  have hpairwise : (labelled lists classIndices).Pairwise fun b b' =>
      b.2 + slotBytes b.1 ≤ b'.2 ∨ b'.2 + slotBytes b'.1 ≤ b.2 := by
    apply (nodup_labelled nodup_classIndices hlists).pairwise_of_forall_ne
    intro b hb b' hb' hne
    exact hseparate.apart b.1 b'.1 b.2 (mem_labelled.mp hb).2 b'.2 (mem_labelled.mp hb').2 hne
  have hslots := sum_lengths_le 0 addressSpace hpairwise fun b hb =>
    ⟨Nat.zero_le _, hseparate.fits b.1 b.2 (mem_labelled.mp hb).2⟩
  rw [sum_labelled, classIndices, ← Fin.sum_univ_def] at hslots
  have hsplit : ∑ c, (lists c).length * slotBytes c
      = sizeofBlock * ∑ c, (lists c).length + ∑ c, (lists c).length * sizeClassCapacities c := by
    rw [Finset.mul_sum, ← Finset.sum_add_distrib]
    apply Finset.sum_congr rfl
    intro c _
    rw [slotBytes, Nat.mul_add, Nat.mul_comm sizeofBlock]
  rcases Nat.eq_zero_or_pos (∑ c, (lists c).length) with hzero | hpos
  · have hlength : ∀ c, (lists c).length = 0 := fun c =>
      Finset.sum_eq_zero_iff.mp hzero c (Finset.mem_univ c)
    simp [hlength]
  · rw [hsplit] at hslots
    simp only [sizeofBlock, addressSpace] at hslots
    omega

/-- Distinct blocks of one class are fewer than the addresses. -/
theorem Separate.length_lt (hseparate : Separate lists) {xs : List Nat} (hsub : xs ⊆ lists c)
    (hnodup : xs.Nodup) : xs.length < addressSpace := by
  have halone : Separate (Function.update (fun _ => []) c xs) := hseparate.subset fun e => by
    by_cases he : e = c
    · subst he
      rwa [Function.update_self]
    · simp [Function.update_of_ne he]
  have hbytes := halone.bytes_lt fun e => by
    by_cases he : e = c
    · subst he
      rwa [Function.update_self]
    · simp [Function.update_of_ne he]
  calc xs.length ≤ xs.length * sizeClassCapacities c :=
        Nat.le_mul_of_pos_right xs.length (sizeClassCapacities_pos c)
    _ ≤ ∑ e, (Function.update (fun _ => []) c xs e).length * sizeClassCapacities e := by
        have hsingle := Finset.single_le_sum
          (f := fun e => (Function.update (fun _ => []) c xs e).length * sizeClassCapacities e)
          (fun _ _ => Nat.zero_le _) (Finset.mem_univ c)
        rwa [Function.update_self] at hsingle
    _ < 2 ^ 64 := hbytes

/-- Nodes of a list to come are in no other list. -/
theorem Separate.not_mem_nodes {ys nodes : List Nat} (hseparate : Separate (Function.update lists c ys))
    (hsub : nodes ⊆ ys) : ∀ e, e ≠ c → ∀ a ∈ lists e, a ∉ nodes := by
  intro e he a ha hmem
  have hys : a ∈ Function.update lists c ys c := by
    rw [Function.update_self]
    exact hsub hmem
  have hnot := hseparate.disjoint hys he
  rw [Function.update_of_ne he] at hnot
  exact hnot ha

/-- A class keeps some of the blocks it has, or was to have. -/
theorem Separate.shrink {xs ys : List Nat} (hseparate : Separate (Function.update lists c xs))
    (hsub : ys ⊆ xs) : Separate (Function.update lists c ys) := by
  apply hseparate.subset
  intro e
  by_cases he : e = c
  · subst he
    rwa [Function.update_self, Function.update_self]
  · rw [Function.update_of_ne he, Function.update_of_ne he]
    exact fun _ h => h

/-! ### Operations on the lists -/

theorem CacheRep.nodup (hrep : CacheRep m cache lists) (c : ClassIndex) : (lists c).Nodup :=
  (hrep.chain c).nodup

theorem CacheRep.sound (hrep : CacheRep m cache lists) : cache.Sound := by
  refine ⟨hrep.bytes, ?_⟩
  rw [hrep.bytes]
  simp only [hrep.count]
  exact hrep.separate.bytes_lt hrep.nodup

theorem CacheRep.length_lt (hrep : CacheRep m cache lists) (c : ClassIndex) :
    (lists c).length < addressSpace :=
  hrep.count c ▸ hrep.sound.count_lt c

theorem CacheRep.shrink (hrep : CacheRep m cache lists) {ys : List Nat} (hsub : ys ⊆ lists c) :
    Separate (Function.update lists c ys) := by
  have hself : Separate (Function.update lists c (lists c)) := by
    rw [Function.update_eq_self]
    exact hrep.separate
  exact hself.shrink hsub

/-- Writing links of other blocks leaves the cache as it is. -/
theorem CacheRep.framed (hrep : CacheRep m cache lists) {nodes : List Nat} (hframe : Framed nodes m m')
    (hnodes : ∀ e, ∀ a ∈ lists e, a ∉ nodes) : CacheRep m' cache lists :=
  { hrep with chain := fun c => hframe.chain (hrep.chain c) (hnodes c) }

/-- **One class changes.** Links are written outside the other lists only, and the total moves with the
length of the list. -/
theorem CacheRep.withClass (hrep : CacheRep m cache lists) {nodes ys : List Nat} {head : Ptr}
    {total : Nat} (hframe : Framed nodes m m')
    (hnodes : ∀ e, e ≠ c → ∀ a ∈ lists e, a ∉ nodes) (hchain : Chain m'.next head ys)
    (hseparate : Separate (Function.update lists c ys))
    (htotal : total + (lists c).length * sizeClassCapacities c
      = cache.totalSlotBytes + ys.length * sizeClassCapacities c) :
    CacheRep m' (cache.withClass c head ys.length total) (Function.update lists c ys) where
  chain e := by
    by_cases he : e = c
    · subst he
      simpa [ThreadCache.withClass] using hchain
    · simpa [ThreadCache.withClass, he] using hframe.chain (hrep.chain e) (hnodes e he)
  count e := by
    by_cases he : e = c
    · subst he
      simp [ThreadCache.withClass]
    · simpa [ThreadCache.withClass, he] using hrep.count e
  bytes := balanced_withClass hrep.bytes (by rw [hrep.count c]; exact htotal)
  separate := hseparate

/-- **Taking.** The first block of the list leaves it, if there is one. -/
theorem CacheRep.take (hrep : CacheRep m cache lists) (c : ClassIndex) :
    ∃ m' cache', threadCacheTake m cache c (sizeClassCapacities c)
        = some (m', cache', (lists c).head?) ∧
      CacheRep m' cache' (Function.update lists c (lists c).tail) := by
  cases hlist : lists c with
  | nil =>
      have hhead : cache.heads c = none := by rw [(hrep.chain c).head?_eq, hlist, List.head?_nil]
      refine ⟨m, cache, threadCacheTake_miss hhead, ?_⟩
      rwa [List.tail_nil, ← hlist, Function.update_eq_self]
  | cons a xs =>
      have hchain := hlist ▸ hrep.chain c
      have hcount : cache.counts c = xs.length + 1 := by rw [hrep.count, hlist, List.length_cons]
      obtain ⟨m', htake, hframe, -, hrest⟩ := threadCacheTake_hit hrep.sound hchain hcount
      refine ⟨m', _, htake, hrep.withClass hframe ?_ hrest ?_ ?_⟩
      · intro e he b hb hmem
        obtain rfl := List.mem_singleton.mp hmem
        have ha : b ∈ lists c := by simp [hlist]
        exact hrep.separate.disjoint ha he hb
      · exact hrep.shrink (by simp [hlist])
      · have hle := hrep.sound.mul_le c
        rw [hcount, Nat.add_mul] at hle
        rw [hlist, List.length_cons, Nat.add_mul]
        omega

/-- **Storing.** A block that is not cached becomes the first of its list. -/
theorem CacheRep.store (hrep : CacheRep m cache lists) {a : Nat} {q : Ptr} (hnext : m.next a = some q)
    (hnotMem : a ∉ lists c) (hseparate : Separate (Function.update lists c (a :: lists c))) :
    ∃ m' cache', threadCacheStore m cache c (sizeClassCapacities c) a = some (m', cache') ∧
      cache' = cache.withClass c (some a) (cache.counts c + 1)
        (cache.totalSlotBytes + sizeClassCapacities c) ∧
      CacheRep m' cache' (Function.update lists c (a :: lists c)) := by
  obtain ⟨m', hstore, hframe, -, hchain⟩ :=
    threadCacheStore_of_chain (sizeClassCapacities c) hnext (hrep.chain c) hnotMem
  refine ⟨m', _, hstore, rfl, ?_⟩
  have hlength : cache.counts c + 1 = (a :: lists c).length := by rw [hrep.count, List.length_cons]
  rw [hlength]
  apply hrep.withClass hframe (hseparate.not_mem_nodes (by simp)) hchain hseparate
  rw [List.length_cons, Nat.add_mul]
  omega

/-- **Refilling.** A prefix of the available blocks goes in front of the cached ones. -/
theorem CacheRep.refill (hrep : CacheRep m cache lists) {available : TransferList} {xs : List Nat}
    (howns : available.Owns m xs) (hdisj : ∀ a ∈ xs, a ∉ lists c)
    (hseparate : Separate (Function.update lists c (xs ++ lists c))) :
    let n := refillLimit cache c (sizeClassCapacities c)
    ∃ m' cache' available',
      threadCacheRefill m cache c (sizeClassCapacities c) available = some (m', cache', available') ∧
      available'.Owns m' (xs.drop n) ∧
      CacheRep m' cache' (Function.update lists c (xs.take n ++ lists c)) := by
  intro n
  have hall : xs ⊆ Function.update lists c (xs ++ lists c) c := by
    rw [Function.update_self]
    exact List.subset_append_left xs (lists c)
  have hlength : xs.length < addressSpace := hseparate.length_lt hall howns.chain.nodup
  obtain ⟨m', available', hrefill, hrest, hchain, hframe, -⟩ :=
    threadCacheRefill_of_chain (sizeClassCapacities c) howns hlength (hrep.chain c) hdisj
  have haccepted : xs.take n ++ lists c ⊆ xs ++ lists c :=
    List.append_subset.mpr ⟨fun a ha => List.mem_append_left _ (List.mem_of_mem_take ha),
      List.subset_append_right _ _⟩
  refine ⟨m', _, available', hrefill, hrest, ?_⟩
  have hcount : cache.counts c + (xs.take n).length = (xs.take n ++ lists c).length := by
    rw [hrep.count, List.length_append, Nat.add_comm]
  rw [hcount]
  refine hrep.withClass hframe (hseparate.not_mem_nodes ?_) hchain (hseparate.shrink haccepted) ?_
  · exact fun a ha => List.mem_append_left _ (List.mem_of_mem_take ha)
  · rw [List.length_append, Nat.add_mul]
    simp only [n]
    omega

/-- **Restoring.** A list goes in front of the cached blocks. -/
theorem CacheRep.restore (hrep : CacheRep m cache lists) {list : TransferList} {xs : List Nat}
    (howns : list.Owns m xs) (hdisj : ∀ a ∈ xs, a ∉ lists c)
    (hseparate : Separate (Function.update lists c (xs ++ lists c))) :
    ∃ m' cache', threadCacheRestore m cache c (sizeClassCapacities c) list = some (m', cache') ∧
      CacheRep m' cache' (Function.update lists c (xs ++ lists c)) := by
  by_cases hnil : xs = []
  · subst hnil
    have hfirst : list.first = none := howns.chain
    refine ⟨m, cache, by simp [threadCacheRestore, hfirst], ?_⟩
    rwa [List.nil_append, Function.update_eq_self]
  · obtain ⟨first, last, m', hfirst, hlast, hset, hframe, -, hchain⟩ :=
      howns.exists_prepend hnil (hrep.chain c) hdisj
    refine ⟨m', cache.withClass c (some first) (cache.counts c + xs.length)
      (cache.totalSlotBytes + xs.length * sizeClassCapacities c), ?_, ?_⟩
    · simp [threadCacheRestore, hfirst, hlast, hset, howns.count, ThreadCache.withClass]
    · have hcount : cache.counts c + xs.length = (xs ++ lists c).length := by
        rw [hrep.count, List.length_append, Nat.add_comm]
      rw [hcount]
      refine hrep.withClass hframe (hseparate.not_mem_nodes ?_) hchain hseparate ?_
      · exact List.subset_append_left _ _
      · rw [List.length_append, Nat.add_mul]
        omega

/-- What is left after an extraction represents what is left of the lists. -/
theorem CacheRep.extracts (hrep : CacheRep m cache lists) {cache' : ThreadCache} {n : Nat}
    {output : TransferList} (hextracts : Extracts lists cache c n m m' cache' output) :
    CacheRep m' cache' (Function.update lists c ((lists c).drop n)) := by
  obtain ⟨-, rfl, -, hrest, hframe, -⟩ := hextracts
  refine hrep.withClass hframe ?_ hrest ?_ ?_
  · intro e he a ha hmem
    exact hrep.separate.disjoint (List.mem_of_mem_take hmem) he ha
  · exact hrep.shrink (List.drop_subset n _)
  · have hle := hrep.sound.mul_le c
    have hlength : (lists c).length = ((lists c).take n).length + ((lists c).drop n).length := by
      rw [← List.length_append, List.take_append_drop]
    rw [hrep.count, hlength, Nat.add_mul] at hle
    rw [hlength, Nat.add_mul]
    omega

/-- **Extracting.** A prefix of the list leaves it, unless there is nothing to take. -/
theorem CacheRep.extractClass (hrep : CacheRep m cache lists) (c : ClassIndex) (n : Nat) :
    ∃ m' cache' output, threadCacheExtractClass m cache c n = some (m', cache', output) ∧
      (output = none ↔ (lists c).take n = []) ∧
      (∀ list, output = some list → list.Owns m' ((lists c).take n)) ∧
      CacheRep m' cache' (Function.update lists c ((lists c).drop n)) := by
  by_cases hnil : (lists c).take n = []
  · have hdrop : (lists c).drop n = lists c := by
      rw [List.take_eq_nil_iff] at hnil
      rcases hnil with rfl | hnil
      · rfl
      · rw [hnil, List.drop_nil]
    refine ⟨m, cache, none, ?_, by simp [hnil], by simp, ?_⟩
    · rw [List.take_eq_nil_iff] at hnil
      rcases hnil with rfl | hnil
      · rw [threadCacheExtractClass, sizeClassCapacity_val]
        simp
      · apply threadCacheExtractClass_empty
        rw [(hrep.chain c).head?_eq, hnil, List.head?_nil]
    · rwa [hdrop, Function.update_eq_self]
  · obtain ⟨hn, hne⟩ := not_or.mp (mt List.take_eq_nil_iff.mpr hnil)
    obtain ⟨m', output, hextract, houtput, hrest, hframe, hsize⟩ :=
      threadCacheExtractClass_of_chain hrep.sound (hrep.chain c) (hrep.count c)
        (Nat.pos_of_ne_zero hn) hne
    refine ⟨m', _, some output, hextract, by simp [hnil], ?_, ?_⟩
    · rintro list ⟨rfl⟩
      exact houtput
    · exact hrep.extracts ⟨hnil, rfl, houtput, hrest, hframe, hsize⟩

/-- **Evicting.** Whatever the caps call for leaves the list of one class. -/
theorem CacheRep.extractEviction (hrep : CacheRep m cache lists) (c : ClassIndex) :
    ∃ m' cache' output lists', threadCacheExtractEviction m cache c = some (m', cache', output) ∧
      (∀ e list, output = some (e, list) → ∃ xs, list.Owns m' xs ∧ xs ++ lists' e = lists e) ∧
      CacheRep m' cache' lists' := by
  rcases threadCacheExtractEviction_of_chains lists hrep.sound hrep.chain hrep.count c with
    ⟨-, hnone⟩ | ⟨e, n, m', cache', output, -, hextract, hextracts⟩
  · exact ⟨m, cache, none, lists, hnone, by simp, hrep⟩
  · refine ⟨m', cache', _, _, hextract, ?_, hrep.extracts hextracts⟩
    rintro e' list heq
    obtain ⟨rfl, rfl⟩ := Prod.mk.inj (Option.some.inj heq)
    refine ⟨_, hextracts.output, ?_⟩
    rw [Function.update_self, List.take_append_drop]

/-! ### Snapshots -/

theorem listLengthLoop_of_chain {xs : List Nat} :
    ∀ {p : Ptr} {fuel length : Nat}, Chain m.next p xs → xs.length ≤ fuel →
      listLengthLoop m fuel p length = some (length + xs.length) := by
  induction xs with
  | nil =>
      intro p fuel length hchain _
      obtain rfl := chain_nil.mp hchain
      cases fuel <;> rfl
  | cons a xs ih =>
      intro p fuel length hchain hfuel
      obtain ⟨rfl, q, hq, hrest⟩ := chain_cons.mp hchain
      obtain ⟨fuel, rfl⟩ : ∃ n, fuel = n + 1 := ⟨fuel - 1, by simp at hfuel; omega⟩
      have hlength : xs.length ≤ fuel := by simpa using hfuel
      rw [listLengthLoop, hq, Option.bind_eq_bind, Option.bind_some, ih hrest hlength, List.length_cons]
      congr 1
      omega

theorem sizeT_sizeT_add (a b : Nat) : sizeT (sizeT a + b) = sizeT (a + b) := by
  unfold sizeT
  omega

/-- **Snapshots of chains.** The snapshot copies the counters and compares them with the lengths of the lists;
the byte total is compared as a size. -/
theorem snapshotLoop_of_chains (hchain : ∀ c, Chain m.next (cache.heads c) (lists c))
    (hlength : ∀ c, (lists c).length ≤ addressSpace) (classes : List ClassIndex) :
    ∀ (snapshot : ThreadCacheSnapshot) (n : Nat) (countsMatch : Bool), snapshot.computedSlotBytes = sizeT n →
      ∃ snapshot' r, snapshotLoop m cache classes snapshot countsMatch = some (snapshot', r) ∧
        (∀ c ∈ classes, snapshot'.counts c = cache.counts c) ∧
        (∀ c, c ∉ classes → snapshot'.counts c = snapshot.counts c) ∧
        snapshot'.totalSlotBytes = cache.totalSlotBytes ∧
        (r = true ↔ countsMatch = true ∧ (∀ c ∈ classes, cache.counts c = (lists c).length) ∧
          sizeT (n + (classes.map fun c => (lists c).length * sizeClassCapacities c).sum)
            = cache.totalSlotBytes) := by
  induction classes with
  | nil =>
      intro snapshot n countsMatch hn
      refine ⟨_, _, rfl, by simp, fun _ _ => rfl, rfl, ?_⟩
      simp [hn]
  | cons c rest ih =>
      intro snapshot n countsMatch hn
      have hloop : listLengthLoop m addressSpace (cache.heads c) 0 = some (lists c).length := by
        rw [listLengthLoop_of_chain (hchain c) (hlength c), Nat.zero_add]
      rw [snapshotLoop, sizeClassCapacity_val]
      simp only [hloop, Option.bind_eq_bind, Option.bind_some]
      obtain ⟨snapshot', r, hrest, hinside, houtside, htotal, hr⟩ := ih
        { snapshot with
          counts := Function.update snapshot.counts c (cache.counts c)
          listLengths := Function.update snapshot.listLengths c (lists c).length
          computedSlotBytes := sizeT (snapshot.computedSlotBytes + (lists c).length * sizeClassCapacities c) }
        (n + (lists c).length * sizeClassCapacities c) (countsMatch && cache.counts c = (lists c).length)
        (by rw [hn, sizeT_sizeT_add])
      refine ⟨snapshot', r, hrest, ?_, fun e he => ?_, htotal, ?_⟩
      · rw [List.forall_mem_cons]
        refine ⟨?_, hinside⟩
        by_cases hc : c ∈ rest
        · exact hinside c hc
        · rw [houtside c hc]
          exact Function.update_self _ _ _
      · rw [List.mem_cons, not_or] at he
        rw [houtside e he.2]
        exact Function.update_of_ne he.1 _ _
      · rw [hr, List.forall_mem_cons, List.map_cons, List.sum_cons, Bool.and_eq_true, decide_eq_true_eq,
          Nat.add_assoc, and_assoc, and_assoc]

theorem threadCacheSnapshot_of_chains (hchain : ∀ c, Chain m.next (cache.heads c) (lists c))
    (hlength : ∀ c, (lists c).length ≤ addressSpace) :
    ∃ snapshot r, threadCacheSnapshot m cache = some (snapshot, r) ∧ snapshot.counts = cache.counts ∧
      snapshot.totalSlotBytes = cache.totalSlotBytes ∧
      (r = true ↔ (∀ c, cache.counts c = (lists c).length) ∧
        sizeT (∑ c, (lists c).length * sizeClassCapacities c) = cache.totalSlotBytes) := by
  obtain ⟨snapshot, r, hloop, hinside, -, htotal, hr⟩ := snapshotLoop_of_chains hchain hlength classIndices
    ⟨fun _ => 0, fun _ => 0, 0, 0⟩ 0 true rfl
  refine ⟨snapshot, r, hloop, funext fun c => hinside c (mem_classIndices c), htotal, ?_⟩
  rw [hr, Nat.zero_add, classIndices, ← Fin.sum_univ_def]
  simp

theorem CacheRep.snapshot (hrep : CacheRep m cache lists) :
    ∃ snapshot, threadCacheSnapshot m cache = some (snapshot, true) := by
  obtain ⟨snapshot, r, hsnapshot, -, -, hr⟩ :=
    threadCacheSnapshot_of_chains hrep.chain fun c => (hrep.length_lt c).le
  have htrue : r = true := by
    refine hr.mpr ⟨hrep.count, ?_⟩
    have hbytes := hrep.bytes
    simp only [hrep.count] at hbytes
    rw [← hbytes]
    exact Nat.mod_eq_of_lt hrep.sound.bounded
  exact ⟨snapshot, htrue ▸ hsnapshot⟩

end Hplf
