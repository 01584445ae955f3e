import HplfMalloc.ThreadCache
import HplfMalloc.Proof.TransferListLemmas
import Mathlib.Algebra.BigOperators.Group.Finset.Basic
import Mathlib.Algebra.Order.BigOperators.Group.Finset
import Mathlib.Data.Fintype.BigOperators

/-!
# Thread-cache operations on the lists they hold

Each operation rewrites the head and the count of one class and the byte total. A cache is sound when its
total is the sum over the classes of count times capacity, and fits in a `size_t`; then no subtraction
of these operations wraps.
-/

namespace Hplf

open Lib Memory
open scoped BigOperators

namespace ThreadCache

/-- The cache with a new head and count for one class and a new total. -/
def withClass (cache : ThreadCache) (c : ClassIndex) (head : Ptr) (count total : Nat) :
    ThreadCache where
  heads := Function.update cache.heads c head
  counts := Function.update cache.counts c count
  totalSlotBytes := total

structure Sound (cache : ThreadCache) : Prop where
  balanced : cache.totalSlotBytes = ∑ c, cache.counts c * sizeClassCapacities c
  bounded : cache.totalSlotBytes < 2 ^ 64

/-- Both caps are met. -/
structure WithinCaps (cache : ThreadCache) : Prop where
  counts : ∀ c, cache.counts c ≤ cacheClassBlockLimit
  bytes : cache.totalSlotBytes ≤ cacheTotalBytesLimit

theorem sound_zeroed : threadCacheInitialize.Sound :=
  ⟨by simp [threadCacheInitialize], by simp [threadCacheInitialize]⟩

theorem withinCaps_zeroed : threadCacheInitialize.WithinCaps :=
  ⟨fun _ => Nat.zero_le _, Nat.zero_le _⟩

variable {cache : ThreadCache}

theorem Sound.mul_le (hsound : cache.Sound) (c : ClassIndex) :
    cache.counts c * sizeClassCapacities c ≤ cache.totalSlotBytes := by
  rw [hsound.balanced]
  exact Finset.single_le_sum (f := fun c => cache.counts c * sizeClassCapacities c)
    (fun _ _ => Nat.zero_le _) (Finset.mem_univ c)

theorem Sound.count_le (hsound : cache.Sound) (c : ClassIndex) :
    cache.counts c ≤ cache.totalSlotBytes :=
  (Nat.le_mul_of_pos_right _ (sizeClassCapacities_pos c)).trans (hsound.mul_le c)

theorem Sound.count_lt (hsound : cache.Sound) (c : ClassIndex) :
    cache.counts c < addressSpace :=
  (hsound.count_le c).trans_lt hsound.bounded

/-- Changing one class by some blocks and the total by their bytes keeps the balance. -/
theorem balanced_withClass
    (hbalanced : cache.totalSlotBytes = ∑ c, cache.counts c * sizeClassCapacities c)
    {c : ClassIndex} {head : Ptr} {count total : Nat}
    (htotal : total + cache.counts c * sizeClassCapacities c
      = cache.totalSlotBytes + count * sizeClassCapacities c) :
    total = ∑ e, (cache.withClass c head count total).counts e * sizeClassCapacities e := by
  have hupdate : (fun i => Function.update cache.counts c count i * sizeClassCapacities i)
      = Function.update (fun i => cache.counts i * sizeClassCapacities i) c
          (count * sizeClassCapacities c) := by
    funext i
    by_cases hi : i = c
    · subst hi
      simp
    · simp [hi]
  have hsum := Finset.sum_erase_add Finset.univ
    (fun i => cache.counts i * sizeClassCapacities i) (Finset.mem_univ c)
  simp only [ThreadCache.withClass, hupdate]
  rw [Finset.sum_update_of_mem (Finset.mem_univ c), Finset.sdiff_singleton_eq_erase]
  omega

theorem Sound.withClass (hsound : cache.Sound) {c : ClassIndex} {head : Ptr} {count total : Nat}
    (htotal : total + cache.counts c * sizeClassCapacities c
      = cache.totalSlotBytes + count * sizeClassCapacities c)
    (hbounded : total < 2 ^ 64) : (cache.withClass c head count total).Sound :=
  ⟨balanced_withClass hsound.balanced htotal, hbounded⟩

end ThreadCache

variable {m : Memory} {cache : ThreadCache} {c : ClassIndex}

theorem threadCacheTake_miss {capacity : Nat} (hhead : cache.heads c = none) :
    threadCacheTake m cache c capacity = some (m, cache, none) := by
  simp [threadCacheTake, hhead]

theorem threadCacheTake_hit {a : Nat} {xs : List Nat} (hsound : cache.Sound)
    (hchain : Chain m.next (cache.heads c) (a :: xs)) (hcount : cache.counts c = xs.length + 1) :
    ∃ m', threadCacheTake m cache c (sizeClassCapacities c) = some (m',
        cache.withClass c xs.head? xs.length (cache.totalSlotBytes - sizeClassCapacities c), some a) ∧
      Framed [a] m m' ∧ m'.size = m.size ∧ Chain m'.next xs.head? xs := by
  have hhead : cache.heads c = some a := hchain.1
  obtain ⟨hnext, m', hset, hframe, hsize, -, hrest⟩ :=
    exists_cut (show Chain m.next _ ([] ++ a :: xs) from hchain)
  refine ⟨m', ?_, hframe, hsize, hrest⟩
  have hle : sizeClassCapacities c ≤ cache.totalSlotBytes :=
    calc sizeClassCapacities c ≤ cache.counts c * sizeClassCapacities c :=
          Nat.le_mul_of_pos_left _ (by omega)
      _ ≤ cache.totalSlotBytes := hsound.mul_le c
  have hone : sizeSub (cache.counts c) 1 = xs.length := by
    rw [sizeSub_of_le (by omega) (hsound.count_lt c), hcount]
    rfl
  simp [threadCacheTake, hhead, hnext, hset, hone, sizeSub_of_le hle hsound.bounded,
    ThreadCache.withClass]

theorem threadCacheStore_of_chain {a : Nat} {q : Ptr} {xs : List Nat} (capacity : Nat)
    (hnext : m.next a = some q) (hchain : Chain m.next (cache.heads c) xs) (ha : a ∉ xs) :
    ∃ m', threadCacheStore m cache c capacity a = some (m',
        cache.withClass c (some a) (cache.counts c + 1) (cache.totalSlotBytes + capacity)) ∧
      Framed [a] m m' ∧ m'.size = m.size ∧ Chain m'.next (some a) (a :: xs) := by
  obtain ⟨m', hset, hframe, hsize, hnext'⟩ := exists_setNextFree hnext (cache.heads c)
  refine ⟨m', by simp [threadCacheStore, hset, ThreadCache.withClass], hframe, hsize, rfl,
    cache.heads c, by simp [hnext'], hframe.chain hchain ?_⟩
  intro b hb hmem
  rw [List.mem_singleton] at hmem
  exact ha (hmem ▸ hb)

theorem refillLimit_le : refillLimit cache c (sizeClassCapacities c) ≤ cacheRefillLimit := by
  unfold refillLimit
  simp only
  split <;> split <;> omega

/-- Under the caps a refill stays under them: the accepted blocks fit the class and the byte space. -/
theorem refillLimit_spec (hcaps : cache.WithinCaps) :
    cache.counts c + refillLimit cache c (sizeClassCapacities c) ≤ cacheClassBlockLimit ∧
      cache.totalSlotBytes + refillLimit cache c (sizeClassCapacities c) * sizeClassCapacities c
        ≤ cacheTotalBytesLimit := by
  have hclass := hcaps.counts c
  have hbytes := hcaps.bytes
  have hspace : sizeSub cacheClassBlockLimit (cache.counts c)
      = cacheClassBlockLimit - cache.counts c :=
    sizeSub_of_le hclass (by decide)
  have hroom : sizeSub cacheTotalBytesLimit cache.totalSlotBytes
      = cacheTotalBytesLimit - cache.totalSlotBytes :=
    sizeSub_of_le hbytes (by decide)
  have hdiv := Nat.div_mul_le_self (cacheTotalBytesLimit - cache.totalSlotBytes)
    (sizeClassCapacities c)
  have hlimit : refillLimit cache c (sizeClassCapacities c)
      ≤ cacheClassBlockLimit - cache.counts c ∧
      refillLimit cache c (sizeClassCapacities c)
        ≤ (cacheTotalBytesLimit - cache.totalSlotBytes) / sizeClassCapacities c := by
    unfold refillLimit
    simp only [hspace, hroom]
    constructor <;> split <;> split <;> omega
  have hmul := Nat.mul_le_mul_right (sizeClassCapacities c) hlimit.2
  omega

/-- A refill moves a prefix of the available blocks in front of the cached ones. -/
theorem threadCacheRefill_of_chain {available : TransferList} {xs ys : List Nat} (capacity : Nat)
    (howns : available.Owns m xs) (hlength : xs.length < addressSpace)
    (hchain : Chain m.next (cache.heads c) ys) (hdisj : ∀ a ∈ xs, a ∉ ys) :
    let n := refillLimit cache c capacity
    ∃ m' available', threadCacheRefill m cache c capacity available = some (m',
        cache.withClass c (xs.take n ++ ys).head? (cache.counts c + (xs.take n).length)
          (cache.totalSlotBytes + (xs.take n).length * capacity), available') ∧
      available'.Owns m' (xs.drop n) ∧ Chain m'.next (xs.take n ++ ys).head? (xs.take n ++ ys) ∧
      Framed (xs.take n) m m' ∧ m'.size = m.size := by
  intro n
  obtain ⟨m₁, available', accepted, htake, haccepted, hrest, hcount, hlast, hframe, hsize⟩ :=
    transferListTakePrefix_of_chain _ howns.chain howns.count hlength n
  have hchain₁ : Chain m₁.next (cache.heads c) ys := hframe.chain hchain fun a ha hmem =>
    hdisj a (List.mem_of_mem_take hmem) ha
  by_cases hnil : xs.take n = []
  · refine ⟨m₁, available', ?_, ⟨hrest, hlast howns.last, hcount⟩, ?_, hframe, hsize⟩
    · have hfirst : accepted.first = none := by
        have := haccepted.chain
        rwa [hnil] at this
      simp only [threadCacheRefill, n, htake, threadCacheRestore, hfirst, Option.bind_eq_bind,
        Option.bind_some, hnil, List.nil_append, List.length_nil, Nat.add_zero, Nat.zero_mul,
        ← hchain₁.head?_eq]
      simp [ThreadCache.withClass]
    · rw [hnil, List.nil_append, ← hchain₁.head?_eq]
      exact hchain₁
  · have hsub : ∀ a ∈ xs.take n, a ∉ ys := fun a ha => hdisj a (List.mem_of_mem_take ha)
    obtain ⟨first, last, m₂, hfirst, hlast', hset, hframe₂, hsize₂, hjoined⟩ :=
      haccepted.exists_prepend hnil hchain₁ hsub
    have hhead : (xs.take n ++ ys).head? = some first := hjoined.head?_eq.symm
    have hdrop : ∀ a ∈ xs.drop n, a ∉ xs.take n := by
      intro a ha hmem
      have hnodup := howns.chain.nodup
      rw [← List.take_append_drop n xs, List.nodup_append] at hnodup
      exact hnodup.2.2 a hmem a ha rfl
    refine ⟨m₂, available', ?_, ⟨hframe₂.chain hrest hdrop, hlast howns.last, hcount⟩, ?_,
      hframe.trans hframe₂, hsize₂.trans hsize⟩
    · simp only [threadCacheRefill, n, htake, threadCacheRestore, hfirst, hlast', hset,
        Option.bind_eq_bind, Option.bind_some, hhead, haccepted.count]
      rfl
    · rw [hhead]
      exact hjoined

/-- Extracting from a class takes a prefix of its list. -/
theorem threadCacheExtractClass_of_chain {ys : List Nat} {n : Nat} (hsound : cache.Sound)
    (hchain : Chain m.next (cache.heads c) ys) (hcount : cache.counts c = ys.length) (hn : 0 < n)
    (hne : ys ≠ []) :
    ∃ m' output, threadCacheExtractClass m cache c n = some (m',
        cache.withClass c (ys.drop n).head? (ys.drop n).length
          (cache.totalSlotBytes - (ys.take n).length * sizeClassCapacities c), some output) ∧
      output.Owns m' (ys.take n) ∧ Chain m'.next (ys.drop n).head? (ys.drop n) ∧
      Framed (ys.take n) m m' ∧ m'.size = m.size := by
  have hlength : ys.length < addressSpace := hcount ▸ hsound.count_lt c
  obtain ⟨m', available', output, htake, houtput, hrest, hcount', -, hframe, hsize⟩ :=
    transferListTakePrefix_of_chain ⟨cache.heads c, none, cache.counts c⟩ hchain hcount
      hlength n
  refine ⟨m', output, ?_, houtput, ?_, hframe, hsize⟩
  · have hhead : cache.heads c ≠ none := fun h => hne (hchain.eq_nil_iff.mp h)
    have hout : output.count = (ys.take n).length := houtput.count
    have hlen : (ys.take n).length + (ys.drop n).length = ys.length := by
      rw [← List.length_append, List.take_append_drop]
    have hbytes : (ys.take n).length * sizeClassCapacities c ≤ cache.totalSlotBytes :=
      calc (ys.take n).length * sizeClassCapacities c ≤ cache.counts c * sizeClassCapacities c :=
            Nat.mul_le_mul_right _ (by omega)
        _ ≤ cache.totalSlotBytes := hsound.mul_le c
    have hsub : sizeSub (cache.counts c) (ys.take n).length = (ys.drop n).length := by
      rw [sizeSub_of_le (by omega) (hsound.count_lt c)]
      omega
    rw [threadCacheExtractClass, sizeClassCapacity_val]
    simp only
    rw [if_neg (by simp only [not_or]; exact ⟨by omega, hhead⟩)]
    simp only [htake, Option.bind_eq_bind, Option.bind_some, hout, hsub,
      sizeSub_of_le hbytes hsound.bounded, hrest.head?_eq]
    rfl
  · rw [← hrest.head?_eq]
    exact hrest

theorem threadCacheExtractClass_empty {n : Nat} (hhead : cache.heads c = none) :
    threadCacheExtractClass m cache c n = some (m, cache, none) := by
  rw [threadCacheExtractClass, sizeClassCapacity_val]
  simp [hhead]

/-- What an extraction of the first `n` blocks of class `e` does to a cache with lists `lists`. -/
structure Extracts (lists : ClassIndex → List Nat) (cache : ThreadCache) (e : ClassIndex) (n : Nat)
    (m m' : Memory) (cache' : ThreadCache) (output : TransferList) : Prop where
  nonempty : (lists e).take n ≠ []
  cache_eq : cache' = cache.withClass e ((lists e).drop n).head? ((lists e).drop n).length
    (cache.totalSlotBytes - ((lists e).take n).length * sizeClassCapacities e)
  output : output.Owns m' ((lists e).take n)
  rest : Chain m'.next ((lists e).drop n).head? ((lists e).drop n)
  framed : Framed ((lists e).take n) m m'
  size : m'.size = m.size

theorem extractLabelled_of_chain {lists : ClassIndex → List Nat} {e : ClassIndex} {n : Nat}
    (hsound : cache.Sound) (hchain : Chain m.next (cache.heads e) (lists e))
    (hcount : cache.counts e = (lists e).length) (hn : 0 < n) (hne : lists e ≠ []) :
    ∃ m' cache' output, extractLabelled m cache e n = some (m', cache', some (e, output)) ∧
      Extracts lists cache e n m m' cache' output := by
  obtain ⟨m', output, hextract, houtput, hrest, hframe, hsize⟩ :=
    threadCacheExtractClass_of_chain hsound hchain hcount hn hne
  refine ⟨m', _, output, ?_, ?_, rfl, houtput, hrest, hframe, hsize⟩
  · simp [extractLabelled, hextract]
  · simp only [ne_eq, List.take_eq_nil_iff, not_or]
    exact ⟨by omega, hne⟩

/-- The extraction the caps call for next, as the class and the number of its blocks. -/
def ThreadCache.nextEviction (cache : ThreadCache) (c : ClassIndex) : Option (ClassIndex × Nat) :=
  if cache.counts c > cacheClassBlockLimit then
    some (c, cache.counts c - cacheClassBlockLimit)
  else if cache.totalSlotBytes ≤ cacheTotalBytesLimit then
    none
  else if cache.counts c ≠ 0 then
    some (c, cache.counts c)
  else
    (classIndices.find? fun e => cache.counts e ≠ 0).map fun e => (e, cache.counts e)

theorem threadCacheExtractEviction_eq (hsound : cache.Sound) (c : ClassIndex) :
    threadCacheExtractEviction m cache c = match cache.nextEviction c with
      | none => some (m, cache, none)
      | some (e, n) => extractLabelled m cache e n := by
  unfold threadCacheExtractEviction ThreadCache.nextEviction
  by_cases hclass : cache.counts c > cacheClassBlockLimit
  · rw [if_pos hclass, if_pos hclass, sizeSub_of_le hclass.le (hsound.count_lt c)]
  rw [if_neg hclass, if_neg hclass]
  by_cases hbytes : cache.totalSlotBytes ≤ cacheTotalBytesLimit
  · rw [if_pos hbytes, if_pos hbytes]
  rw [if_neg hbytes, if_neg hbytes]
  by_cases hcurrent : cache.counts c ≠ 0
  · rw [if_pos hcurrent, if_pos hcurrent]
  rw [if_neg hcurrent, if_neg hcurrent]
  cases classIndices.find? fun e => cache.counts e ≠ 0 <;> rfl

/-- Nothing is called for only if both caps are met for the current class. -/
theorem ThreadCache.Sound.caps_of_nextEviction (hsound : cache.Sound)
    (hnone : cache.nextEviction c = none) :
    cache.counts c ≤ cacheClassBlockLimit ∧ cache.totalSlotBytes ≤ cacheTotalBytesLimit := by
  unfold ThreadCache.nextEviction at hnone
  split at hnone
  · simp at hnone
  rename_i hclass
  refine ⟨by omega, ?_⟩
  split at hnone
  · assumption
  split at hnone
  · simp at hnone
  -- A cache over its byte cap holds a block of some class.
  have hzero : ∀ e, cache.counts e = 0 := fun e => by
    simpa using List.find?_eq_none.mp (Option.map_eq_none_iff.mp hnone) e (mem_classIndices e)
  have hbalanced := hsound.balanced
  simp only [hzero, Nat.zero_mul, Finset.sum_const_zero] at hbalanced
  omega

theorem ThreadCache.nextEviction_pos {e : ClassIndex} {n : Nat}
    (hnext : cache.nextEviction c = some (e, n)) : 0 < n ∧ n ≤ cache.counts e := by
  unfold ThreadCache.nextEviction at hnext
  split at hnext
  · obtain ⟨rfl, rfl⟩ := Prod.mk.inj (Option.some.inj hnext)
    omega
  split at hnext
  · simp at hnext
  split at hnext
  · obtain ⟨rfl, rfl⟩ := Prod.mk.inj (Option.some.inj hnext)
    omega
  · obtain ⟨e', hfind, heq⟩ := Option.map_eq_some_iff.mp hnext
    obtain ⟨rfl, rfl⟩ := Prod.mk.inj heq
    have hcount : cache.counts e' ≠ 0 := by simpa using List.find?_some hfind
    omega

/-- An eviction either finds both caps met for the current class and does nothing, or extracts a nonempty
prefix of the list of one class. -/
theorem threadCacheExtractEviction_of_chains (lists : ClassIndex → List Nat) (hsound : cache.Sound)
    (hchains : ∀ e, Chain m.next (cache.heads e) (lists e))
    (hcounts : ∀ e, cache.counts e = (lists e).length) (c : ClassIndex) :
    (cache.nextEviction c = none ∧
        threadCacheExtractEviction m cache c = some (m, cache, none)) ∨
      ∃ e n m' cache' output, cache.nextEviction c = some (e, n) ∧
        threadCacheExtractEviction m cache c = some (m', cache', some (e, output)) ∧
          Extracts lists cache e n m m' cache' output := by
  rw [threadCacheExtractEviction_eq hsound]
  cases hnext : cache.nextEviction c with
  | none => exact Or.inl ⟨rfl, rfl⟩
  | some next =>
      obtain ⟨e, n⟩ := next
      obtain ⟨hn, hle⟩ := ThreadCache.nextEviction_pos hnext
      have hne : lists e ≠ [] := fun hnil => by
        rw [hcounts, hnil, List.length_nil] at hle
        omega
      obtain ⟨m', cache', output, hextract, hextracts⟩ :=
        extractLabelled_of_chain hsound (hchains e) (hcounts e) hn hne
      exact Or.inr ⟨e, n, m', cache', output, rfl, hextract, hextracts⟩

end Hplf
