import HplfMalloc.Proof.CacheLists
import HplfMalloc.Proof.CacheSteps

/-!
# The eviction loop

After a block has been stored, `hplf_free` extracts lists from the cache until the caps are met again. The
loop is described on the lists the cache represents: first what the current class has in excess of its
cap, then, as long as the byte cap is exceeded, whole classes, the current one before the others in index
order.
-/

namespace Hplf

open Lib Memory ThreadCache
open scoped BigOperators

/-- Calls `hplf_thread_cache_extract_eviction` until it returns `false`, and collects what it yields. -/
def evictionLoop (c : ClassIndex) : Nat → Memory → ThreadCache →
    Option (Memory × ThreadCache × List (ClassIndex × TransferList))
  | 0, _, _ => none
  | fuel + 1, m, cache => do
      let (m, cache, eviction) ← threadCacheExtractEviction m cache c
      match eviction with
      | none => some (m, cache, [])
      | some output => do
          let (m, cache, outputs) ← evictionLoop c fuel m cache
          some (m, cache, output :: outputs)

/-! ### The documented order -/

/-- The current class, then the others in index order. -/
def evictionOrder (c : ClassIndex) : List ClassIndex := c :: classIndices.filter (· ≠ c)

def listBytes (lists : ClassIndex → List Nat) : Nat := ∑ c, (lists c).length * sizeClassCapacities c

/-- The number of blocks of class `c` over its cap. -/
def excess (lists : ClassIndex → List Nat) (c : ClassIndex) : Nat :=
  (lists c).length - cacheClassBlockLimit

/-- The classes that are emptied, in the order given, while `bytes` exceeds the byte cap. -/
def emptiedClasses (lists : ClassIndex → List Nat) : List ClassIndex → Nat → List ClassIndex
  | [], _ => []
  | e :: rest, bytes =>
      if bytes ≤ cacheTotalBytesLimit then
        []
      else if lists e = [] then
        emptiedClasses lists rest bytes
      else
        e :: emptiedClasses lists rest (bytes - (lists e).length * sizeClassCapacities e)

/-- The lists once the current class is within its cap. -/
def cappedLists (c : ClassIndex) (lists : ClassIndex → List Nat) : ClassIndex → List Nat :=
  Function.update lists c ((lists c).drop (excess lists c))

/-- **The documented order.** What is evicted, with the class it comes from. -/
def documentedEvictions (c : ClassIndex) (lists : ClassIndex → List Nat) :
    List (ClassIndex × List Nat) :=
  (if excess lists c = 0 then [] else [(c, (lists c).take (excess lists c))]) ++
    (emptiedClasses (cappedLists c lists) (evictionOrder c) (listBytes (cappedLists c lists))).map
      fun e => (e, cappedLists c lists e)

/-- The blocks of class `e` among the evicted ones. -/
def evictedOf (e : ClassIndex) (evictions : List (ClassIndex × List Nat)) : List Nat :=
  (evictions.filter fun eviction => eviction.1 = e).flatMap Prod.snd

/-- The lists without the classes that were emptied. -/
def emptyLists (classes : List ClassIndex) (lists : ClassIndex → List Nat) : ClassIndex → List Nat :=
  fun e => if e ∈ classes then [] else lists e

/-- What the loop yielded describes the blocks of an eviction. -/
structure Yields (m : Memory) (output : ClassIndex × TransferList)
    (eviction : ClassIndex × List Nat) : Prop where
  label : output.1 = eviction.1
  nonempty : eviction.2 ≠ []
  owns : output.2.Owns m eviction.2

variable {m m' : Memory} {cache cache' : ThreadCache} {lists : ClassIndex → List Nat}
variable {c : ClassIndex}

theorem nodup_evictionOrder (c : ClassIndex) : (evictionOrder c).Nodup := by
  refine List.nodup_cons.mpr ⟨by simp, nodup_classIndices.filter _⟩

theorem mem_evictionOrder (c e : ClassIndex) : e ∈ evictionOrder c := by
  by_cases he : e = c
  · simp [evictionOrder, he]
  · simp [evictionOrder, he, mem_classIndices]

theorem CacheRep.total_eq (hrep : CacheRep m cache lists) : cache.totalSlotBytes = listBytes lists := by
  rw [hrep.bytes, listBytes]
  simp only [hrep.count]

theorem listBytes_update (lists : ClassIndex → List Nat) (e : ClassIndex) (ys : List Nat) :
    listBytes (Function.update lists e ys) + (lists e).length * sizeClassCapacities e
      = listBytes lists + ys.length * sizeClassCapacities e := by
  have hupdate : (fun f => (Function.update lists e ys f).length * sizeClassCapacities f)
      = Function.update (fun f => (lists f).length * sizeClassCapacities f) e
          (ys.length * sizeClassCapacities e) := by
    funext f
    by_cases hf : f = e
    · subst hf
      simp
    · simp [hf]
  have hsum := Finset.sum_erase_add Finset.univ
    (fun f => (lists f).length * sizeClassCapacities f) (Finset.mem_univ e)
  rw [listBytes, hupdate, Finset.sum_update_of_mem (Finset.mem_univ e),
    Finset.sdiff_singleton_eq_erase, listBytes]
  omega

theorem emptiedClasses_congr {lists' : ClassIndex → List Nat} {classes : List ClassIndex}
    (hsame : ∀ e ∈ classes, lists' e = lists e) :
    ∀ bytes, emptiedClasses lists' classes bytes = emptiedClasses lists classes bytes := by
  induction classes with
  | nil => exact fun _ => rfl
  | cons e rest ih =>
      intro bytes
      have hrest := ih fun e' he' => hsame e' (List.mem_cons_of_mem e he')
      rw [emptiedClasses, emptiedClasses, hsame e List.mem_cons_self, hrest, hrest]

theorem emptiedClasses_sublist (lists : ClassIndex → List Nat) (classes : List ClassIndex) :
    ∀ bytes, (emptiedClasses lists classes bytes).Sublist classes := by
  induction classes with
  | nil => exact fun _ => List.Sublist.refl _
  | cons e rest ih =>
      intro bytes
      rw [emptiedClasses]
      split
      · exact List.nil_sublist _
      split
      · exact (ih _).cons e
      · exact (ih _).cons_cons e

theorem evictedOf_append (e : ClassIndex) (xs ys : List (ClassIndex × List Nat)) :
    evictedOf e (xs ++ ys) = evictedOf e xs ++ evictedOf e ys := by
  rw [evictedOf, List.filter_append, List.flatMap_append]
  rfl

/-- Emptying distinct classes takes each of their lists once. -/
theorem evictedOf_map {classes : List ClassIndex} (hnodup : classes.Nodup) (e : ClassIndex) :
    evictedOf e (classes.map fun f => (f, lists f)) = if e ∈ classes then lists e else [] := by
  induction classes with
  | nil => rfl
  | cons f rest ih =>
      obtain ⟨hnotMem, hrest⟩ := List.nodup_cons.mp hnodup
      have hsplit := evictedOf_append e [(f, lists f)] (rest.map fun f => (f, lists f))
      rw [List.singleton_append, ih hrest] at hsplit
      rw [List.map_cons, hsplit]
      by_cases hef : e = f
      · subst hef
        simp [evictedOf, hnotMem]
      · simp [evictedOf, hef, Ne.symm hef]

/-- **The next class.** Within the class cap but over the byte cap, the first class in order that holds a
block is emptied. -/
theorem CacheRep.nextEviction_bytes (hrep : CacheRep m cache lists) {before rest : List ClassIndex}
    {e : ClassIndex} (horder : evictionOrder c = before ++ e :: rest)
    (hbefore : ∀ f ∈ before, lists f = []) (hne : lists e ≠ [])
    (hclass : (lists c).length ≤ cacheClassBlockLimit)
    (hbytes : ¬ cache.totalSlotBytes ≤ cacheTotalBytesLimit) :
    cache.nextEviction c = some (e, (lists e).length) := by
  have hcount : ∀ f, cache.counts f ≠ 0 ↔ lists f ≠ [] := fun f => by
    rw [hrep.count, Ne, Ne, List.length_eq_zero_iff]
  rw [nextEviction, if_neg (by rw [hrep.count]; omega), if_neg hbytes]
  by_cases hcurrent : lists c = []
  · rw [if_neg (by rw [hcount]; simpa using hcurrent)]
    have hfind : classIndices.find? (fun f => decide (cache.counts f ≠ 0)) = some e := by
      have hfilter : classIndices.filter (fun f => decide (cache.counts f ≠ 0))
          = (evictionOrder c).filter fun f => decide (cache.counts f ≠ 0) := by
        rw [evictionOrder, List.filter_cons_of_neg (by simp [hrep.count, hcurrent]),
          List.filter_filter]
        apply List.filter_congr
        intro f _
        by_cases hf : f = c
        · simp [hf, hrep.count, hcurrent]
        · simp [hf]
      rw [← List.head?_filter, hfilter, horder, List.filter_append,
        List.filter_eq_nil_iff.mpr fun f hf => by simp [hrep.count, hbefore f hf], List.nil_append,
        List.filter_cons_of_pos (by simpa using (hcount e).mpr hne), List.head?_cons]
    rw [hfind, Option.map_some, hrep.count]
  · rw [if_pos ((hcount c).mpr hcurrent)]
    -- The current class is the first in order, so it is the one that is emptied.
    cases before with
    | nil =>
        obtain ⟨rfl, -⟩ := List.cons.inj horder
        rw [hrep.count]
    | cons f before =>
        obtain ⟨rfl, -⟩ := List.cons.inj horder
        exact absurd (hbefore _ List.mem_cons_self) hcurrent

/-! ### The loop -/

/-- The loop ends with both caps met, having yielded `evictions` and kept `lists'`; it writes links of
blocks that were cached only. -/
def EvictsTo (c : ClassIndex) (fuel : Nat) (m : Memory) (cache : ThreadCache)
    (lists : ClassIndex → List Nat) (evictions : List (ClassIndex × List Nat))
    (lists' : ClassIndex → List Nat) : Prop :=
  ∃ m' cache' outputs nodes, evictionLoop c fuel m cache = some (m', cache', outputs) ∧
    (cache'.counts c ≤ cacheClassBlockLimit ∧ cache'.totalSlotBytes ≤ cacheTotalBytesLimit) ∧
    List.Forall₂ (Yields m') outputs evictions ∧ CacheRep m' cache' lists' ∧
    Framed nodes m m' ∧ ∀ a ∈ nodes, ∃ e, a ∈ lists e

theorem CacheRep.evictsTo_end (hrep : CacheRep m cache lists) (hnext : cache.nextEviction c = none)
    (fuel : Nat) : EvictsTo c (fuel + 1) m cache lists [] lists := by
  refine ⟨m, cache, [], [], ?_, hrep.sound.caps_of_nextEviction hnext, List.Forall₂.nil, hrep,
    Framed.refl _ _, by simp⟩
  rw [evictionLoop, threadCacheExtractEviction_eq hrep.sound, hnext]
  rfl

/-- **One turn.** The loop yields what is called for and goes on with the rest. -/
theorem CacheRep.evictsTo_step (hrep : CacheRep m cache lists) {e : ClassIndex} {n fuel : Nat}
    {evictions : List (ClassIndex × List Nat)} {lists' : ClassIndex → List Nat}
    (hnext : cache.nextEviction c = some (e, n))
    (hrest : ∀ m₁ cache₁, CacheRep m₁ cache₁ (Function.update lists e ((lists e).drop n)) →
      EvictsTo c fuel m₁ cache₁ (Function.update lists e ((lists e).drop n)) evictions lists') :
    EvictsTo c (fuel + 1) m cache lists ((e, (lists e).take n) :: evictions) lists' := by
  rcases threadCacheExtractEviction_of_chains lists hrep.sound hrep.chain hrep.count c with
    ⟨hnone, -⟩ | ⟨e', n', m₁, cache₁, output, hsome, hextract, hextracts⟩
  · rw [hnext] at hnone
    simp at hnone
  obtain ⟨rfl, rfl⟩ := Prod.mk.inj (Option.some.inj (hnext.symm.trans hsome))
  obtain ⟨m', cache', outputs, nodes, hloop, hcaps, hyields, hrep', hframe, hnodes⟩ :=
    hrest m₁ cache₁ (hrep.extracts hextracts)
  -- The blocks just extracted are in no list any more, so the rest of the loop leaves them alone.
  have hapart : ∀ a ∈ (lists e).take n, a ∉ nodes := by
    intro a ha hmem
    obtain ⟨f, hf⟩ := hnodes a hmem
    by_cases hfe : f = e
    · subst hfe
      rw [Function.update_self] at hf
      have hnodup := hrep.nodup f
      rw [← List.take_append_drop n (lists f), List.nodup_append] at hnodup
      exact hnodup.2.2 a ha a hf rfl
    · rw [Function.update_of_ne hfe] at hf
      exact hrep.separate.disjoint (List.mem_of_mem_take ha) hfe hf
  refine ⟨m', cache', (e, output) :: outputs, (lists e).take n ++ nodes, ?_, hcaps, ?_, hrep', ?_, ?_⟩
  · rw [evictionLoop, hextract]
    simp only [Option.bind_eq_bind, Option.bind_some, hloop]
  · refine List.Forall₂.cons ⟨rfl, hextracts.nonempty, ?_⟩ hyields
    exact hextracts.output.congr fun a ha => hframe.next (hapart a ha)
  · exact (hextracts.framed.mono (List.subset_append_left _ _)).trans
      (hframe.mono (List.subset_append_right _ _))
  · intro a ha
    rcases List.mem_append.mp ha with ha | ha
    · exact ⟨e, List.mem_of_mem_take ha⟩
    · obtain ⟨f, hf⟩ := hnodes a ha
      by_cases hfe : f = e
      · subst hfe
        rw [Function.update_self] at hf
        exact ⟨f, List.mem_of_mem_drop hf⟩
      · rw [Function.update_of_ne hfe] at hf
        exact ⟨f, hf⟩

theorem CacheRep.evictsTo_whole (hrep : CacheRep m cache lists) {e : ClassIndex} {fuel : Nat}
    {evictions : List (ClassIndex × List Nat)} {lists' : ClassIndex → List Nat}
    (hnext : cache.nextEviction c = some (e, (lists e).length))
    (hrest : ∀ m₁ cache₁, CacheRep m₁ cache₁ (Function.update lists e []) →
      EvictsTo c fuel m₁ cache₁ (Function.update lists e []) evictions lists') :
    EvictsTo c (fuel + 1) m cache lists ((e, lists e) :: evictions) lists' := by
  have hstep : EvictsTo c (fuel + 1) m cache lists
      ((e, (lists e).take (lists e).length) :: evictions) lists' := by
    apply hrep.evictsTo_step hnext
    rwa [List.drop_length]
  rwa [List.take_length] at hstep

/-- **The byte cap.** From a current class within its cap, the loop empties classes in order. -/
theorem evictsTo_bytes (classes : List ClassIndex) :
    ∀ {m : Memory} {cache : ThreadCache} {lists : ClassIndex → List Nat} {before : List ClassIndex}
      {fuel : Nat}, CacheRep m cache lists → evictionOrder c = before ++ classes →
      (∀ f ∈ before, lists f = []) → (lists c).length ≤ cacheClassBlockLimit →
      classes.length < fuel →
      EvictsTo c fuel m cache lists
        ((emptiedClasses lists classes cache.totalSlotBytes).map fun e => (e, lists e))
        (emptyLists (emptiedClasses lists classes cache.totalSlotBytes) lists) := by
  induction classes with
  | nil =>
      intro m cache lists before fuel hrep horder hbefore hclass hfuel
      obtain ⟨fuel, rfl⟩ : ∃ n, fuel = n + 1 := ⟨fuel - 1, by omega⟩
      have hempty : ∀ f, lists f = [] := fun f => hbefore f (by
        have hmem := mem_evictionOrder c f
        rwa [horder, List.append_nil] at hmem)
      have hzero : cache.totalSlotBytes = 0 := by
        rw [hrep.total_eq, listBytes]
        simp [hempty]
      refine hrep.evictsTo_end ?_ fuel
      rw [nextEviction, if_neg (by rw [hrep.count]; omega), if_pos (by rw [hzero]; exact Nat.zero_le _)]
  | cons e rest ih =>
      intro m cache lists before fuel hrep horder hbefore hclass hfuel
      obtain ⟨fuel, rfl⟩ : ∃ n, fuel = n + 1 := ⟨fuel - 1, by omega⟩
      rw [emptiedClasses]
      by_cases hbytes : cache.totalSlotBytes ≤ cacheTotalBytesLimit
      · rw [if_pos hbytes]
        refine hrep.evictsTo_end ?_ fuel
        rw [nextEviction, if_neg (by rw [hrep.count]; omega), if_pos hbytes]
      rw [if_neg hbytes]
      have horder' : evictionOrder c = (before ++ [e]) ++ rest := by simpa using horder
      by_cases hnil : lists e = []
      · rw [if_pos hnil]
        refine ih hrep horder' (fun f hf => ?_) hclass (by simp at hfuel; omega)
        rcases List.mem_append.mp hf with hf | hf
        · exact hbefore f hf
        · rwa [List.mem_singleton.mp hf]
      · rw [if_neg hnil]
        have hnext := hrep.nextEviction_bytes horder hbefore hnil hclass hbytes
        have hnotMem : e ∉ rest := by
          have hnodup := nodup_evictionOrder c
          rw [horder] at hnodup
          exact (List.nodup_cons.mp (List.nodup_append.mp hnodup).2.1).1
        have hsame : ∀ f ∈ rest, Function.update lists e [] f = lists f := fun f hf =>
          Function.update_of_ne (ne_of_mem_of_not_mem hf hnotMem) _ _
        have hemptied : emptyLists (e :: emptiedClasses lists rest
              (cache.totalSlotBytes - (lists e).length * sizeClassCapacities e)) lists
            = emptyLists (emptiedClasses lists rest
              (cache.totalSlotBytes - (lists e).length * sizeClassCapacities e))
                (Function.update lists e []) := by
          funext f
          by_cases hf : f = e
          · simp [emptyLists, hf]
          · simp [emptyLists, hf]
        rw [hemptied, List.map_cons]
        apply hrep.evictsTo_whole hnext
        intro m₁ cache₁ hrep₁
        have htotal : cache₁.totalSlotBytes
            = cache.totalSlotBytes - (lists e).length * sizeClassCapacities e := by
          have hupdate := listBytes_update lists e []
          rw [← hrep.total_eq, ← hrep₁.total_eq, List.length_nil, Nat.zero_mul] at hupdate
          omega
        have hclass' : (Function.update lists e [] c).length ≤ cacheClassBlockLimit := by
          by_cases hce : c = e
          · simp [hce]
          · rwa [Function.update_of_ne hce]
        have hbefore' : ∀ f ∈ before ++ [e], Function.update lists e [] f = [] := by
          intro f hf
          by_cases hfe : f = e
          · rw [hfe, Function.update_self]
          · rw [Function.update_of_ne hfe]
            exact hbefore f (by simpa [hfe] using hf)
        have hfuel' : rest.length < fuel := by simpa using hfuel
        have hloop := ih hrep₁ horder' hbefore' hclass' hfuel'
        rw [emptiedClasses_congr hsame, htotal] at hloop
        rwa [List.map_congr_left fun f hf => ?_] at hloop
        rw [hsame f ((emptiedClasses_sublist _ _ _).subset hf)]

/-- The lists that remain. -/
def remainingLists (c : ClassIndex) (lists : ClassIndex → List Nat) : ClassIndex → List Nat :=
  emptyLists (emptiedClasses (cappedLists c lists) (evictionOrder c)
    (listBytes (cappedLists c lists))) (cappedLists c lists)

/-- **The whole loop.** The class cap comes first, then the byte cap. -/
theorem CacheRep.evictsTo (hrep : CacheRep m cache lists) {fuel : Nat}
    (hfuel : (evictionOrder c).length + 1 < fuel) :
    EvictsTo c fuel m cache lists (documentedEvictions c lists) (remainingLists c lists) := by
  by_cases hexcess : excess lists c = 0
  · have hcapped : cappedLists c lists = lists := by
      rw [cappedLists, hexcess, List.drop_zero, Function.update_eq_self]
    rw [documentedEvictions, if_pos hexcess, List.nil_append, remainingLists, hcapped, ← hrep.total_eq]
    refine evictsTo_bytes (evictionOrder c) hrep (List.nil_append _).symm (by simp) ?_ (by omega)
    unfold excess at hexcess
    omega
  · rw [documentedEvictions, if_neg hexcess, List.singleton_append]
    obtain ⟨fuel, rfl⟩ : ∃ n, fuel = n + 1 := ⟨fuel - 1, by omega⟩
    have hnext : cache.nextEviction c = some (c, excess lists c) := by
      unfold excess at hexcess ⊢
      rw [nextEviction, if_pos (by rw [hrep.count]; omega), hrep.count]
    refine hrep.evictsTo_step hnext fun m₁ cache₁ (hrep₁ : CacheRep m₁ cache₁ (cappedLists c lists)) => ?_
    rw [remainingLists, ← hrep₁.total_eq]
    refine evictsTo_bytes (evictionOrder c) hrep₁ (List.nil_append _).symm (by simp) ?_ (by omega)
    rw [Function.update_self, List.length_drop]
    unfold excess
    omega

/-- Per class, what is evicted followed by what remains is what there was. -/
theorem evictedOf_append_remaining (c e : ClassIndex) (lists : ClassIndex → List Nat) :
    evictedOf e (documentedEvictions c lists) ++ remainingLists c lists e = lists e := by
  have hexcess : evictedOf e (if excess lists c = 0 then [] else [(c, (lists c).take (excess lists c))])
      ++ cappedLists c lists e = lists e := by
    by_cases he : e = c
    · subst he
      rw [cappedLists, Function.update_self]
      split
      · rename_i hzero
        simp [evictedOf, hzero]
      · simp [evictedOf]
    · rw [cappedLists, Function.update_of_ne he]
      split
      · rfl
      · simp [evictedOf, Ne.symm he]
  have hnodup : (emptiedClasses (cappedLists c lists) (evictionOrder c)
      (listBytes (cappedLists c lists))).Nodup :=
    (emptiedClasses_sublist _ _ _).nodup (nodup_evictionOrder c)
  rw [documentedEvictions, evictedOf_append, evictedOf_map hnodup, List.append_assoc, remainingLists,
    emptyLists]
  by_cases hmem : e ∈ emptiedClasses (cappedLists c lists) (evictionOrder c)
      (listBytes (cappedLists c lists))
  · rwa [if_pos hmem, if_pos hmem, List.append_nil]
  · rwa [if_neg hmem, if_neg hmem, List.nil_append]

/-! ### After one store -/

/-- A cache within both caps that got one more block of class `c` needs at most one extraction, of that
class. -/
theorem CacheRep.nextEviction_stored (hrep : CacheRep m cache lists) (hcaps : cache.WithinCaps) {a : Nat}
    (hrep₁ : CacheRep m' cache' (Function.update lists c (a :: lists c))) :
    cache'.nextEviction c = none ∨ ∃ n, cache'.nextEviction c = some (c, n) ∧
      ∀ m₂ cache₂, CacheRep m₂ cache₂ (Function.update (Function.update lists c (a :: lists c)) c
        ((a :: lists c).drop n)) → cache₂.nextEviction c = none := by
  have hclass : (lists c).length ≤ cacheClassBlockLimit := hrep.count c ▸ hcaps.counts c
  have hbytes : listBytes lists ≤ cacheTotalBytesLimit := hrep.total_eq ▸ hcaps.bytes
  have hcount : cache'.counts c = (lists c).length + 1 := by
    rw [hrep₁.count, Function.update_self, List.length_cons]
  -- Whatever part of the old list is kept, both caps are met.
  have hend : ∀ ys m₂ cache₂, ys.length ≤ (lists c).length →
      CacheRep m₂ cache₂ (Function.update (Function.update lists c (a :: lists c)) c ys) →
      cache₂.nextEviction c = none := by
    intro ys m₂ cache₂ hlength hrep₂
    rw [Function.update_idem] at hrep₂
    have hupdate := listBytes_update lists c ys
    have hmul := Nat.mul_le_mul_right (sizeClassCapacities c) hlength
    have hcount₂ := hrep₂.count c
    rw [Function.update_self] at hcount₂
    rw [nextEviction, if_neg (by omega), if_pos (by rw [hrep₂.total_eq]; omega)]
  rw [nextEviction]
  by_cases hover : cache'.counts c > cacheClassBlockLimit
  · rw [if_pos hover]
    refine Or.inr ⟨_, rfl, fun m₂ cache₂ => hend _ m₂ cache₂ ?_⟩
    rw [List.length_drop, List.length_cons]
    omega
  rw [if_neg hover]
  by_cases htotal : cache'.totalSlotBytes ≤ cacheTotalBytesLimit
  · exact Or.inl (if_pos htotal)
  rw [if_neg htotal, if_pos (by omega)]
  refine Or.inr ⟨_, rfl, fun m₂ cache₂ => hend _ m₂ cache₂ ?_⟩
  rw [List.length_drop, List.length_cons]
  omega

variable {Tid : Type}

/-- The eviction loop of `hplf_free` extracts nothing, or one list of class `c`, which it publishes. -/
def EvictsAtMostOnce (s : State Tid) (d : Nat) (c : ClassIndex) : Prop :=
  (∀ fuel, evictLoop d c (fuel + 1) s = some s) ∨
    ∃ s₁ list s₂, (withCache s d fun m cache => threadCacheExtractEviction m cache c)
        = some (s₁, some (c, list)) ∧
      transferMutexPublish s₁ c list = some s₂ ∧ ∀ fuel, evictLoop d c (fuel + 1) s₂ = some s₂

/-- Publishing a nonempty list writes the link of its last block. -/
theorem exists_transferMutexPublish (s : State Tid) {list : TransferList} {xs : List Nat}
    (howns : list.Owns s.memory xs) (hne : xs ≠ []) (c : ClassIndex) :
    ∃ s', transferMutexPublish s c list = some s' ∧ Framed xs s.memory s'.memory ∧
      s'.descriptor = s.descriptor := by
  obtain ⟨init, last, rfl⟩ : ∃ init last, xs = init ++ [last] :=
    ⟨_, _, (List.dropLast_append_getLast hne).symm⟩
  obtain ⟨first, hfirst⟩ : ∃ first, list.first = some first := by
    rw [howns.chain.head?_eq]
    exact Option.isSome_iff_exists.mp (by simp)
  have hlast : list.last = some last := by simp [howns.last]
  obtain ⟨q, hq⟩ := howns.chain.exists_link (a := last) (by simp)
  obtain ⟨m', hset, hframe, -, -⟩ := exists_setNextFree hq (s.sharedHeads c)
  refine ⟨{ s with
    memory := m'
    sharedHeads := Function.update s.sharedHeads c (some first) }, ?_, hframe.mono (by simp), rfl⟩
  simp only [transferMutexPublish, hfirst, hlast, hset, Option.bind_eq_bind, Option.bind_some]

theorem CacheRep.evictLoop_end {s : State Tid} {d : Nat} {descriptor : CacheDescriptor}
    (hmapped : s.descriptor d = some descriptor) (hrep : CacheRep s.memory descriptor.cache lists)
    (hnext : descriptor.cache.nextEviction c = none) (fuel : Nat) :
    evictLoop d c (fuel + 1) s = some s := by
  have hextract : threadCacheExtractEviction s.memory descriptor.cache c
      = some (s.memory, descriptor.cache, none) := by
    rw [threadCacheExtractEviction_eq hrep.sound, hnext]
  have hresult := withCache_eq_some (fun m cache => threadCacheExtractEviction m cache c) hmapped hextract
  rw [withDescriptorCache_self hmapped] at hresult
  rw [evictLoop, hresult]
  rfl

/-- **After one store.** In a cache that was within both caps, the loop extracts at most once. -/
theorem CacheRep.evictsAtMostOnce (hrep : CacheRep m cache lists) (hcaps : cache.WithinCaps)
    {s : State Tid} {d a : Nat} {descriptor : CacheDescriptor}
    (hmapped : s.descriptor d = some descriptor)
    (hrep₁ : CacheRep s.memory descriptor.cache (Function.update lists c (a :: lists c))) :
    EvictsAtMostOnce s d c := by
  rcases hrep.nextEviction_stored hcaps hrep₁ with hnone | ⟨n, hsome, hend⟩
  · exact Or.inl fun fuel => hrep₁.evictLoop_end hmapped hnone fuel
  rcases threadCacheExtractEviction_of_chains _ hrep₁.sound hrep₁.chain hrep₁.count c with
    ⟨hnone, -⟩ | ⟨e, n', m₁, cache₁, list, hnext, hextract, hextracts⟩
  · rw [hsome] at hnone
    simp at hnone
  obtain ⟨rfl, rfl⟩ := Prod.mk.inj (Option.some.inj (hsome.symm.trans hnext))
  have hrep₂ := hrep₁.extracts hextracts
  have hresult := withCache_eq_some (fun m cache => threadCacheExtractEviction m cache c) hmapped hextract
  obtain ⟨s₂, hpublish, hframe, hdescriptor⟩ := exists_transferMutexPublish
    (s.withDescriptorCache d descriptor m₁ cache₁) hextracts.output hextracts.nonempty c
  have hmapped₂ : s₂.descriptor d = some { descriptor with cache := cache₁ } := by
    rw [hdescriptor]
    exact Function.update_self _ _ _
  refine Or.inr ⟨_, list, s₂, hresult, hpublish, fun fuel => ?_⟩
  have hrep₃ := hrep₂.framed hframe ?_
  · have hlast := hrep₃
    rw [Function.update_self] at hlast
    exact hrep₃.evictLoop_end hmapped₂ (hend _ _ hlast) fuel
  · intro e b hb hmem
    by_cases he : e = c
    · subst he
      have hnodup := hrep₁.nodup e
      rw [← List.take_append_drop n (Function.update lists e (a :: lists e) e),
        List.nodup_append] at hnodup
      rw [Function.update_self] at hb
      exact hnodup.2.2 b hmem b hb rfl
    · rw [Function.update_of_ne he] at hb
      exact hrep₁.separate.disjoint (List.mem_of_mem_take hmem) he hb

theorem length_evictionOrder (c : ClassIndex) : (evictionOrder c).length = 16 := by
  revert c
  decide

/-- **The eviction loop.** For every cache whose counters match its lists, with whatever excess, the loop
ends with both caps met, yields exactly the lists the documented order calls for, each nonempty, described
exactly and labelled with its class, and loses no block. From a cache within both caps, one store is
followed by at most one extraction, of the class of the stored block. -/
theorem eviction_loop (hrep : CacheRep m cache lists) (c : ClassIndex) :
    (∀ fuel, 18 ≤ fuel → ∃ m' cache' outputs,
      evictionLoop c fuel m cache = some (m', cache', outputs) ∧
      cache'.counts c ≤ cacheClassBlockLimit ∧ cache'.totalSlotBytes ≤ cacheTotalBytesLimit ∧
      List.Forall₂ (Yields m') outputs (documentedEvictions c lists) ∧
      CacheRep m' cache' (remainingLists c lists)) ∧
    (∀ e, evictedOf e (documentedEvictions c lists) ++ remainingLists c lists e = lists e) ∧
    (cache.WithinCaps → ∀ (s : State Tid) (d : Nat) (descriptor : CacheDescriptor) (a : Nat) (q : Ptr),
      s.memory = m → s.descriptor d = some descriptor → descriptor.cache = cache →
      m.next a = some q → a ∉ lists c → Separate (Function.update lists c (a :: lists c)) →
      ∃ s₁, (withCache s d fun m cache =>
          (threadCacheStore m cache c (sizeClassCapacities c) a).map fun (m, cache) => (m, cache, ()))
            = some (s₁, ()) ∧ EvictsAtMostOnce s₁ d c) := by
  refine ⟨fun fuel hfuel => ?_, fun e => evictedOf_append_remaining c e lists, ?_⟩
  · have henough : (evictionOrder c).length + 1 < fuel := by rw [length_evictionOrder]; omega
    obtain ⟨m', cache', outputs, _, hloop, ⟨hcount, hbytes⟩, hyields, hrep', -, -⟩ :=
      hrep.evictsTo henough
    exact ⟨m', cache', outputs, hloop, hcount, hbytes, hyields, hrep'⟩
  · rintro hcaps s d descriptor a q rfl hmapped rfl hnext hnotMem hseparate
    obtain ⟨m₁, cache₁, hstore, -, hrep₁⟩ := hrep.store hnext hnotMem hseparate
    have hmapped₁ : (s.withDescriptorCache d descriptor m₁ cache₁).descriptor d
        = some { descriptor with cache := cache₁ } := Function.update_self _ _ _
    refine ⟨_, withCache_eq_some _ hmapped ?_, hrep.evictsAtMostOnce hcaps hmapped₁ hrep₁⟩
    rw [hstore, Option.map_some]

/-! ### A cache that exceeds both caps -/

/-- The link of a block that is in the list. -/
def linkIn : List Nat → Nat → Option Ptr
  | [], _ => none
  | a :: rest, b => if b = a then some rest.head? else linkIn rest b

/-- Storage in which the blocks of each class are linked in order. -/
def linkedStorage (lists : ClassIndex → List Nat) : Memory :=
  { Memory.empty with
    block := fun a => classIndices.findSome? fun c =>
      (linkIn (lists c) a).map fun next => ⟨.small 4096, next, 0, sizeClassCapacities c, .small⟩ }

def cacheOf (lists : ClassIndex → List Nat) : ThreadCache where
  heads c := (lists c).head?
  counts c := (lists c).length
  totalSlotBytes := listBytes lists

def smallClass : ClassIndex := ⟨0, by decide⟩
def fullClass : ClassIndex := ⟨11, by decide⟩
def largeClass : ClassIndex := ⟨14, by decide⟩
def overfullClass : ClassIndex := Fin.last 15

/-- The slots of `count` blocks of class `c` in a row. -/
def slotRow (c : ClassIndex) (start count : Nat) : List Nat :=
  (List.range count).map fun i => start + i * slotBytes c

/-- One block more than the cap in the largest class, and blocks of two other classes. -/
def overfullLists (c : ClassIndex) : List Nat :=
  if c = overfullClass then slotRow c 1048576 33
  else if c = largeClass then slotRow c 2097152 22
  else if c = smallClass then slotRow c 65536 2
  else []

theorem cacheRep_overfull : CacheRep (linkedStorage overfullLists) (cacheOf overfullLists) overfullLists where
  chain := by decide +kernel
  count _ := rfl
  bytes := rfl
  separate := ⟨by decide +kernel, by decide +kernel⟩

/-- As many blocks of one class as the cap allows. -/
def fullLists (c : ClassIndex) : List Nat :=
  if c = fullClass then slotRow c 65536 32 else []

/-- A thread with a full class, and a block of that class that it is about to store. -/
def fullState : State Unit :=
  { State.initial with
    memory :=
      (linkedStorage fullLists).initBlock 32768 ⟨.small 4096, none, 0, sizeClassCapacities fullClass, .small⟩
    descriptor := fun d => if d = 4096 then some ⟨cacheOf fullLists, 4096, 4096⟩ else none }

theorem cacheRep_full : CacheRep fullState.memory (cacheOf fullLists) fullLists where
  chain := by decide +kernel
  count _ := rfl
  bytes := rfl
  separate := ⟨by decide +kernel, by decide +kernel⟩

/-- From an overfull cache the block over the cap of the class goes first, then the rest of the class, and then the other
classes in their order until the bytes are within their cap. A full class gets one more block, and loses one. -/
theorem eviction_loop_overfull :
    (∃ m' cache' outputs, evictionLoop overfullClass 18 (linkedStorage overfullLists) (cacheOf overfullLists)
        = some (m', cache', outputs) ∧
      List.Forall₂ (Yields m') outputs
        [(overfullClass, [1048576]), (overfullClass, slotRow overfullClass 1052720 32),
          (smallClass, [65536, 65600]), (largeClass, slotRow largeClass 2097152 22)] ∧
      CacheRep m' cache' fun _ => []) ∧
    ∃ s₁, (withCache fullState 4096 fun m cache =>
        (threadCacheStore m cache fullClass (sizeClassCapacities fullClass) 32768).map fun (m, cache) => (m, cache, ()))
          = some (s₁, ()) ∧
      (evictLoop 4096 fullClass 1 s₁).isNone ∧ EvictsAtMostOnce s₁ 4096 fullClass := by
  have hoverfull := @eviction_loop _ _ _ Unit cacheRep_overfull overfullClass
  have hfull := @eviction_loop _ _ _ Unit cacheRep_full fullClass
  have hdocumented : documentedEvictions overfullClass overfullLists
      = [(overfullClass, [1048576]), (overfullClass, slotRow overfullClass 1052720 32),
        (smallClass, [65536, 65600]), (largeClass, slotRow largeClass 2097152 22)] := by decide +kernel
  have hremaining : remainingLists overfullClass overfullLists = fun _ => [] := by decide +kernel
  constructor
  · obtain ⟨m', cache', outputs, hloop, -, -, hyields, hrep⟩ := hoverfull.1 18 (Nat.le_refl _)
    rw [hdocumented] at hyields
    rw [hremaining] at hrep
    exact ⟨m', cache', outputs, hloop, hyields, hrep⟩
  · obtain ⟨s₁, hstore, honce⟩ := hfull.2.2 ⟨by decide +kernel, by decide +kernel⟩ fullState 4096 _ 32768 none rfl rfl
      rfl (by decide +kernel) (by decide +kernel) ⟨by decide +kernel, by decide +kernel⟩
    have hevicts : (withCache fullState 4096 fun m cache =>
        (threadCacheStore m cache fullClass (sizeClassCapacities fullClass) 32768).map fun (m, cache) => (m, cache, ())).any
          (fun result => (evictLoop 4096 fullClass 1 result.1).isNone) = true := by decide +kernel
    rw [hstore] at hevicts
    exact ⟨s₁, hstore, hevicts, honce⟩

end Hplf
