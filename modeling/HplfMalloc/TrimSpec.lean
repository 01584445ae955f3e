import HplfMalloc.Proof.Safety
import HplfMalloc.Schedule

/-!
# The exact effect of a trim

`hplf_trim_quiescent` tries to unmap each registered slab all of whose slots are on the shared list of
their class, once and in registry order, and nothing else; what is released leaves the registry and the
lists, and what is not stays as it was.
-/

namespace Hplf

open Lib Memory

variable {Tid : Type} [DecidableEq Tid]

/-- The registered slabs all of whose slots are on the shared list of their class. -/
def freeSlabs (s : State Tid) (bases : List Nat) (lists : ClassIndex → List Nat) : List Nat :=
  bases.filter (allFree s.memory lists)

/-- The free slabs whose unmapping succeeds, when the next unmap is the first of them. -/
def unmappedSlabs (w : World) (s : State Tid) (bases : List Nat) (lists : ClassIndex → List Nat) :
    List Nat :=
  releasedSlabs w s.unmapCalls.length (freeSlabs s bases lists)

/-- What a trim does to a configuration with registry `bases` and shared lists `lists`: the state after it
is `s`, and it returns `released`. -/
structure TrimExact (w : World) (k : Config Tid) (bases : List Nat) (lists : ClassIndex → List Nat)
    (s : State Tid) (released : Nat) : Prop where
  calls : s.unmapCalls
    = k.state.unmapCalls ++ slabMappings k.state.memory (freeSlabs k.state bases lists)
  total : released
    = min sizeMax (mappingTotal k.state.memory (unmappedSlabs w k.state bases lists))
  registry : Chain s.memory.slabNext s.slabs
    (bases.filter fun base => decide (base ∉ unmappedSlabs w k.state bases lists))
  shared : ∀ c, ∃ list, Chain s.memory.next (s.sharedHeads c) list ∧
    list.Perm (without k.state.memory (unmappedSlabs w k.state bases lists) (lists c))
  headers : ∀ base ∈ bases, base ∉ unmappedSlabs w k.state bases lists →
    ∃ h next, k.state.memory.slab base = some h ∧ s.memory.slab base = some (h.withNext next)
  blocks : ∀ base ∈ bases, base ∉ unmappedSlabs w k.state bases lists →
    ∀ h, k.state.memory.slab base = some h → ∀ a ∈ h.slots base,
      ∃ b next, k.state.memory.block a = some b ∧
        s.memory.block a = some { b with nextFree := next } ∧
        ((∀ c, a ∉ lists c) → next = b.nextFree)
  live : KeepsLive k s.memory
  rest : ∃ memory mapped slabs sharedHeads errno unmapCalls, s = { k.state with
    memory := memory
    mapped := mapped
    slabs := slabs
    sharedHeads := sharedHeads
    errno := errno
    unmapCalls := unmapCalls }
  untouched : ∀ base ∈ freeSlabs k.state bases lists, ∀ h, k.state.memory.slab base = some h →
    ∀ a ∈ h.slots base, a ∉ k.live ∧ ∀ t c xs, Holds k (.cache t c) xs → a ∉ xs

variable {k : Config Tid} {bases larges : List Nat} {g : Place Tid → List Nat}

theorem Inv.trimExact (hinv : Inv k bases larges g) (hquiescent : k.Quiescent) (v : Variant) (w : World)
    (t : Tid) :
    ∃ s released, Hplf.trimQuiescent v w k.state t = some (s, released) ∧
      TrimExact w k bases (sharedLists g) s released := by
  obtain ⟨k', bases', g', htrim, htrims, hcalls⟩ := hinv.trimQuiescent (hquiescent t) v w
  have hkept : ∀ base ∈ bases, base ∉ unmappedSlabs w k.state bases (sharedLists g) →
      base ∈ bases' := by
    intro base hbase hnot
    rw [htrims.kept]
    exact List.mem_filter.mpr ⟨hbase, decide_eq_true hnot⟩
  refine ⟨k'.state, _, htrim, hcalls, rfl, ?_, fun c => ?_, fun base hbase hnot => ?_,
    fun base hbase hnot h hh a ha => ?_, htrims.live, ?_, fun base hbase h hh a ha => ?_⟩
  · have hregistry := htrims.inv.storage.registry
    rw [htrims.kept] at hregistry
    exact hregistry
  · exact ⟨g' (.shared c), htrims.inv.holds (.shared c), htrims.shared c⟩
  · exact htrims.header base (hkept base hbase hnot)
  · obtain ⟨h₀, next₀, hh₀, hh'⟩ := htrims.header base (hkept base hbase hnot)
    obtain rfl := Option.some.inj (hh.symm.trans hh₀)
    have hpop : Populated k'.state.memory bases' larges a :=
      Or.inl ⟨_, base, hkept base hbase hnot, _, hh', rfl, ha⟩
    obtain ⟨b, next, hb, hb'⟩ := htrims.block a hpop
    refine ⟨b, next, hb, hb', fun hnone => ?_⟩
    obtain ⟨p, hp⟩ := (hinv.population a).mpr (Or.inl ⟨_, base, hbase, h, hh, rfl, ha⟩)
    have hshared : ∀ c, p ≠ .shared c := by
      rintro c rfl
      exact hnone c hp
    have hsame := htrims.same p hshared a hp
    rw [hb, hb', Option.some.injEq] at hsame
    exact congrArg Block.nextFree hsame
  · obtain ⟨_, _, _, _, _, _, rfl⟩ := htrims.rest
    exact ⟨_, _, _, _, _, _, rfl⟩
  · have hmem := (allFree_iff hh).mp (List.mem_filter.mp hbase).2 a ha
    refine ⟨hinv.not_live (by simp) hmem, fun u c xs hholds hxs => ?_⟩
    rw [hinv.eq_of_holds_cache hholds] at hxs
    have hplace := hinv.placed.disjoint hmem hxs
    simp at hplace

/-- **The exact effect of a trim.** In every reachable quiescent configuration of either variant, whatever
the unmaps answer, a trim returns: it tries each slab of `freeSlabs` once, with its recorded base and
length, and no other; the registry loses exactly the slabs whose unmapping succeeded and keeps its order;
each shared list is a permutation of the old one without their blocks; the rest is as it was but for the
registry links and the links of the blocks on shared lists; and the result is the sum of the released
lengths, cut off at the largest size. No slab with a live or cached block is among those tried. -/
theorem trim_exact (v : Variant) (w : World) (k : Config Tid) (t : Tid)
    (hreach : (machine Tid v w).Reachable k) (hquiescent : k.Quiescent) :
    ∃ bases lists, Chain k.state.memory.slabNext k.state.slabs bases ∧
      (∀ c, Chain k.state.memory.next (k.state.sharedHeads c) (lists c)) ∧
      ∃ s released, trimQuiescent v w k.state t = some (s, released) ∧
        TrimExact w k bases lists s released := by
  obtain ⟨bases, larges, g, hinv⟩ := safe_of_reachable hreach
  exact ⟨bases, sharedLists g, hinv.storage.registry, fun c => hinv.holds (.shared c),
    hinv.trimExact hquiescent v w t⟩

/-- Of three slabs the last has a live block; the trim releases the second and cannot unmap the first. -/
theorem trim_exact_three_slabs : ∃ k : Config (Fin 2),
    (machine (Fin 2) .cached secondUnmapFails).Reachable k ∧ k.Quiescent ∧ k.live.length = 1 ∧
      ∃ bases lists, Chain k.state.memory.slabNext k.state.slabs bases ∧
        (∀ c, Chain k.state.memory.next (k.state.sharedHeads c) (lists c)) ∧
        ∃ s released, trimQuiescent .cached secondUnmapFails k.state 1 = some (s, released) ∧
          released = 65536 ∧ s.unmapCalls.length = k.state.unmapCalls.length + 2 ∧
          TrimExact secondUnmapFails k bases lists s released := by
  obtain ⟨k, hreach, hquiescent, hlive, htrims⟩ := exists_threeSlabs
  obtain ⟨bases, lists, hregistry, hlists, s, released, htrim, hexact⟩ :=
    trim_exact .cached secondUnmapFails k 1 hreach hquiescent
  obtain ⟨hreleased, hcalls⟩ := htrims s released htrim
  exact ⟨k, hreach, hquiescent, hlive, bases, lists, hregistry, hlists, s, released, htrim, hreleased, hcalls, hexact⟩

end Hplf
