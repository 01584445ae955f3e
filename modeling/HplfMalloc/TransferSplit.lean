import HplfMalloc.Proof.TransferListLemmas

/-!
# Splitting a list in place

`hplf_transfer_list_take_prefix` on any storage: it finds the end of the prefix by counting, and cuts the
chain there with one write.
-/

namespace Hplf

open Lib Memory

variable {m m' : Memory} {source source' output : TransferList} {n : Nat}

/-- A split either moves nothing, or clears the link of the last node it moves and no other. -/
theorem transferListTakePrefix_writes
    (hsplit : transferListTakePrefix m source n = some (m', source', output)) :
    ((source.first = none ∨ n = 0) ∧ m' = m ∧ source' = source ∧ output = .clear) ∨
      ∃ last, output.last = some last ∧ m.setNextFree last none = some m' ∧
        source'.last = if source'.first = none then none else source.last := by
  unfold transferListTakePrefix at hsplit
  split at hsplit
  · rename_i hfirst
    obtain ⟨rfl, rfl, rfl⟩ := (Prod.mk.inj (Option.some.inj hsplit)).imp_right Prod.mk.inj
    exact Or.inl ⟨Or.inl hfirst, rfl, rfl, rfl⟩
  · split at hsplit
    · rename_i hzero
      obtain ⟨rfl, rfl, rfl⟩ := (Prod.mk.inj (Option.some.inj hsplit)).imp_right Prod.mk.inj
      exact Or.inl ⟨Or.inr hzero, rfl, rfl, rfl⟩
    · obtain ⟨last, -, hsplit⟩ := Option.bind_eq_some_iff.mp hsplit
      obtain ⟨rest, -, hsplit⟩ := Option.bind_eq_some_iff.mp hsplit
      obtain ⟨m₁, hset, hsplit⟩ := Option.bind_eq_some_iff.mp hsplit
      obtain ⟨rfl, rfl, rfl⟩ := (Prod.mk.inj (Option.some.inj hsplit)).imp_right Prod.mk.inj
      exact Or.inr ⟨last, rfl, hset, rfl⟩

/-- Storage after the link of `last` has been cleared; nothing changes if there is no such node. -/
structure CutAt (last : Ptr) (m m' : Memory) : Prop where
  slab : m'.slab = m.slab
  byte : m'.byte = m.byte
  others : ∀ a, last ≠ some a → m'.block a = m.block a
  cut : ∀ a, last = some a → m'.block a = (m.block a).map fun b => { b with nextFree := none }

theorem CutAt.refl (m : Memory) : CutAt none m m where
  slab := rfl
  byte := rfl
  others _ _ := rfl
  cut _ h := by simp at h

theorem cutAt_setNextFree {last : Nat} (hset : m.setNextFree last none = some m') :
    CutAt (some last) m m' := by
  obtain ⟨b, hb, rfl⟩ := Option.map_eq_some_iff.mp hset
  refine ⟨rfl, rfl, fun a ha => ?_, fun a ha => ?_⟩
  · exact Function.update_of_ne (fun heq => ha (congrArg some heq.symm)) _ _
  · obtain rfl := Option.some.inj ha
    rw [hb]
    exact Function.update_self _ _ _

/-- **Splitting in place.** Take any storage and any descriptor whose chain from `first` is `xs`, with `count`
its length and any `last`. Splitting off at most `n` nodes returns; the output describes the first `n` nodes
or all, with its tail and its count right and its chain ended by null; the source keeps the remaining nodes in
order with their count, and its `last` is the true last node if it was so before, and null if the call emptied
it; and nothing is written but the link of the last node of the output, which is cleared. -/
theorem take_prefix_exact (m : Memory) (source : TransferList) (xs : List Nat) (n : Nat)
    (hchain : Chain m.next source.first xs) (hcount : source.count = xs.length)
    (hsize : source.count ≤ sizeMax) :
    ∃ m' source' output, transferListTakePrefix m source n = some (m', source', output) ∧
      Chain m'.next output.first (xs.take n) ∧ output.last = (xs.take n).getLast? ∧
      output.count = min source.count n ∧
      Chain m'.next source'.first (xs.drop n) ∧ source'.count = (xs.drop n).length ∧
      (source.last = xs.getLast? → source'.last = (xs.drop n).getLast?) ∧
      (xs ≠ [] → xs.drop n = [] → source'.last = none) ∧
      CutAt output.last m m' := by
  have hlength : xs.length < addressSpace := by
    unfold sizeMax at hsize
    unfold addressSpace
    omega
  obtain ⟨m', source', output, hsplit, houtput, hrest, hcount', hlast, -, -⟩ :=
    transferListTakePrefix_of_chain source hchain hcount hlength n
  refine ⟨m', source', output, hsplit, houtput.chain, houtput.last, ?_, hrest, hcount', hlast, ?_, ?_⟩
  · rw [houtput.count, List.length_take, hcount, Nat.min_comm]
  · intro hne hempty
    rcases transferListTakePrefix_writes hsplit with ⟨hnothing, -, -, -⟩ | ⟨last, -, -, hsource⟩
    · -- Something is moved, or the source was empty.
      rcases hnothing with hfirst | rfl
      · exact absurd (hchain.eq_nil_iff.mp hfirst) hne
      · exact absurd hempty hne
    · rw [hsource, if_pos (hrest.eq_nil_iff.mpr hempty)]
  · rcases transferListTakePrefix_writes hsplit with ⟨-, rfl, -, rfl⟩ | ⟨last, houtput, hset, -⟩
    · exact CutAt.refl m'
    · rw [houtput]
      exact cutAt_setNextFree hset

/-- Three nodes whose descriptor has no tail, as a thread cache passes it: two are split off. -/
theorem take_prefix_exact_two_of_three : ∃ m : Memory, ∃ m' source' output,
    m.next 16 = some (some 64) ∧ m.next 64 = some (some 112) ∧ m.next 112 = some none ∧
    transferListTakePrefix m ⟨some 16, none, 3⟩ 2 = some (m', source', output) ∧
      output = ⟨some 16, some 64, 2⟩ ∧ m'.next 64 = some none ∧ source'.first = some 112 ∧
      source'.count = 1 := by
  obtain ⟨m, h₁, h₂, h₃⟩ : ∃ m : Memory, m.next 16 = some (some 64) ∧ m.next 64 = some (some 112) ∧
      m.next 112 = some none :=
    ⟨((Memory.empty.initBlock 16 ⟨.small 0, some 64, 0, 16, .small⟩).initBlock 64
      ⟨.small 0, some 112, 0, 16, .small⟩).initBlock 112 ⟨.small 0, none, 0, 16, .small⟩,
      by decide, by decide, by decide⟩
  obtain ⟨m', source', output, hsplit, houtput, hlast, hcount, hrest, hcount', -, -, -⟩ :=
    take_prefix_exact m ⟨some 16, none, 3⟩ [16, 64, 112] 2
      ⟨rfl, _, h₁, rfl, _, h₂, rfl, _, h₃, rfl⟩ rfl (by decide)
  refine ⟨m, m', source', output, h₁, h₂, h₃, hsplit, ?_, ?_, hrest.1, hcount'⟩
  · obtain ⟨first, last, count⟩ := output
    have hfirst : first = some 16 := houtput.1
    subst hfirst
    simp only [TransferList.mk.injEq, true_and]
    exact ⟨hlast, hcount⟩
  · obtain ⟨-, q, -, -, r, hr, hnull⟩ := houtput
    rw [hr, show r = none from hnull]

end Hplf
