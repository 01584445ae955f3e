import HplfMalloc.Lifecycle
import HplfMalloc.Proof.ListSteps
import HplfMalloc.Proof.ThreadCacheLemmas
import Mathlib.Algebra.BigOperators.Fin

/-!
# Flushing a cache

`flush_descriptor` on any cache whose counters agree with its lists, over any transfer chains: one class after
the other is extracted whole and published.
-/

namespace Hplf

open Lib Memory
open scoped BigOperators

variable {Tid : Type} {s : State Tid} {d : Nat} {descriptor : CacheDescriptor}
variable {lists chains : ClassIndex → List Nat}

/-- The cache of the descriptor at `d` holds `lists`, its counts and bytes match them, and the transfer chains
are `chains`. No block of the cache is in two lists. -/
structure Flushable (s : State Tid) (d : Nat) (descriptor : CacheDescriptor)
    (lists chains : ClassIndex → List Nat) : Prop where
  mapped : s.descriptor d = some descriptor
  chain : ∀ c, Chain s.memory.next (descriptor.cache.heads c) (lists c)
  count : ∀ c, descriptor.cache.counts c = (lists c).length
  bytes : descriptor.cache.totalSlotBytes = ∑ c, (lists c).length * sizeClassCapacities c
  bounded : descriptor.cache.totalSlotBytes ≤ sizeMax
  shared : ∀ c, Chain s.memory.next (s.sharedHeads c) (chains c)
  apart : ∀ c e, c ≠ e → ∀ a ∈ lists c, a ∉ lists e
  outside : ∀ c e, ∀ a ∈ lists c, a ∉ chains e

theorem Flushable.sound (hflush : Flushable s d descriptor lists chains) : descriptor.cache.Sound := by
  refine ⟨?_, ?_⟩
  · rw [hflush.bytes]
    exact Finset.sum_congr rfl fun c _ => by rw [hflush.count c]
  · have hbounded := hflush.bounded
    unfold sizeMax at hbounded
    omega

/-- From `s` to `s'` only links of the blocks `nodes`, transfer heads and the cache at `d` have changed. -/
structure Flushes (d : Nat) (nodes : List Nat) (s s' : State Tid) (descriptor descriptor' : CacheDescriptor) :
    Prop where
  state : s' = { s with
    memory := s'.memory
    sharedHeads := s'.sharedHeads
    descriptor := Function.update s.descriptor d (some descriptor') }
  region : descriptor' = { descriptor with cache := descriptor'.cache }
  frame : Framed nodes s.memory s'.memory
  size : s'.memory.size = s.memory.size

theorem Flushes.refl (hmapped : s.descriptor d = some descriptor) (nodes : List Nat) :
    Flushes d nodes s s descriptor descriptor where
  state := by rw [← hmapped, Function.update_eq_self]
  region := rfl
  frame := Framed.refl _ _
  size := rfl

theorem Flushes.trans {nodes : List Nat} {s₁ s₂ : State Tid} {descriptor₁ descriptor₂ : CacheDescriptor}
    (h₁ : Flushes d nodes s s₁ descriptor descriptor₁) (h₂ : Flushes d nodes s₁ s₂ descriptor₁ descriptor₂) :
    Flushes d nodes s s₂ descriptor descriptor₂ where
  state := by
    have hstate := h₂.state
    rw [h₁.state] at hstate
    rw [hstate]
    simp only [Function.update_idem]
  region := by
    have hregion := h₂.region
    rw [h₁.region] at hregion
    exact hregion
  frame := h₁.frame.trans h₂.frame
  size := h₂.size.trans h₁.size

theorem Flushes.mono {nodes nodes' : List Nat} {s' : State Tid} {descriptor' : CacheDescriptor}
    (hflushes : Flushes d nodes s s' descriptor descriptor') (hsub : nodes ⊆ nodes') :
    Flushes d nodes' s s' descriptor descriptor' :=
  { hflushes with frame := hflushes.frame.mono hsub }

theorem mem_update_nil {c e : ClassIndex} {a : Nat} (ha : a ∈ Function.update lists c [] e) :
    e ≠ c ∧ a ∈ lists e := by
  by_cases he : e = c
  · subst he
    simp at ha
  · rw [Function.update_of_ne he] at ha
    exact ⟨he, ha⟩

/-- Nothing is published from an empty cache. -/
theorem flushClasses_empty (hmapped : s.descriptor d = some descriptor)
    (hempty : ∀ c, descriptor.cache.heads c = none) (classes : List ClassIndex) (n : Nat) :
    flushClasses d classes s n = some (s, n) := by
  induction classes with
  | nil => rfl
  | cons c rest ih =>
      have hextract : flushExtract s d c = some (s, none) := by
        simp only [flushExtract, withCache, hmapped, threadCacheExtractClass_empty (hempty c),
          Option.bind_eq_bind, Option.bind_some]
        rw [← hmapped, Function.update_eq_self]
      rw [Hplf.flushClasses, hextract]
      exact ih

/-- **One class.** An iteration of the loop moves the whole list of the class in front of its transfer
chain. -/
theorem Flushable.publishClass (hflush : Flushable s d descriptor lists chains) (c : ClassIndex) :
    ∃ s' descriptor', (∀ rest n, flushClasses d (c :: rest) s n
        = flushClasses d rest s' (n + (lists c).length)) ∧
      Flushable s' d descriptor' (Function.update lists c [])
        (Function.update chains c (lists c ++ chains c)) ∧
      Flushes d (lists c) s s' descriptor descriptor' ∧
      s'.sharedHeads = Function.update s.sharedHeads c (lists c ++ chains c).head? := by
  by_cases hnil : lists c = []
  · have hhead : descriptor.cache.heads c = none := (hflush.chain c).eq_nil_iff.mpr hnil
    have hextract : flushExtract s d c = some (s, none) := by
      simp only [flushExtract, withCache, hflush.mapped, threadCacheExtractClass_empty hhead,
        Option.bind_eq_bind, Option.bind_some]
      rw [← hflush.mapped, Function.update_eq_self]
    refine ⟨s, descriptor, fun rest n => ?_, ?_, Flushes.refl hflush.mapped _, ?_⟩
    · simp only [Hplf.flushClasses, hextract, hnil, Option.bind_eq_bind, Option.bind_some, List.length_nil,
        Nat.add_zero]
    · rw [hnil, List.nil_append, Function.update_eq_self, ← hnil, Function.update_eq_self]
      exact hflush
    · rw [hnil, List.nil_append, ← (hflush.shared c).head?_eq, Function.update_eq_self]
  · have hlength : (lists c).length ≤ sizeMax := by
      have hlt := hflush.sound.count_lt c
      rw [hflush.count c] at hlt
      unfold addressSpace at hlt
      unfold sizeMax
      omega
    obtain ⟨m₁, output, hextract, houtput, -, hframe₁, hsize₁⟩ :=
      threadCacheExtractClass_of_chain (n := sizeMax) hflush.sound (hflush.chain c) (hflush.count c)
        (by decide) hnil
    rw [List.take_of_length_le hlength] at houtput hframe₁ hextract
    rw [List.drop_of_length_le hlength] at hextract
    set cache₁ := descriptor.cache.withClass c ([] : List Nat).head? ([] : List Nat).length
      (descriptor.cache.totalSlotBytes - (lists c).length * sizeClassCapacities c) with hcache₁
    set s₁ : State Tid := { s with
      memory := m₁
      descriptor := Function.update s.descriptor d (some { descriptor with cache := cache₁ }) } with hs₁
    have hkeep : ∀ e, e ≠ c → ∀ a ∈ lists e, a ∉ lists c := fun e he => hflush.apart e c he
    have hshared₁ : ∀ e, Chain m₁.next (s.sharedHeads e) (chains e) := fun e =>
      hframe₁.chain (hflush.shared e) fun a ha hmem => hflush.outside c e a hmem ha
    obtain ⟨m₂, hpublish, hframe₂, hsize₂, hjoined⟩ :=
      transferMutexPublish_of_owns (s := s₁) (c := c) houtput (hshared₁ c) (hflush.outside c c)
    refine ⟨{ s₁ with
        memory := m₂
        sharedHeads := Function.update s₁.sharedHeads c (lists c ++ chains c).head? },
      { descriptor with cache := cache₁ }, fun rest n => ?_, ?_, ⟨rfl, rfl, hframe₁.trans hframe₂,
      hsize₂.trans hsize₁⟩, rfl⟩
    · have hcount : output.count = (lists c).length := houtput.count
      have hloop : flushExtract s d c = some (s₁, some output) := by
        simp only [flushExtract, withCache, hflush.mapped, hextract, Option.bind_eq_bind, Option.bind_some]
        rfl
      simp only [Hplf.flushClasses, hloop, hpublish, hcount, Option.bind_eq_bind, Option.bind_some]
    · have hframe := hframe₁.trans hframe₂
      have hcount : ∀ e, cache₁.counts e = (Function.update lists c [] e).length := by
        intro e
        by_cases he : e = c
        · subst he
          rw [Function.update_self]
          exact Function.update_self _ _ _
        · rw [Function.update_of_ne he]
          exact (Function.update_of_ne he _ _).trans (hflush.count e)
      refine ⟨Function.update_self _ _ _, fun e => ?_, hcount, ?_, ?_, fun e => ?_, ?_, ?_⟩
      · by_cases he : e = c
        · subst he
          rw [Function.update_self]
          exact Function.update_self _ _ _
        · rw [Function.update_of_ne he]
          change Chain m₂.next (Function.update descriptor.cache.heads c _ e) (lists e)
          rw [Function.update_of_ne he]
          exact hframe.chain (hflush.chain e) (hkeep e he)
      · have hle := hflush.sound.mul_le c
        rw [hflush.count c] at hle
        have htotal : cache₁.totalSlotBytes = ∑ e, cache₁.counts e * sizeClassCapacities e := by
          apply ThreadCache.balanced_withClass hflush.sound.balanced
          rw [hflush.count c]
          rw [List.length_nil, Nat.zero_mul, Nat.add_zero]
          exact Nat.sub_add_cancel hle
        refine htotal.trans (Finset.sum_congr rfl fun e _ => ?_)
        rw [hcount e]
      · exact (Nat.sub_le _ _).trans hflush.bounded
      · by_cases he : e = c
        · subst he
          have hhead : Function.update s₁.sharedHeads e (lists e ++ chains e).head? e
              = (lists e ++ chains e).head? := Function.update_self _ _ _
          rw [Function.update_self]
          change Chain m₂.next (Function.update s₁.sharedHeads e _ e) _
          rw [hhead]
          exact hjoined
        · rw [Function.update_of_ne he]
          change Chain m₂.next (Function.update s.sharedHeads c _ e) (chains e)
          rw [Function.update_of_ne he]
          exact hframe₂.chain (hshared₁ e) fun a ha hmem => hflush.outside c e a hmem ha
      · intro e f hne a ha hmem
        obtain ⟨-, ha⟩ := mem_update_nil ha
        obtain ⟨-, hmem⟩ := mem_update_nil hmem
        exact hflush.apart e f hne a ha hmem
      · intro e f a ha hmem
        obtain ⟨he, hlist⟩ := mem_update_nil ha
        by_cases hf : f = c
        · subst hf
          rw [Function.update_self, List.mem_append] at hmem
          rcases hmem with hmem | hmem
          · exact hflush.apart e f he a hlist hmem
          · exact hflush.outside e f a hlist hmem
        · rw [Function.update_of_ne hf] at hmem
          exact hflush.outside e f a hlist hmem

/-- **The loop.** Every class still to come is emptied into its transfer chain. -/
theorem Flushable.flushClasses (classes : List ClassIndex) :
    ∀ {s : State Tid} {descriptor : CacheDescriptor} {lists chains : ClassIndex → List Nat} (n : Nat),
      Flushable s d descriptor lists chains → classes.Nodup →
      ∃ s' descriptor', flushClasses d classes s n
          = some (s', n + (classes.map fun c => (lists c).length).sum) ∧
        Flushable s' d descriptor' (fun c => if c ∈ classes then [] else lists c)
          (fun c => if c ∈ classes then lists c ++ chains c else chains c) ∧
        Flushes d (classes.flatMap lists) s s' descriptor descriptor' ∧
        ∀ c, lists c = [] → s'.sharedHeads c = s.sharedHeads c := by
  induction classes with
  | nil =>
      intro s descriptor lists chains n hflush _
      exact ⟨s, descriptor, rfl, by simpa using hflush, Flushes.refl hflush.mapped _, fun _ _ => rfl⟩
  | cons c rest ih =>
      intro s descriptor lists chains n hflush hnodup
      obtain ⟨hc, hrest⟩ := List.nodup_cons.mp hnodup
      obtain ⟨s₁, descriptor₁, hstep, hflush₁, hflushes₁, hheads₁⟩ := hflush.publishClass c
      obtain ⟨s', descriptor', hloop, hflush', hflushes, hheads⟩ := ih (n + (lists c).length) hflush₁ hrest
      have hothers : ∀ e ∈ rest, Function.update lists c [] e = lists e := fun e he =>
        Function.update_of_ne (ne_of_mem_of_not_mem he hc) _ _
      refine ⟨s', descriptor', ?_, ?_, ?_, fun e he => ?_⟩
      · rw [hstep, hloop, List.map_cons, List.sum_cons, Nat.add_assoc,
          List.map_congr_left fun e he => congrArg List.length (hothers e he)]
      · have hlists : (fun e => if e ∈ rest then [] else Function.update lists c [] e)
            = fun e => if e ∈ c :: rest then [] else lists e := by
          funext e
          by_cases he : e = c
          · subst he
            simp
          · simp [he]
        have hchains : (fun e => if e ∈ rest then
              Function.update lists c [] e ++ Function.update chains c (lists c ++ chains c) e
            else Function.update chains c (lists c ++ chains c) e)
            = fun e => if e ∈ c :: rest then lists e ++ chains e else chains e := by
          funext e
          by_cases he : e = c
          · subst he
            simp [hc]
          · simp [he]
        rwa [hlists, hchains] at hflush'
      · rw [List.flatMap_congr hothers] at hflushes
        rw [List.flatMap_cons]
        exact (hflushes₁.mono (List.subset_append_left _ _)).trans
          (hflushes.mono (List.subset_append_right _ _))
      · have hempty : Function.update lists c [] e = [] := by
          by_cases hec : e = c
          · subst hec
            exact Function.update_self _ _ _
          · rw [Function.update_of_ne hec, he]
        rw [hheads e hempty, hheads₁]
        by_cases hec : e = c
        · subst hec
          rw [Function.update_self, he, List.nil_append]
          exact (hflush.shared e).head?_eq.symm
        · exact Function.update_of_ne hec _ _

/-- **Flush publishes everything and nothing else.** A flush of a cache whose counts and bytes match its lists
returns the number of cached blocks and leaves the cache empty; the transfer chain of each class is then the
cached chain followed by what it was before; the head of a class with nothing cached is as before, and so is
everything but transfer heads and links of the blocks that were cached. A second flush returns zero and changes
nothing. -/
theorem flush_exact (s : State Tid) (d : Nat) (descriptor : CacheDescriptor)
    (lists chains : ClassIndex → List Nat) (hflush : Flushable s d descriptor lists chains) :
    ∃ s', flushDescriptor s d = some (s', ∑ c, (lists c).length) ∧
      s' = { s with
        memory := s'.memory
        sharedHeads := s'.sharedHeads
        descriptor := Function.update s.descriptor d
          (some { descriptor with cache := ⟨fun _ => none, fun _ => 0, 0⟩ }) } ∧
      (∀ c, Chain s'.memory.next (s'.sharedHeads c) (lists c ++ chains c)) ∧
      (∀ c, lists c = [] → s'.sharedHeads c = s.sharedHeads c) ∧
      LinksOnly (classIndices.flatMap lists) s.memory s'.memory ∧
      flushDescriptor s' d = some (s', 0) := by
  obtain ⟨s', descriptor', hloop, hflush', hflushes, hheads⟩ :=
    Flushable.flushClasses classIndices 0 hflush nodup_classIndices
  simp only [mem_classIndices, if_true] at hflush'
  have hempty : descriptor'.cache = ⟨fun _ => none, fun _ => 0, 0⟩ := by
    have hcacheHeads : descriptor'.cache.heads = fun _ => none := funext fun c => hflush'.chain c
    have hcounts : descriptor'.cache.counts = fun _ => 0 := funext fun c => hflush'.count c
    have htotal : descriptor'.cache.totalSlotBytes = 0 := by
      rw [hflush'.bytes]
      simp
    rw [← hcacheHeads, ← hcounts, ← htotal]
  refine ⟨s', ?_, ?_, hflush'.shared, hheads, .of_framed hflushes.frame hflushes.size, ?_⟩
  · rw [flushDescriptor, hloop, Nat.zero_add, classIndices, ← Fin.sum_univ_def]
  · have hstate := hflushes.state
    rwa [hflushes.region, hempty] at hstate
  · exact flushClasses_empty hflush'.mapped (fun c => hflush'.chain c) _ _

/-- Two blocks of the smallest class are cached and one is on its transfer chain. -/
theorem flush_exact_two_blocks : ∃ (s s' : State Nat) (descriptor : CacheDescriptor) (c : ClassIndex),
    s.descriptor 4096 = some descriptor ∧ descriptor.cache.heads c = some 16 ∧
      descriptor.cache.totalSlotBytes = 32 ∧ s.sharedHeads c = some 112 ∧
      flushDescriptor s 4096 = some (s', 2) ∧
      Chain s'.memory.next (s'.sharedHeads c) [16, 64, 112] ∧ flushDescriptor s' 4096 = some (s', 0) := by
  let c : ClassIndex := ⟨0, by decide⟩
  let m : Memory := ((Memory.empty.initBlock 16 ⟨.small 0, some 64, 0, 16, .small⟩).initBlock 64
    ⟨.small 0, none, 0, 16, .small⟩).initBlock 112 ⟨.small 0, none, 0, 16, .small⟩
  let lists : ClassIndex → List Nat := Function.update (fun _ => []) c [16, 64]
  let chains : ClassIndex → List Nat := Function.update (fun _ => []) c [112]
  let descriptor : CacheDescriptor := ⟨⟨fun e => (lists e).head?, fun e => (lists e).length, 32⟩, 4096, 4096⟩
  let s : State Nat := { (.initial : State Nat) with
    memory := m
    sharedHeads := fun e => (chains e).head?
    descriptor := Function.update (fun _ => none) 4096 (some descriptor) }
  have hlist : Chain m.next (some 16) [16, 64] := ⟨rfl, _, by decide, rfl, _, by decide, rfl⟩
  have hchain : Chain m.next (some 112) [112] := ⟨rfl, _, by decide, rfl⟩
  have hflush : Flushable s 4096 descriptor lists chains := by
    refine ⟨rfl, fun e => ?_, fun _ => rfl, by decide, by decide, fun e => ?_, ?_, ?_⟩
    · by_cases he : e = c
      · rw [he]
        exact hlist
      · change Chain m.next (lists e).head? (lists e)
        rw [show lists e = [] from Function.update_of_ne he _ _]
        rfl
    · by_cases he : e = c
      · rw [he]
        exact hchain
      · change Chain m.next (chains e).head? (chains e)
        rw [show chains e = [] from Function.update_of_ne he _ _]
        rfl
    · decide
    · decide
  obtain ⟨s', hfirst, -, hchains, -, -, hsecond⟩ := flush_exact s 4096 descriptor lists chains hflush
  refine ⟨s, s', descriptor, c, rfl, rfl, rfl, rfl, ?_, hchains c, hsecond⟩
  rw [hfirst, show ∑ e, (lists e).length = 2 by decide]

end Hplf
