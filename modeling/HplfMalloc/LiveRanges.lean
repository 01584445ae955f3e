import HplfMalloc.Proof.Safety
import HplfMalloc.Schedule

/-!
# The geometry of live allocations

The requested ranges of live allocations are pairwise disjoint, disjoint from every slab header and every
block prefix, aligned, inside one mapping, and no longer than the capacity of their block.
-/

namespace Hplf

open Lib Memory

variable {Tid : Type}

/-- The slab at `base` is in the registry. -/
def Registered (s : State Tid) (base : Nat) : Prop :=
  ∃ bases, Chain s.memory.slabNext s.slabs bases ∧ base ∈ bases

/-- A block prefix lies at `a`: a slot of a registered slab, a block a client holds, or one that a call is
about to hand to its client. -/
def HasPrefix (k : Config Tid) (a : Nat) : Prop :=
  (∃ base h, Registered k.state base ∧ k.state.memory.slab base = some h ∧ a ∈ h.slots base) ∨
    a ∈ k.live ∨ ∃ t r, k.pc t = .deliver r a

/-- The payload at `p` of the block at `a` with prefix `b` is where it should be. -/
structure RangeOk (k : Config Tid) (a : Nat) (b : Block) (p : Nat) : Prop where
  block : k.state.memory.block a = some b
  payload : blockPayload (some a) = some p
  aligned : payloadAlignment ∣ p
  size_le : b.requestedSize ≤ b.capacity
  inside : ∃ r ∈ k.state.mapped, r.base ≤ p ∧ p + b.requestedSize ≤ r.base + r.length
  headers : ∀ base, Registered k.state base → ¬ Overlap p b.requestedSize base sizeofSlab
  prefixes : ∀ a', HasPrefix k a' → ¬ Overlap p b.requestedSize a' sizeofBlock

variable {k : Config Tid} {bases larges : List Nat} {g : Place Tid → List Nat}

theorem Inv.mem_of_registered (hinv : Inv k bases larges g) {base : Nat}
    (hregistered : Registered k.state base) : base ∈ bases := by
  obtain ⟨bases', hchain, hbase⟩ := hregistered
  rwa [hinv.storage.registry.unique hchain]


theorem Inv.populated_of_hasPrefix (hinv : Inv k bases larges g) {a : Nat} (ha : HasPrefix k a) :
    Populated k.state.memory bases larges a := by
  rcases ha with ⟨base, h, hregistered, hh, hslot⟩ | hlive | ⟨t, r, hpc⟩
  · exact Or.inl ⟨_, base, hinv.mem_of_registered hregistered, h, hh, rfl, hslot⟩
  · exact hinv.live_populated hlive
  · have hcarries := hinv.carries_at hpc
    have hmem : a ∈ g (.inflight t) := by
      rw [show g (.inflight t) = [a] from hcarries]
      exact List.mem_singleton_self a
    exact hinv.populated hmem

theorem Inv.rangeOk (hinv : Inv k bases larges g) {a : Nat} (ha : a ∈ k.live) :
    ∃ b, RangeOk k a b (a + sizeofBlock) := by
  have hpop := hinv.live_populated ha
  obtain ⟨b, r, hb, hr, -, hlow, hhigh, haligned⟩ := hinv.storage.extent hpop
  have hle := (hinv.live_size_le ha hb).2
  refine ⟨b, hb, blockPayload_some a, ?_, hle, ⟨r, ?_, by omega, by omega⟩, fun base hbase => ?_,
    fun a' ha' => ?_⟩
  · exact (Nat.dvd_add_right haligned).mpr (by decide)
  · exact hinv.storage.ledger.mem_iff.mpr (List.mem_append_left _ hr)
  · have hapart := hinv.storage.header_apart hpop (hinv.mem_of_registered hbase) hb
    rintro ⟨hlt, hlt'⟩
    unfold sizeofBlock sizeofSlab at *
    omega
  · have hpop' := hinv.populated_of_hasPrefix ha'
    obtain ⟨b', -, hb', -⟩ := hinv.storage.extent hpop'
    rintro ⟨hlt, hlt'⟩
    by_cases hne : a = a'
    · subst hne
      unfold sizeofBlock at *
      omega
    · have hapart := hinv.storage.blocks_apart hpop hpop' hne hb hb'
      unfold sizeofBlock at *
      omega

variable [DecidableEq Tid]

/-- **Geometry of live allocations.** In every reachable configuration of either variant the requested
range of each live allocation is aligned, inside a current mapping, within the capacity of its block, and
disjoint from every slab header and every block prefix, its own included; and the ranges of distinct live
allocations are disjoint. -/
theorem live_ranges (v : Variant) (w : World) (k : Config Tid)
    (hreach : (machine Tid v w).Reachable k) :
    (∀ a ∈ k.live, ∃ b p, RangeOk k a b p) ∧
      ∀ a a' b b' p p', a ∈ k.live → a' ∈ k.live → a ≠ a' → RangeOk k a b p → RangeOk k a' b' p' →
        ¬ Overlap p b.requestedSize p' b'.requestedSize := by
  obtain ⟨bases, larges, g, hinv⟩ := safe_of_reachable hreach
  refine ⟨fun a ha => ?_, fun a a' b b' p p' ha ha' hne hok hok' => ?_⟩
  · obtain ⟨b, hok⟩ := hinv.rangeOk ha
    exact ⟨b, _, hok⟩
  · have hapart := hinv.storage.blocks_apart (hinv.live_populated ha) (hinv.live_populated ha') hne
      hok.block hok'.block
    have hp := hok.payload
    have hp' := hok'.payload
    rw [blockPayload_some, Option.some.injEq] at hp hp'
    have hle := hok.size_le
    have hle' := hok'.size_le
    rintro ⟨hlt, hlt'⟩
    unfold sizeofBlock at hapart
    omega

/-- Thread 0 gets two neighbours in a slab, thread 1 a block of another slab and a large one, and thread 0 is getting
a further one. -/
def fourBlocksMoves : List (Move (Fin 2)) :=
  callMoves 0 (.malloc 4096) 9 ++ callMoves 0 (.malloc 4000) 2 ++ callMoves 1 (.malloc 3000) 9 ++
    callMoves 1 (.malloc 10000) 2 ++ callMoves 0 (.malloc 2048) 5

/-- Four blocks are live, one of them large, and a thread is in the middle of a call. -/
def showsFourBlocks (k : Config (Fin 2)) : Bool :=
  k.live.length == 4 && k.pc 0 != .idle &&
    k.live.countP (fun a => (k.state.memory.block a).any fun b => b.kind == .large) == 1

theorem live_ranges_four_blocks : ∃ k : Config (Fin 2),
    (machine (Fin 2) .cached (bumpWorld fun _ => none)).Reachable k ∧ k.live.length = 4 ∧ k.pc 0 ≠ .idle ∧
      k.live.countP (fun a => (k.state.memory.block a).any fun b => b.kind == .large) = 1 ∧
      (∀ a ∈ k.live, ∃ b p, RangeOk k a b p) ∧
      ∀ a a' b b' p p', a ∈ k.live → a' ∈ k.live → a ≠ a' → RangeOk k a b p → RangeOk k a' b' p' →
        ¬ Overlap p b.requestedSize p' b'.requestedSize := by
  obtain ⟨k, hreach, hcheck⟩ := exists_makeMoves .cached (bumpWorld fun _ => none) fourBlocksMoves showsFourBlocks
    (by decide +kernel)
  simp only [showsFourBlocks, Bool.and_eq_true, bne_iff_ne, beq_iff_eq] at hcheck
  obtain ⟨⟨hlive, hbusy⟩, hlarge⟩ := hcheck
  exact ⟨k, hreach, hlive, hbusy, hlarge, live_ranges _ _ k hreach⟩

end Hplf
