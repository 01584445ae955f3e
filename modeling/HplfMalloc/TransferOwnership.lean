import HplfMalloc.Proof.AtomicInvariant

/-!
# Ownership in the lock-free transfer

The rules I02 to I05 of the source: a batch stays private until its compare-exchange succeeds, a head that
was loaded is copied and never followed, and only the thread whose exchange took a chain follows its links.
-/

namespace Hplf.TransferAtomic

open Lib Memory

variable {Tid : Type} [DecidableEq Tid]

/-- The list a call holds is without cycles and belongs to its thread. -/
def Pc.Holds (m : Memory) (own : List Nat) : Pc → Prop
  | .load _ list | .link _ list _ | .compareExchange _ list _ =>
      ∃ xs last, Batch m list xs last ∧ xs ++ [last] ⊆ own
  | .traverse first _ _ _ => ∃ xs, Chain m.next first xs ∧ xs ⊆ own
  | _ => True

/-- The discipline at a configuration, with the chains hanging off the heads. -/
structure OwnershipDiscipline (k : Config Tid) (chains : ClassIndex → List Nat) : Prop where
  chain : ∀ c, Chain k.state.memory.next (k.state.sharedHeads c) (chains c) ∧ (chains c).Nodup
  private_nodup : ∀ t, (k.own t).Nodup
  private_disjoint : ∀ t u, t ≠ u → (k.own t).Disjoint (k.own u)
  shared_disjoint : ∀ c d, c ≠ d → (chains c).Disjoint (chains d)
  separate : ∀ t c, (k.own t).Disjoint (chains c)
  holds : ∀ t, (k.pc t).Holds k.state.memory (k.own t)
  /-- Every access is to a block of the acting thread, and nothing else is written. -/
  access : ∀ e k', Step k e k' → (∀ a, e.accessed = some a → a ∈ k.own e.actor) ∧
    ∀ a, e.accessed ≠ some a → k'.state.memory.block a = k.state.memory.block a
  observed : ∀ t a, (k.pc t).observed = some a → a ∉ k.own t ∧
    ∀ e k', Step k e k' → e.actor = t → e.accessed ≠ some a
  /-- No call faults. -/
  acts : ∀ t, k.pc t ≠ .idle → ∀ spurious, ∃ e k', act k t spurious = some (e, k')

variable {k k' : Config Tid} {chains : ClassIndex → List Nat} {t : Tid} {e : Event Tid}

theorem Pc.Ok.holds {m : Memory} {own : List Nat} {pc : Pc} (hok : pc.Ok m own) : pc.Holds m own := by
  cases pc with
  | idle | exchange c => trivial
  | load c list => exact hok
  | link c list observed => exact hok.1
  | compareExchange c list observed =>
      obtain ⟨⟨xs, last, hbatch, hsub, -⟩, -⟩ := hok
      exact ⟨xs, last, hbatch, hsub⟩
  | traverse first block last count =>
      obtain ⟨visited, rest, hpath, hchain, hsub, -⟩ := hok
      exact ⟨visited ++ rest, chain_append.mpr ⟨block, hpath, hchain⟩, hsub⟩

/-- The only links an action touches are the tail link of its own batch and those of the chain it took. -/
theorem Inv.action_access (hinv : Inv k chains) (haction : Action k t e k') :
    (∀ a, e.accessed = some a → a ∈ k.own e.actor) ∧
      ∀ a, e.accessed ≠ some a → k'.state.memory.block a = k.state.memory.block a := by
  have hok := hinv.thread t
  cases haction with
  | @linked c list observed last m hpc hlast hwrite =>
      rw [hpc] at hok
      obtain ⟨⟨xs, last', hbatch, hsub⟩, -⟩ := hok
      obtain rfl := Option.some.inj (hbatch.tail.symm.trans hlast)
      have hown : last' ∈ k.own t := hsub (by simp)
      refine ⟨fun a ha => ?_, fun a ha => ?_⟩
      · obtain rfl := Option.some.inj ha
        exact hown
      · obtain ⟨-, q, hq⟩ := hinv.block (.own t) last' hown
        obtain ⟨m', hset, hframe, -⟩ := exists_setNextFree hq observed
        obtain rfl := Option.some.inj (hset.symm.trans hwrite)
        refine hframe.block a fun hmem => ha ?_
        rw [List.mem_singleton.mp hmem]
        rfl
  | @read first last next block count hpc hnext =>
      rw [hpc] at hok
      obtain ⟨visited, rest, -, hchain, hsub, -⟩ := hok
      refine ⟨fun a ha => ?_, fun _ _ => rfl⟩
      obtain rfl := Option.some.inj ha
      obtain ⟨rest, rfl, -⟩ := hchain.follow hnext
      exact hsub (List.mem_append_right _ List.mem_cons_self)
  | loaded | published | failed | exchanged | returned =>
      exact ⟨fun _ ha => (nomatch ha), fun _ _ => rfl⟩

theorem Inv.step_access (hinv : Inv k chains) (hstep : Step k e k') :
    (∀ a, e.accessed = some a → a ∈ k.own e.actor) ∧
      ∀ a, e.accessed ≠ some a → k'.state.memory.block a = k.state.memory.block a := by
  cases hstep with
  | @relink t block target m hidle hown hwrite =>
      refine ⟨fun a ha => ?_, fun a ha => ?_⟩
      · obtain rfl := Option.some.inj ha
        exact hown
      · obtain ⟨-, q, hq⟩ := hinv.block (.own t) block hown
        obtain ⟨m', hset, hframe, -⟩ := exists_setNextFree hq target
        obtain rfl := Option.some.inj (hset.symm.trans hwrite)
        refine hframe.block a fun hmem => ha ?_
        rw [List.mem_singleton.mp hmem]
        rfl
  | callPublish | callDetach => exact ⟨fun _ ha => (nomatch ha), fun _ _ => rfl⟩
  | act hact => exact hinv.action_access (action_of_act hact)

omit [DecidableEq Tid] in
/-- The observed head was shared when it was loaded, and the thread has obtained nothing since. -/
theorem Inv.observed_not_own (hinv : Inv k chains) {a : Nat} (hobserved : (k.pc t).observed = some a) :
    a ∉ k.own t := by
  have hok := hinv.thread t
  cases hpc : k.pc t with
  | link c list observed | compareExchange c list observed =>
      rw [hpc] at hok hobserved
      exact hok.2 a hobserved
  | idle | load c list | exchange c | traverse first block last count =>
      rw [hpc] at hobserved
      cases hobserved

theorem Inv.acts (hinv : Inv k chains) (hbusy : k.pc t ≠ .idle) (spurious : Bool) :
    ∃ e k', act k t spurious = some (e, k') := by
  have hok := hinv.thread t
  unfold act
  dsimp only
  cases hpc : k.pc t with
  | idle => exact absurd hpc hbusy
  | load c list => exact ⟨_, _, rfl⟩
  | link c list observed =>
      rw [hpc] at hok
      obtain ⟨⟨xs, last, hbatch, hsub⟩, -⟩ := hok
      obtain ⟨-, q, hq⟩ := hinv.block (.own t) last (hsub (by simp))
      obtain ⟨m, hset, -⟩ := exists_setNextFree hq observed
      simp only [hbatch.tail, hset, Option.bind_eq_bind, Option.bind_some]
      exact ⟨_, _, rfl⟩
  | compareExchange c list observed =>
      dsimp only
      split
      · exact ⟨_, _, rfl⟩
      · exact ⟨_, _, rfl⟩
  | exchange c => exact ⟨_, _, rfl⟩
  | traverse first block last count =>
      rw [hpc] at hok
      obtain ⟨visited, rest, -, hchain, -⟩ := hok
      cases rest with
      | nil =>
          obtain rfl := chain_nil.mp hchain
          exact ⟨_, _, rfl⟩
      | cons a rest =>
          obtain ⟨rfl, q, hq, -⟩ := chain_cons.mp hchain
          simp only [hq, Option.bind_eq_bind, Option.bind_some]
          exact ⟨_, _, rfl⟩

/-- **Ownership discipline.** In every reachable configuration of the lock-free transfer, for any number of
threads and any interleaving of their accesses: private lists and shared chains are disjoint and without
cycles, every access to a link is to a block the acting thread owns at that moment, the observed head of a
publish is never followed by it, and no call faults. -/
theorem transfer_ownership (k : Config Tid) (hreach : (machine Tid).Reachable k) :
    ∃ chains, OwnershipDiscipline k chains := by
  obtain ⟨chains, hinv⟩ := inv_of_reachable hreach
  refine ⟨chains, fun c => ⟨hinv.chain c, (hinv.chain c).nodup⟩, fun t => hinv.placed.nodup (.own t),
    fun t u hne a ht hu => hne (hinv.own_disjoint ht hu), fun c d hne a hc hd => ?_,
    fun t c a ht hc => hinv.not_shared ht c hc, fun t => (hinv.thread t).holds,
    fun e k' => hinv.step_access, fun t a hobserved => ?_, fun t => hinv.acts⟩
  · have hplace := hinv.placed.disjoint (p := .shared c) (q := .shared d) hc hd
    exact hne (Place.shared.inj hplace)
  · have hnot := hinv.observed_not_own hobserved
    refine ⟨hnot, fun e k' hstep hactor haccess => hnot ?_⟩
    rw [← hactor]
    exact (hinv.step_access hstep).1 a haccess

/-- Thread 0 has observed the block of thread 1 as the head. Before it goes on, thread 1 takes the block back and
writes its link for purposes of its own. -/
theorem transfer_ownership_reused_head : ∃ k : Config (Fin 2), (machine (Fin 2)).Reachable k ∧
    k.pc 0 = .link firstClass (single 4096) (some 8192) ∧ k.own 1 = [8192] ∧
      k.state.memory.next 8192 = some (some 8192) ∧ ∃ chains, OwnershipDiscipline k chains := by
  have hact : ∀ {k k' : Config (Fin 2)} {e : Event (Fin 2)} (t : Fin 2), act k t false = some (e, k') →
      Step k e k' := fun t h => .act h
  have hinitial : (machine (Fin 2)).init twoOwners := ⟨twoOwners_initial, fun _ => rfl⟩
  -- Thread 1 publishes its block.
  have r₁ := (System.Reachable.init hinitial).step
    ⟨_, rfl, Step.publish_single (t := 1) firstClass rfl rfl rfl⟩
  have r₂ := r₁.step ⟨.load 1 firstClass, rfl, hact 1 rfl⟩
  have r₃ := r₂.step ⟨.link 1 8192, rfl, hact 1 rfl⟩
  have r₄ := r₃.step ⟨.published 1 firstClass (single 8192), rfl, hact 1 rfl⟩
  -- Thread 0 observes it as the head.
  have r₅ := r₄.step ⟨_, rfl, Step.publish_single (t := 0) firstClass rfl rfl rfl⟩
  have r₆ := r₅.step ⟨.load 0 firstClass, rfl, hact 0 rfl⟩
  -- Thread 1 takes it away and closes its link into a cycle.
  have r₇ := r₆.step ⟨.callDetach 1 firstClass, rfl, .callDetach rfl⟩
  have r₈ := r₇.step ⟨.detached 1 firstClass true, rfl, hact 1 rfl⟩
  have r₉ := r₈.step ⟨.read 1 8192, rfl, hact 1 rfl⟩
  have r₁₀ := r₉.step ⟨.returned 1 (single 8192), rfl, hact 1 rfl⟩
  have hreach := r₁₀.step ⟨.relink 1 8192 (some 8192), rfl, .relink rfl (by decide) rfl⟩
  exact ⟨_, hreach, rfl, rfl, rfl, transfer_ownership _ hreach⟩

end Hplf.TransferAtomic
