import HplfMalloc.Proof.ClientSteps

/-!
# The locked build's lists, and slab creation in front of them

Popping and pushing one block of a shared list, as the locked build does under its mutex.
-/

namespace Hplf

open Lib Memory

variable {Tid : Type} [DecidableEq Tid]
variable {k : Config Tid} {t : Tid} {bases larges : List Nat} {g : Place Tid → List Nat}
variable {c : ClassIndex} {w : World}

/-- **Pop.** The head of a chain made of the shared list and of what the call holds goes to the client;
the rest becomes the shared list. -/
theorem Inv.pop (hinv : Inv k bases larges g) {r : Request} {a : Nat} {rest : List Nat}
    (heads : ClassIndex → Ptr) (hheads : ∀ e, e ≠ c → heads e = k.state.sharedHeads e)
    (hchain : Chain k.state.memory.next (some a) (a :: rest))
    (hperm : (a :: rest).Perm (g (.shared c) ++ g (.inflight t)))
    (hfree : ∀ b ∈ a :: rest, FreeIn k.state.memory bases c b)
    (hfor : sizeClassFor r.size = some (c, sizeClassCapacities c))
    (hfollows : (k.pc t).Follows (.deliver r a)) (hevicting : (k.pc t).evicting = none) :
    ∃ s, popShared { k.state with sharedHeads := heads } r.size c a
          = some (s, blockPayload (some a)) ∧ Quiet k s ∧
      Inv (k.goto t s (.deliver r a)) bases larges
        (replace₂ g (.shared c) (.inflight t) rest [a]) := by
  obtain ⟨hnext, m₁, hset₁, hframe₁, hsize₁, -, hrest⟩ :=
    exists_cut (show Chain k.state.memory.next _ ([] ++ a :: rest) from hchain)
  obtain ⟨b₁, hb₁⟩ : ∃ q, m₁.next a = some q := by
    obtain ⟨b, hb, -⟩ := exists_block_of_next hnext
    obtain ⟨b', hb', -⟩ := hframe₁.exists_block hb
    exact ⟨_, next_eq_some hb'⟩
  obtain ⟨m₂, hset₂, hframe₂, hnext₂, hsize₂⟩ := exists_setRequestedSize hb₁ r.size
  have hframe := hframe₁.trans hframe₂
  have hnodup := hchain.nodup
  have hupdate : Function.update heads c rest.head?
      = Function.update k.state.sharedHeads c rest.head? := by
    funext e
    by_cases he : e = c
    · rw [he, Function.update_self, Function.update_self]
    · rw [Function.update_of_ne he, Function.update_of_ne he, hheads e he]
  have hmem : a ∈ g (.shared c) ++ g (.inflight t) := hperm.mem_iff.mp List.mem_cons_self
  have hnotLive : a ∉ k.live := by
    rcases List.mem_append.mp hmem with h | h
    · exact hinv.not_live (by simp) h
    · exact hinv.not_live (by simp) h
  refine ⟨{ k.state with
      memory := m₂
      sharedHeads := Function.update k.state.sharedHeads c rest.head? }, ?_,
    Quiet.of_framed ⟨_, _, _, _, rfl⟩ hframe fun b hb => List.mem_singleton.mp hb ▸ hnotLive, ?_⟩
  · simp only [popShared, hnext, hset₁, hset₂, Option.bind_eq_bind, Option.bind_some, hupdate]
  refine hinv.exchangeShared _ _ hframe (hnext₂ ▸ hrest) ?_ ?_ ?_ hfollows
    (by rw [hevicting]; rfl) (fun e he => he.elim) trivial rfl ?_
  · intro b hb
    have hne : b ≠ a := fun h => (List.nodup_cons.mp hnodup).1 (h ▸ hb)
    exact (hfree b (List.mem_cons_of_mem a hb)).congr hframe.slab
      (hframe.size (by simpa using hne))
  · exact (List.perm_append_singleton a rest).trans hperm
  · intro b hb
    rw [List.mem_singleton.mp hb]
    exact List.mem_append.mp hmem
  · intro b hb
    rw [List.mem_singleton.mp hb]
    refine ⟨by simp [hsize₂], Or.inl ⟨c, ?_, hfor⟩⟩
    exact (hfree a List.mem_cons_self).1.congr hframe.slab

/-- **Push.** The freed block goes in front of the shared list of its class. -/
theorem Inv.freeLocked (hinv : Inv k bases larges g) {a : Nat} (hpc : k.pc t = .release a)
    (hclass : InClass k.state.memory bases c a) :
    ∃ s, freeSmallLocked k.state a c = some s ∧ ListsOnly k.state s ∧
      Framed [a] k.state.memory s.memory ∧
      ∃ g', Inv { k.goto t s .idle with live := k.live.erase a } bases larges g' ∧ Foreign t g g' := by
  obtain ⟨m₁, hset₁, hframe₁, hnext₁, hinv₁⟩ := hinv.reclaim hpc hclass
  have ha : a ∈ replace₂ g .live (.inflight t) (k.live.erase a) [a] (.inflight t) := by
    rw [replace₂_right]
    exact List.mem_singleton_self a
  obtain ⟨q, hq⟩ := hinv₁.exists_next ha
  change m₁.next a = some q at hq
  have hshared : replace₂ g .live (.inflight t) (k.live.erase a) [a] (.shared c) = g (.shared c) :=
    replace₂_of_ne (by simp) (by simp)
  obtain ⟨m₂, hset₂, hframe₂, hsize₂, hnext₂⟩ := exists_setNextFree hq (k.state.sharedHeads c)
  refine ⟨{ k.state with
      memory := m₂
      sharedHeads := Function.update k.state.sharedHeads c (some a) }, ?_, ⟨_, _, _, _, rfl⟩,
    hframe₁.trans hframe₂, ?_⟩
  · simp only [freeSmallLocked, hset₁, hset₂, Option.bind_eq_bind, Option.bind_some]
  have hold : Chain m₁.next (k.state.sharedHeads c) (g (.shared c)) := by
    have hholds := hinv₁.holds (.shared c)
    rwa [hshared] at hholds
  have hdisj : ∀ b ∈ g (.shared c), b ∉ [a] := by
    intro b hb hmem
    rw [List.mem_singleton] at hmem
    rw [← hshared, hmem] at hb
    have heq := hinv₁.placed.disjoint hb ha
    simp at heq
  have hpushed : Chain m₂.next (some a) (a :: g (.shared c)) :=
    ⟨rfl, k.state.sharedHeads c, by simp [hnext₂], hframe₂.chain hold hdisj⟩
  refine ⟨_, hinv₁.exchangeShared (t := t) (c := c) .idle [] hframe₂ hpushed ?_ ?_ ?_ ?_ ?_
    (fun e he => he.elim) trivial rfl (by simp) |>.congr
    ⟨rfl, rfl, rfl, rfl, rfl, rfl, rfl, rfl, rfl, ?_, rfl, rfl, rfl⟩,
    (Foreign.live _ _).trans (Foreign.shared _ _ _)⟩
  · intro b hb
    have hmine : (k.reclaimed t m₁ c a).pc t = .hand ⟨.malloc, sizeClassCapacities c⟩ c a := by
      simp [Config.reclaimed]
    have hfree : FreeIn m₁ bases c b := by
      rcases List.mem_cons.mp hb with rfl | hb
      · exact hinv₁.free_of_inflight (by rw [hmine]; rfl) ha
      · exact hinv₁.free_of_shared (by rwa [hshared])
    exact hfree.congr hframe₂.slab (congrFun hsize₂ b)
  · rw [hshared, replace₂_right, List.append_nil]
    exact (List.perm_append_singleton a _).symm
  · intro b hb
    rw [List.mem_singleton.mp hb]
    exact Or.inr ha
  · simp only [Config.reclaimed, Config.goto_pc]
    exact ⟨rfl, by simp [Pc.argument], Iff.rfl⟩
  · simp only [Config.reclaimed, Config.goto_pc]
    rfl
  · simp [Config.reclaimed, Config.goto]

theorem createRegisteredSlab_none {s s' : State Tid} {capacity : Nat}
    (hcreate : createRegisteredSlab w s t c capacity = some (s', none)) :
    slabCreate w s t c capacity = (s', none) := by
  unfold createRegisteredSlab at hcreate
  split at hcreate
  · rename_i s₁ heq
    rw [heq, (Prod.mk.inj (Option.some.inj hcreate)).1]
  · obtain ⟨_, _, hcreate⟩ := Option.bind_eq_some_iff.mp hcreate
    obtain ⟨_, _, hcreate⟩ := Option.bind_eq_some_iff.mp hcreate
    simp at hcreate

theorem transferListFromChain_first {m : Memory} {p : Ptr} {list : TransferList}
    (hlist : transferListFromChain m p = some list) : list.first = p := by
  obtain ⟨_, _, heq⟩ := Option.bind_eq_some_iff.mp hlist
  rw [← Option.some.inj heq]

theorem createRegisteredSlab_some {s s' : State Tid} {capacity : Nat} {list : TransferList}
    (hcreate : createRegisteredSlab w s t c capacity = some (s', some list)) :
    ∃ s₁ slab, slabCreate w s t c capacity = (s₁, some (slab, list.first)) ∧
      registerSlab s₁ slab = some s' := by
  unfold createRegisteredSlab at hcreate
  split at hcreate
  · simp at hcreate
  · rename_i s₁ slab freeList heq
    obtain ⟨s₂, hregister, hcreate⟩ := Option.bind_eq_some_iff.mp hcreate
    obtain ⟨list', hlist, hcreate⟩ := Option.bind_eq_some_iff.mp hcreate
    obtain ⟨rfl, rfl⟩ : s₂ = s' ∧ list' = list := by simpa using hcreate
    exact ⟨s₁, slab, by rw [heq, transferListFromChain_first hlist], hregister⟩

end Hplf
