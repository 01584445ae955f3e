import HplfMalloc.Proof.Exchange

/-!
# Shared lists

The invariant through the actions on a shared list: a call detaches the whole list, or publishes blocks it
holds in front of it. The locked build pops one block or pushes one.
-/

namespace Hplf

open Lib Memory

variable {Tid : Type} [DecidableEq Tid]
variable {k : Config Tid} {t : Tid} {bases larges nodes : List Nat} {g : Place Tid → List Nat}
variable {c : ClassIndex} {pc : Pc}

theorem Pc.admits_of_free {m : Memory} {a : Nat} (hclass : pc.listClass = some c)
    (hfree : FreeIn m bases c a) : pc.Admits m bases larges a := by
  cases pc with
  | deliver => simp [Pc.listClass] at hclass
  | _ => exact ⟨c, hclass, hfree⟩

section

omit [DecidableEq Tid]

/-- A block held by a call that works on a list of class `c` is a free block of that class. -/
theorem Inv.free_of_inflight (hinv : Inv k bases larges g) (hclass : (k.pc t).listClass = some c)
    {a : Nat} (ha : a ∈ g (.inflight t)) : FreeIn k.state.memory bases c a := by
  have hadmits : (k.pc t).Admits k.state.memory bases larges a := hinv.admits _ a ha
  unfold Pc.Admits at hadmits
  split at hadmits
  · rename_i r b heq
    rw [heq] at hclass
    simp [Pc.listClass] at hclass
  · obtain ⟨e, he, hfree⟩ := hadmits
    obtain rfl := Option.some.inj (he.symm.trans hclass)
    exact hfree

theorem Inv.free_of_shared (hinv : Inv k bases larges g) {a : Nat} (ha : a ∈ g (.shared c)) :
    FreeIn k.state.memory bases c a :=
  hinv.admits (.shared c) a ha

theorem Inv.free_of_cache (hinv : Inv k bases larges g) {a : Nat} (ha : a ∈ g (.cache t c)) :
    FreeIn k.state.memory bases c a :=
  hinv.admits (.cache t c) a ha

end

/-- The invariant after a call rearranged its blocks and those of one shared list. -/
theorem Inv.exchangeShared (hinv : Inv k bases larges g) (pc : Pc) (zs : List Nat) {m : Memory}
    {head : Ptr} {ys : List Nat}
    (hframe : Framed nodes k.state.memory m) (hchain : Chain m.next head ys)
    (hfree : ∀ a ∈ ys, FreeIn m bases c a)
    (hperm : (ys ++ zs).Perm (g (.shared c) ++ g (.inflight t)))
    (hnodes : ∀ a ∈ nodes, a ∈ g (.shared c) ∨ a ∈ g (.inflight t))
    (hfollows : (k.pc t).Follows pc) (hevicting : pc.evicting = (k.pc t).evicting)
    (hemptied : ∀ e, pc.Emptied e → (k.pc t).Emptied e) (hfits : pc.Fits k.state t)
    (hcarries : pc.Carries m zs) (hadmits : ∀ a ∈ zs, pc.Admits m bases larges a) :
    Inv (k.goto t { k.state with
        memory := m
        sharedHeads := Function.update k.state.sharedHeads c head } pc) bases larges
      (replace₂ g (.shared c) (.inflight t) ys zs) := by
  have hlists : ListsOnly k.state { k.state with
      memory := m
      sharedHeads := Function.update k.state.sharedHeads c head } := ⟨_, _, _, _, rfl⟩
  have hstep : LocalStep k (k.goto t { k.state with
      memory := m
      sharedHeads := Function.update k.state.sharedHeads c head } pc) t nodes :=
    Config.goto_localStep rfl rfl rfl hframe hlists (fun _ _ => rfl) hfollows.teardown
  apply hinv.exchange (p := .shared c) hstep (hfollows.sameCall _) trivial hperm hnodes
  · intro q hshared hinflight
    refine hstep.sameHead hinv hinflight (fun _ => rfl) ?_ fun e _ => ?_
    · rintro e rfl
      have hne : e ≠ c := fun h => hshared (by rw [h])
      simp [hne]
    · exact ⟨hstep.cacheOf, fun d _ descriptor hmapped => ⟨descriptor, hmapped, rfl, rfl⟩⟩
  · intro a ha hdead
    exact absurd ha hdead
  · simpa [Holds] using hchain
  · simpa using hcarries
  · exact hfree
  · simpa using hadmits
  · intro e he
    rw [Config.goto_pc] at he
    rw [replace₂_of_ne (by simp) (by simp)]
    exact hinv.emptied t e (hemptied e he)
  · intro d hd
    rw [hstep.cacheOf] at hd
    obtain ⟨descriptor, hok⟩ := (hinv.thread t).descriptor d hd
    exact ⟨descriptor, hok.congr rfl rfl (by rw [Config.goto_pc, hevicting])⟩
  · rw [Config.goto_pc]
    exact hlists.fits hfits

/-- **Detach.** The call takes the whole shared list and describes it exactly. -/
theorem Inv.detach (hinv : Inv k bases larges g) (hempty : g (.inflight t) = []) (c : ClassIndex) :
    ∃ s list, transferMutexDetach k.state c = some (s, list) ∧ Quiet k s ∧
      list.Owns k.state.memory (g (.shared c)) ∧
      ∀ pc, (k.pc t).Follows pc → pc.evicting = (k.pc t).evicting → (∀ e, ¬ pc.Emptied e) →
        pc.Fits k.state t → pc.Carries k.state.memory (g (.shared c)) →
        (∀ a ∈ g (.shared c), pc.Admits k.state.memory bases larges a) →
        Inv (k.goto t s pc) bases larges
          (replace₂ g (.shared c) (.inflight t) [] (g (.shared c))) := by
  obtain ⟨list, hdetach, howns⟩ :=
    transferMutexDetach_of_chain (hinv.holds (.shared c)) (hinv.length_lt _).le
  refine ⟨_, list, hdetach, ⟨⟨_, _, _, _, rfl⟩, rfl, rfl, fun _ _ => rfl⟩, howns, ?_⟩
  intro pc hfollows hevicting hemptied hfits hcarries hadmits
  refine hinv.exchangeShared _ _ (Framed.refl [] _) rfl (by simp) ?_ (by simp) hfollows hevicting
    (fun e he => absurd he (hemptied e)) hfits hcarries hadmits
  rw [hempty]
  simp

/-- **Publish.** The described blocks go in front of the shared list, the others stay with the call. -/
theorem Inv.publish (hinv : Inv k bases larges g) {list : TransferList} {xs : List Nat} (zs : List Nat)
    (howns : list.Owns k.state.memory xs) (hperm : (xs ++ zs).Perm (g (.inflight t)))
    (hclass : (k.pc t).listClass = some c) :
    ∃ s, transferMutexPublish k.state c list = some s ∧ Quiet k s ∧
      Framed xs k.state.memory s.memory ∧
      ∀ pc, (k.pc t).Follows pc → pc.evicting = (k.pc t).evicting →
        (∀ e, pc.Emptied e → (k.pc t).Emptied e) → pc.Fits k.state t → pc.Carries s.memory zs →
        (∀ a ∈ zs, pc.Admits s.memory bases larges a) →
        Inv (k.goto t s pc) bases larges
          (replace₂ g (.shared c) (.inflight t) (xs ++ g (.shared c)) zs) := by
  have hmine : ∀ a ∈ xs, a ∈ g (.inflight t) := fun a ha =>
    hperm.mem_iff.mp (List.mem_append_left _ ha)
  have hdisj : ∀ a ∈ xs, a ∉ g (.shared c) := by
    intro a ha hshared
    have heq := hinv.placed.disjoint (hmine a ha) hshared
    simp at heq
  obtain ⟨m, hpublish, hframe, hsize, hchain⟩ :=
    transferMutexPublish_of_owns howns (hinv.holds (.shared c)) hdisj
  refine ⟨_, hpublish, Quiet.of_framed ⟨_, _, _, _, rfl⟩ hframe fun a ha =>
    hinv.not_live (by simp) (hmine a ha), hframe, ?_⟩
  intro pc hfollows hevicting hemptied hfits hcarries hadmits
  refine hinv.exchangeShared _ _ hframe hchain ?_ ?_ (fun a ha => Or.inr (hmine a ha)) hfollows
    hevicting hemptied hfits hcarries hadmits
  · intro a ha
    have hold : FreeIn k.state.memory bases c a := by
      rcases List.mem_append.mp ha with h | h
      · exact hinv.free_of_inflight hclass (hmine a h)
      · exact hinv.free_of_shared h
    exact hold.congr hframe.slab (congrFun hsize a)
  · have hswap : (xs ++ g (.shared c) ++ zs).Perm (g (.shared c) ++ (xs ++ zs)) := by
      rw [← List.append_assoc]
      exact List.perm_append_comm.append_right zs
    exact hswap.trans (hperm.append_left _)

/-- The invariant after a call wrote the fields of blocks it holds. -/
theorem Inv.rewrite (hinv : Inv k bases larges g) {m : Memory}
    (hframe : Framed nodes k.state.memory m) (hnodes : ∀ a ∈ nodes, a ∈ g (.inflight t))
    (hfollows : (k.pc t).Follows pc) (hevicting : pc.evicting = (k.pc t).evicting)
    (hemptied : ∀ e, pc.Emptied e → (k.pc t).Emptied e) (hfits : pc.Fits k.state t)
    (hcarries : pc.Carries m (g (.inflight t)))
    (hadmits : ∀ a ∈ g (.inflight t), pc.Admits m bases larges a) :
    Inv (k.goto t { k.state with memory := m } pc) bases larges g := by
  have hlists : ListsOnly k.state { k.state with memory := m } := ⟨_, _, _, _, rfl⟩
  have hstep : LocalStep k (k.goto t { k.state with memory := m } pc) t nodes :=
    Config.goto_localStep rfl rfl rfl hframe hlists (fun _ _ => rfl) hfollows.teardown
  refine hinv.local hstep (fun q => q = .inflight t) hinv.placed (fun _ => Iff.rfl)
    (fun a ha => ⟨_, rfl, hnodes a ha⟩) ?_ ?_ ?_ (by simp) ?_ ?_ ?_ ?_
    ((hfollows.sameCall _).inRegistry hinv)
  · intro q hq
    refine ⟨rfl, hstep.sameHead hinv hq (fun _ => rfl) (fun _ _ => rfl) fun e _ => ?_⟩
    exact ⟨hstep.cacheOf, fun d _ descriptor hmapped => ⟨descriptor, hmapped, rfl, rfl⟩⟩
  · rintro q rfl
    simp only [Holds, Admits, Config.goto_pc]
    exact ⟨hcarries, hadmits⟩
  · intro e he
    rw [Config.goto_pc] at he
    exact hinv.emptied t e (hemptied e he)
  · intro d hd
    rw [hstep.cacheOf] at hd
    obtain ⟨descriptor, hok⟩ := (hinv.thread t).descriptor d hd
    exact ⟨descriptor, hok.congr rfl rfl (by rw [Config.goto_pc, hevicting])⟩
  · rw [Config.goto_pc]
    exact hlists.fits hfits
  · intro a ha
    rw [Config.goto_pc] at ha
    exact hinv.argument_own (hfollows.argument a ha)
  · intro u _ a ha
    exact hinv.argument_live u a ha

end Hplf
