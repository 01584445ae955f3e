import HplfMalloc.TransferAtomic

/-!
# What one action of the lock-free transfer can do

`Action` lists the ways in which the next action of a thread can go; every action is one of these.
-/

namespace Hplf.TransferAtomic

variable {Tid : Type} [DecidableEq Tid]

inductive Action (k : Config Tid) (t : Tid) : Event Tid → Config Tid → Prop
  | loaded {c : ClassIndex} {list : TransferList} (hpc : k.pc t = .load c list) :
      Action k t (.load t c) (k.goto t k.state (.link c list (k.state.sharedHeads c)))
  | linked {c : ClassIndex} {list : TransferList} {observed : Ptr} {last : Nat} {m : Memory}
      (hpc : k.pc t = .link c list observed) (hlast : list.last = some last)
      (hwrite : k.state.memory.setNextFree last observed = some m) :
      Action k t (.link t last)
        (k.goto t { k.state with memory := m } (.compareExchange c list observed))
  | published {c : ClassIndex} {list : TransferList} {observed : Ptr}
      (hpc : k.pc t = .compareExchange c list observed) (hhead : k.state.sharedHeads c = observed) :
      Action k t (.published t c list)
        { k.goto t { k.state with
            sharedHeads := Function.update k.state.sharedHeads c list.first } .idle with
          own := giveUp k.own t (nodes k.state.memory list.count list.first) }
  | failed {c : ClassIndex} {list : TransferList} {observed : Ptr}
      (hpc : k.pc t = .compareExchange c list observed) :
      Action k t (.failed t c (k.state.sharedHeads c = observed))
        (k.goto t k.state (.link c list (k.state.sharedHeads c)))
  | exchanged {c : ClassIndex} (hpc : k.pc t = .exchange c) :
      Action k t (.detached t c (k.state.sharedHeads c).isSome)
        { k.goto t { k.state with sharedHeads := Function.update k.state.sharedHeads c none }
            (.traverse (k.state.sharedHeads c) (k.state.sharedHeads c) none 0) with
          own := obtained k.own t (nodes k.state.memory addressSpace (k.state.sharedHeads c)) }
  | read {first last next : Ptr} {block count : Nat}
      (hpc : k.pc t = .traverse first (some block) last count)
      (hnext : k.state.memory.next block = some next) :
      Action k t (.read t block) (k.goto t k.state (.traverse first next (some block) (count + 1)))
  | returned {first last : Ptr} {count : Nat} (hpc : k.pc t = .traverse first none last count) :
      Action k t (.returned t { first, last, count }) (k.goto t k.state .idle)

variable {k k' : Config Tid} {t u : Tid} {e : Event Tid}

/-- **Inversion.** Every action is one of these. -/
theorem action_of_act {spurious : Bool} (hact : act k t spurious = some (e, k')) : Action k t e k' := by
  unfold act at hact
  dsimp only at hact
  split at hact
  · cases hact
  · rename_i c list hpc
    obtain ⟨rfl, rfl⟩ := Prod.mk.inj (Option.some.inj hact)
    exact .loaded hpc
  · rename_i c list observed hpc
    obtain ⟨last, hlast, h⟩ := Option.bind_eq_some_iff.mp hact
    obtain ⟨m, hwrite, h⟩ := Option.bind_eq_some_iff.mp h
    obtain ⟨rfl, rfl⟩ := Prod.mk.inj (Option.some.inj h)
    exact .linked hpc hlast hwrite
  · rename_i c list observed hpc
    split at hact
    · rename_i hhead
      obtain ⟨rfl, rfl⟩ := Prod.mk.inj (Option.some.inj hact)
      exact .published hpc hhead.1
    · obtain ⟨rfl, rfl⟩ := Prod.mk.inj (Option.some.inj hact)
      exact .failed hpc
  · rename_i c hpc
    obtain ⟨rfl, rfl⟩ := Prod.mk.inj (Option.some.inj hact)
    exact .exchanged hpc
  · rename_i first block last count hpc
    obtain ⟨next, hnext, h⟩ := Option.bind_eq_some_iff.mp hact
    obtain ⟨rfl, rfl⟩ := Prod.mk.inj (Option.some.inj h)
    exact .read hpc hnext
  · rename_i first last count hpc
    obtain ⟨rfl, rfl⟩ := Prod.mk.inj (Option.some.inj hact)
    exact .returned hpc

theorem Config.goto_pc (k : Config Tid) (t : Tid) (s : State Tid) (pc : Pc) :
    (k.goto t s pc).pc t = pc :=
  Function.update_self _ _ _

theorem Config.goto_pc_of_ne (hne : t ≠ u) (s : State Tid) (pc : Pc) :
    (k.goto u s pc).pc t = k.pc t :=
  Function.update_of_ne hne _ _

/-- An action changes no other program counter. -/
theorem Action.pc_of_ne (haction : Action k u e k') (hne : t ≠ u) : k'.pc t = k.pc t := by
  cases haction <;> exact Function.update_of_ne hne _ _

end Hplf.TransferAtomic
