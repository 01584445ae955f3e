import HplfMalloc.TransferMutex
import HplfMalloc.Lib.Transition

/-!
# The lock-free transfer

`transfer_atomic.c`, one access to shared memory at a time: the relaxed load of a head, the write of the
private tail link, the weak compare-exchange, the exchange with `NULL`, and each read of a link by the
traversal that follows it. Between two actions of a thread the others may do anything, in one total order.
Between its calls a thread may rewrite the links of the blocks it owns as it likes, and it publishes
well-formed lists of such blocks.
-/

namespace Hplf.TransferAtomic

open Lib

inductive Pc
  | idle
  /-- In `hplf_transfer_atomic_publish`, before the load of the head. -/
  | load (c : ClassIndex) (list : TransferList)
  /-- Before `list->last->next_free = observed`. -/
  | link (c : ClassIndex) (list : TransferList) (observed : Ptr)
  | compareExchange (c : ClassIndex) (list : TransferList) (observed : Ptr)
  /-- In `hplf_transfer_atomic_detach`, before the exchange. -/
  | exchange (c : ClassIndex)
  /-- In the loop of `hplf_transfer_list_from_chain`, with its local variables. -/
  | traverse (first block last : Ptr) (count : Nat)
  deriving DecidableEq, Repr

/-- What an action did. -/
inductive Event (Tid : Type)
  | relink (t : Tid) (block : Nat) (target : Ptr)
  | callPublish (t : Tid) (c : ClassIndex) (list : TransferList)
  | callDetach (t : Tid) (c : ClassIndex)
  | load (t : Tid) (c : ClassIndex)
  | link (t : Tid) (block : Nat)
  /-- A failed compare-exchange; `spurious` if the head had the expected value. -/
  | failed (t : Tid) (c : ClassIndex) (spurious : Bool)
  | published (t : Tid) (c : ClassIndex) (list : TransferList)
  /-- An exchange; `nonempty` if it changed the value of the head. -/
  | detached (t : Tid) (c : ClassIndex) (nonempty : Bool)
  | read (t : Tid) (block : Nat)
  | returned (t : Tid) (list : TransferList)
  deriving DecidableEq, Repr

/-- The thread that acted. -/
def Event.actor {Tid : Type} : Event Tid → Tid
  | .relink t _ _ | .callPublish t _ _ | .callDetach t _ | .load t _ | .link t _ | .failed t _ _
  | .published t _ _ | .detached t _ _ | .read t _ | .returned t _ => t

/-- The block whose `next_free` was read or written. -/
def Event.accessed {Tid : Type} : Event Tid → Ptr
  | .relink _ block _ | .link _ block | .read _ block => some block
  | _ => none

/-- The actions nobody outside the call can tell from doing nothing. -/
def Event.visible {Tid : Type} (e : Event Tid) : Option (Event Tid) :=
  match e with
  | .load _ _ | .link _ _ | .failed _ _ _ | .read _ _ => none
  | _ => some e

structure Config (Tid : Type) where
  /-- `sharedHeads` are the values of `heads`. -/
  state : State Tid
  pc : Tid → Pc
  /-- The blocks a thread owns. No action reads this. -/
  own : Tid → List Nat

/-- The first `n` nodes on the way from `p`. -/
def nodes (m : Memory) : Nat → Ptr → List Nat
  | 0, _ => []
  | _ + 1, none => []
  | n + 1, some a => a :: nodes m n ((m.next a).getD none)

variable {Tid : Type} [DecidableEq Tid]

/-- Ownership after thread `t` has given up a list. -/
def giveUp (own : Tid → List Nat) (t : Tid) (list : List Nat) : Tid → List Nat :=
  Function.update own t ((own t).diff list)

/-- Ownership after thread `t` has obtained a list. -/
def obtained (own : Tid → List Nat) (t : Tid) (list : List Nat) : Tid → List Nat :=
  Function.update own t (list ++ own t)

def Config.goto (k : Config Tid) (t : Tid) (s : State Tid) (pc : Pc) : Config Tid :=
  { k with state := s, pc := Function.update k.pc t pc }

/-- The next action of thread `t`; `none` if it has none or faults. A compare-exchange may fail although
the head has the expected value. -/
def act (k : Config Tid) (t : Tid) (spurious : Bool) : Option (Event Tid × Config Tid) :=
  let s := k.state
  match k.pc t with
  | .idle => none
  | .load c list => some (.load t c, k.goto t s (.link c list (s.sharedHeads c)))
  | .link c list observed => do
      let last ← list.last
      let m ← s.memory.setNextFree last observed
      some (.link t last, k.goto t { s with memory := m } (.compareExchange c list observed))
  | .compareExchange c list observed =>
      if s.sharedHeads c = observed ∧ spurious = false then
        some (.published t c list,
          { k.goto t { s with sharedHeads := Function.update s.sharedHeads c list.first } .idle with
            own := giveUp k.own t (nodes s.memory list.count list.first) })
      else
        some (.failed t c (s.sharedHeads c = observed), k.goto t s (.link c list (s.sharedHeads c)))
  | .exchange c =>
      let first := s.sharedHeads c
      some (.detached t c first.isSome,
        { k.goto t { s with sharedHeads := Function.update s.sharedHeads c none }
            (.traverse first first none 0) with
          own := obtained k.own t (nodes s.memory addressSpace first) })
  | .traverse first (some block) _ count => do
      let next ← s.memory.next block
      some (.read t block, k.goto t s (.traverse first next (some block) (count + 1)))
  | .traverse first none last count =>
      some (.returned t { first, last, count }, k.goto t s .idle)

/-- The address a publish has copied from the head. -/
def Pc.observed : Pc → Ptr
  | .link _ _ observed | .compareExchange _ _ observed => observed
  | _ => none

/-- A list of blocks thread `t` owns, as a caller may pass it. -/
structure MayPublish (m : Memory) (own : List Nat) (list : TransferList) (xs : List Nat) : Prop where
  chain : Chain m.next list.first xs
  last : list.last = xs.getLast?
  count : list.count = xs.length
  owned : xs ⊆ own

/-- The start of a publish: an empty list returns at once. -/
def startPublish (c : ClassIndex) (list : TransferList) : Pc :=
  if list.first = none then .idle else .load c list

inductive Step : Config Tid → Event Tid → Config Tid → Prop
  | relink {k : Config Tid} {t : Tid} {block : Nat} {target : Ptr} {m : Memory}
      (hidle : k.pc t = .idle) (hown : block ∈ k.own t)
      (hwrite : k.state.memory.setNextFree block target = some m) :
      Step k (.relink t block target) { k with state := { k.state with memory := m } }
  | callPublish {k : Config Tid} {t : Tid} {c : ClassIndex} {list : TransferList} {xs : List Nat}
      (hidle : k.pc t = .idle) (hlist : MayPublish k.state.memory (k.own t) list xs) :
      Step k (.callPublish t c list) (k.goto t k.state (startPublish c list))
  | callDetach {k : Config Tid} {t : Tid} {c : ClassIndex} (hidle : k.pc t = .idle) :
      Step k (.callDetach t c) (k.goto t k.state (.exchange c))
  | act {k k' : Config Tid} {t : Tid} {spurious : Bool} {e : Event Tid}
      (hact : act k t spurious = some (e, k')) : Step k e k'

/-- Nothing is shared yet, and every block in use has one owner. -/
structure Initial (s : State Tid) (own : Tid → List Nat) : Prop where
  heads : ∀ c, s.sharedHeads c = none
  nodup : ∀ t, (own t).Nodup
  disjoint : ∀ t u a, a ∈ own t → a ∈ own u → t = u
  block : ∀ t, ∀ a ∈ own t, (0 < a ∧ a < addressSpace) ∧ ∃ q, s.memory.next a = some q

/-- The machine with every action observed. -/
def history (Tid : Type) [DecidableEq Tid] : System (Config Tid) (Event Tid) where
  init k := Initial k.state k.own ∧ ∀ t, k.pc t = .idle
  step k e k' := ∃ event, e = some event ∧ Step k event k'

/-- The machine with the visible actions observed. -/
def machine (Tid : Type) [DecidableEq Tid] : System (Config Tid) (Event Tid) where
  init k := Initial k.state k.own ∧ ∀ t, k.pc t = .idle
  step k e k' := ∃ event, e = event.visible ∧ Step k event k'

/-- Two threads that own a block each, before any call. -/
def twoOwners : Config (Fin 2) where
  state := { State.initial with
    memory := { Memory.empty with
      block := fun a => if a = 4096 ∨ a = 8192 then some ⟨.small 0, none, 0, 0, .small⟩ else none } }
  pc _ := .idle
  own t := if t = 0 then [4096] else [8192]

theorem twoOwners_initial : Initial twoOwners.state twoOwners.own where
  heads _ := rfl
  nodup := by decide
  disjoint t u a ht hu := by
    have hcheck : ∀ t u : Fin 2, ∀ a ∈ twoOwners.own t, a ∈ twoOwners.own u → t = u := by decide
    exact hcheck t u a ht hu
  block t a ha := by
    have hcheck : ∀ t : Fin 2, ∀ a ∈ twoOwners.own t,
        (0 < a ∧ a < addressSpace) ∧ (twoOwners.state.memory.next a).isSome = true := by decide
    exact ⟨(hcheck t a ha).1, Option.isSome_iff_exists.mp (hcheck t a ha).2⟩

def single (a : Nat) : TransferList := ⟨some a, some a, 1⟩

def firstClass : ClassIndex := ⟨0, sizeClassCount_pos⟩

/-- A thread publishes the one block it owns. -/
theorem Step.publish_single {k : Config Tid} {t : Tid} {a : Nat} (c : ClassIndex) (hidle : k.pc t = .idle)
    (hown : k.own t = [a]) (hnext : k.state.memory.next a = some none) :
    Step k (.callPublish t c (single a)) (k.goto t k.state (.load c (single a))) := by
  have hlist : MayPublish k.state.memory (k.own t) (single a) [a] := by
    rw [hown]
    exact ⟨⟨rfl, none, hnext, rfl⟩, rfl, rfl, List.Subset.refl [a]⟩
  exact .callPublish hidle hlist

end Hplf.TransferAtomic
