import HplfMalloc.Slab

/-!
# The mutex transfer

`transfer_mutex.c`: publishing prepends a private list to the chain of its class, detaching takes the
whole chain. Each runs under one mutex and is atomic; the traversal that follows a detach touches only
blocks the detaching thread owns.
-/

namespace Hplf

variable {Tid : Type}

def transferMutexPublish (s : State Tid) (classIndex : ClassIndex) (list : TransferList) :
    Option (State Tid) :=
  match list.first with
  | none => some s
  | some first => do
      let last ← list.last
      let m ← s.memory.setNextFree last (s.sharedHeads classIndex)
      some { s with
        memory := m
        sharedHeads := Function.update s.sharedHeads classIndex (some first) }

def transferMutexDetach (s : State Tid) (classIndex : ClassIndex) :
    Option (State Tid × TransferList) := do
  let first := s.sharedHeads classIndex
  let s := { s with sharedHeads := Function.update s.sharedHeads classIndex none }
  let list ← transferListFromChain s.memory first
  some (s, list)

end Hplf
