import HplfMalloc.Memory

/-!
# Transfer lists

`struct hplf_transfer_list` and its two operations, over the storage the nodes live in. The loops of the
source become structural recursions: a traversal to the null link is bounded by the address space, and
the counted walk of `hplf_transfer_list_take_prefix` by its counter, which is decremented before it is
tested and so wraps on a zero count.
-/

namespace Hplf

structure TransferList where
  first : Ptr
  last : Ptr
  count : Nat
  deriving DecidableEq, Repr

/-- `hplf_transfer_list_clear`. -/
def TransferList.clear : TransferList := ⟨none, none, 0⟩

/-- The loop of `hplf_transfer_list_from_chain`; `none` is a fault or a cycle. -/
def fromChainLoop (m : Memory) : Nat → Ptr → Ptr → Nat → Option (Ptr × Nat)
  | _, none, last, count => some (last, count)
  | 0, some _, _, _ => none
  | fuel + 1, some block, _, count => do
      let next ← m.next block
      fromChainLoop m fuel next (some block) (count + 1)

def transferListFromChain (m : Memory) (first : Ptr) : Option TransferList := do
  let (last, count) ← fromChainLoop m addressSpace first none 0
  some { first, last, count }

/-- `last = last->next_free`, `steps` times; the last node reached is dereferenced by the caller, so
arriving at `NULL` is a fault in any case. -/
def prefixLast (m : Memory) : Nat → Nat → Option Nat
  | 0, last => some last
  | steps + 1, last => do
      let next ← m.next last
      let node ← next
      prefixLast m steps node

/-- Returns the storage, the shortened source and the output. -/
def transferListTakePrefix (m : Memory) (source : TransferList) (maximumCount : Nat) :
    Option (Memory × TransferList × TransferList) :=
  match source.first with
  | none => some (m, source, .clear)
  | some first =>
      if maximumCount = 0 then
        some (m, source, .clear)
      else do
        let taken := if source.count < maximumCount then source.count else maximumCount
        let last ← prefixLast m (sizeSub taken 1) first
        let rest ← m.next last
        let m ← m.setNextFree last none
        let source := { source with
          first := rest
          last := if rest = none then none else source.last
          count := source.count - taken }
        some (m, source, { first := some first, last := some last, count := taken })

end Hplf
