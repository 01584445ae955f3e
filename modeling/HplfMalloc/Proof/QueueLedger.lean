import HplfMalloc.Lib.Custody
import HplfMalloc.Proof.QueueTransitions
import Mathlib.Data.Multiset.Range
import Mathlib.Tactic.Abel

/-!
# The ledger of the queue benchmark

Who holds which block, and which entries of the traces have been pushed, are in the queue, are in a consumer's hands
or were consumed. There is one lemma for each way an item goes on.
-/

namespace Hplf.Queue

open Lib Hplf.Bench
open Hplf.Pool (mix64)
open scoped BigOperators

/-! ### Blocks -/

def QueueItem.block (item : QueueItem) : Multiset Nat :=
  match item.pointer with
  | some pointer => {pointer}
  | none => 0

/-- The item in a worker's hands. -/
def Worker.item : Worker → Option QueueItem
  | .fill item | .push item _ | .refuse item | .check item | .release item _ => some item
  | _ => none

def Worker.block (worker : Worker) : Multiset Nat :=
  match worker.item with
  | some item => item.block
  | none => 0

/-- Without the wait it may be in. -/
def Worker.calm : Worker → Worker
  | .push item _ => .push item .fresh
  | .pop _ => .pop .fresh
  | worker => worker

variable {config : BenchmarkConfig}

/-- An item with a block that can be filled in. -/
def Raw (config : BenchmarkConfig) (store : Nat → Option Block) (item : QueueItem) : Prop :=
  config.workload = .handoff ∧ ∃ pointer block, item.pointer = some pointer ∧ store pointer = some block ∧
    item.size ≤ block.size

/-- An item that a consumer will find as it was produced. -/
def Sealed (config : BenchmarkConfig) (store : Nat → Option Block) (item : QueueItem) : Prop :=
  (config.workload ≠ .handoff ∧ item.pointer = none) ∨
    config.workload = .handoff ∧ ∃ pointer block, item.pointer = some pointer ∧ store pointer = some block ∧
      item.size ≤ block.size ∧ Filled block.bytes item.size item.key

theorem Raw.congr {store store' : Nat → Option Block} {item : QueueItem} (h : Raw config store item)
    (hsame : ∀ pointer ∈ item.block, store' pointer = store pointer) : Raw config store' item := by
  obtain ⟨hhandoff, pointer, block, hpointer, hblock, hsize⟩ := h
  refine ⟨hhandoff, pointer, block, hpointer, ?_, hsize⟩
  rw [hsame pointer (by rw [QueueItem.block, hpointer]; exact Multiset.mem_singleton_self _), hblock]

theorem Sealed.congr {store store' : Nat → Option Block} {item : QueueItem} (h : Sealed config store item)
    (hsame : ∀ pointer ∈ item.block, store' pointer = store pointer) : Sealed config store' item := by
  rcases h with hplain | ⟨hhandoff, pointer, block, hpointer, hblock, hsize, hfilled⟩
  · exact .inl hplain
  · refine .inr ⟨hhandoff, pointer, block, hpointer, ?_, hsize, hfilled⟩
    rw [hsame pointer (by rw [QueueItem.block, hpointer]; exact Multiset.mem_singleton_self _), hblock]

theorem access_eq_some {store : Nat → Option Block} {item : QueueItem} {pointer : Nat} {block : Block}
    (haccess : State.access store item = some (pointer, block)) :
    item.pointer = some pointer ∧ store pointer = some block ∧ item.size ≤ block.size := by
  unfold State.access at haccess
  cases hpointer : item.pointer with
  | none => simp [hpointer] at haccess
  | some found =>
      simp only [hpointer] at haccess
      cases hblock : store found with
      | none => simp [hblock] at haccess
      | some contents =>
          simp only [hblock] at haccess
          split at haccess
          next hsize =>
            cases Option.some.inj haccess
            exact ⟨rfl, hblock, hsize⟩
          next => cases haccess

theorem access_isSome {store : Nat → Option Block} {item : QueueItem} {pointer : Nat} {block : Block}
    (hpointer : item.pointer = some pointer) (hblock : store pointer = some block) (hsize : item.size ≤ block.size) :
    State.access store item = some (pointer, block) := by
  simp only [State.access, hpointer, hblock, if_pos hsize]

/-- A sealed item passes the check. -/
theorem Sealed.payloadCheck_eq {store : Nat → Option Block} {item : QueueItem} {pointer : Nat} {block : Block}
    (h : Sealed config store item) (haccess : State.access store item = some (pointer, block)) :
    config.workload = .handoff ∧ payloadCheck block.bytes item.size item.key
      = some (payloadChecksum item.size item.key) := by
  obtain ⟨hpointer, hblock, -⟩ := access_eq_some haccess
  rcases h with ⟨-, hnone⟩ | ⟨hhandoff, pointer', block', hpointer', hblock', -, hfilled⟩
  · rw [hpointer] at hnone
    cases hnone
  · cases Option.some.inj (hpointer.symm.trans hpointer')
    cases Option.some.inj (hblock.symm.trans hblock')
    exact ⟨hhandoff, payloadCheck_eq_of_filled hfilled⟩

/-- What is known of a worker where it is. -/
def Worker.At (config : BenchmarkConfig) (store : Nat → Option Block) (failed producer : Bool) : Worker → Prop
  | .idle | .testFailed | .finish | .reportFailure => True
  | .produce | .refuse _ | .readClock | .producerDone => producer = true
  | .fill item => producer = true ∧ Raw config store item
  | .push item _ => producer = true ∧ Sealed config store item
  | .testLoop | .abort => producer = true ∧ config.threads ≠ 1
  | .abortBroadcast => producer = true ∧ config.threads ≠ 1 ∧ failed = true
  | .pop _ => producer = true → config.threads = 1
  | .check item => (producer = true → config.threads = 1) ∧ Sealed config store item
  | .release _ valid => (producer = true → config.threads = 1) ∧ valid = true ∧ config.workload = .handoff
  | .readEnd => producer = false
  | .fault => False

theorem Worker.block_calm (worker : Worker) : worker.calm.block = worker.block := by
  cases worker <;> rfl

theorem Worker.at_calm {store : Nat → Option Block} {failed producer : Bool} (worker : Worker) :
    worker.calm.At config store failed producer ↔ worker.At config store failed producer := by
  cases worker <;> rfl

theorem Worker.At.congr {store store' : Nat → Option Block} {failed failed' producer : Bool} {worker : Worker}
    (h : worker.At config store failed producer) (hsame : ∀ pointer ∈ worker.block, store' pointer = store pointer)
    (hfailed : failed = true → failed' = true) : worker.At config store' failed' producer := by
  cases worker with
  | fill item => exact ⟨h.1, h.2.congr hsame⟩
  | push item turn => exact ⟨h.1, h.2.congr hsame⟩
  | abortBroadcast => exact ⟨h.1, h.2.1, hfailed h.2.2⟩
  | check item => exact ⟨h.1, h.2.congr hsame⟩
  | _ => exact h

/-- All blocks in the queue and in the hands of the workers. -/
def owned {threads : Nat} (contents : List QueueItem) (worker : Fin threads → Worker) : Multiset Nat :=
  (contents.map QueueItem.block).sum + ∑ i, (worker i).block

section Owned

variable {threads : Nat} {contents : List QueueItem} {worker worker' : Fin threads → Worker} {i : Fin threads}

theorem owned_calm (hcalm : ∀ j, (worker' j).calm = (worker j).calm) :
    owned contents worker' = owned contents worker := by
  unfold owned
  congr 1
  refine Finset.sum_congr rfl fun j _ => ?_
  rw [← Worker.block_calm, hcalm, Worker.block_calm]

theorem mem_owned_worker {pointer : Nat} (hmem : pointer ∈ (worker i).block) : pointer ∈ owned contents worker :=
  Multiset.mem_add.mpr (.inr (mem_total (f := fun j => (worker j).block) hmem))

theorem block_le_sum {item : QueueItem} (hitem : item ∈ contents) :
    item.block ≤ (contents.map QueueItem.block).sum :=
  List.le_sum_of_mem (List.mem_map_of_mem hitem)

theorem mem_owned_queue {item : QueueItem} {pointer : Nat} (hitem : item ∈ contents) (hmem : pointer ∈ item.block) :
    pointer ∈ owned contents worker :=
  Multiset.mem_add.mpr (.inl (Multiset.mem_of_le (block_le_sum hitem) hmem))

/-- A worker passes on what it had, or takes something over. -/
theorem owned_update (contents : List QueueItem) (worker : Fin threads → Worker) (i : Fin threads) (next : Worker) :
    owned contents (Function.update worker i next) + (worker i).block = owned contents worker + next.block := by
  have hswap := sum_measure_swap (fun _ : Fin threads => Worker.block) (f := worker) (i := i) (x := next)
  rw [owned, owned, add_assoc, hswap, ← add_assoc]

variable {β : Type*} {store : Nat → Option β}

theorem worker_disjoint_queue (h : Custody (owned contents worker) store) {item : QueueItem} (hitem : item ∈ contents)
    {pointer : Nat} (hmem : pointer ∈ (worker i).block) : pointer ∉ item.block := by
  intro hmem'
  have hparts := (Multiset.nodup_add.mp h.nodup).2.2
  exact Multiset.disjoint_left.mp hparts (Multiset.mem_of_le (block_le_sum hitem) hmem')
    (mem_total (f := fun j => (worker j).block) hmem)

theorem worker_disjoint (h : Custody (owned contents worker) store) {j : Fin threads} (hne : j ≠ i) {pointer : Nat}
    (hmem : pointer ∈ (worker i).block) : pointer ∉ (worker j).block := by
  intro hmem'
  exact hne (eq_of_mem_shares (Multiset.nodup_add.mp h.nodup).2.1 hmem' hmem)

end Owned

/-- Each live block is held once, and each item that is held is as it should be where it is. -/
structure Possession (config : BenchmarkConfig) (σ : State config.threads) : Prop where
  fits : σ.queue.Fits
  custody : Custody (owned σ.queue.contents σ.worker) σ.store
  queued : ∀ item ∈ σ.queue.contents, Sealed config σ.store item
  worker : ∀ i, (σ.worker i).At config σ.store σ.failed (isProducer i)

section Moves

variable {σ τ : State config.threads} {i : Fin config.threads} {w : Worker}

/-- One worker acts, and leaves the blocks of the others alone. -/
theorem Possession.act (h : Possession config σ)
    (hworker : ∀ j, (τ.worker j).calm = (Function.update σ.worker i w j).calm)
    (hfailed : σ.failed = true → τ.failed = true) (hfits : τ.queue.Fits)
    (hcustody : Custody (owned τ.queue.contents (Function.update σ.worker i w)) τ.store)
    (hqueued : ∀ item ∈ τ.queue.contents, Sealed config τ.store item)
    (hat : w.At config τ.store τ.failed (isProducer i))
    (hframe : ∀ j, j ≠ i → ∀ pointer ∈ (σ.worker j).block, τ.store pointer = σ.store pointer) :
    Possession config τ where
  fits := hfits
  custody := hcustody.transfer (owned_calm hworker)
  queued := hqueued
  worker j := by
    rw [← Worker.at_calm, hworker, Worker.at_calm]
    by_cases hj : j = i
    · subst hj
      rwa [Function.update_self]
    · rw [Function.update_of_ne hj]
      exact (h.worker j).congr (hframe j hj) hfailed

/-- A worker goes on with the blocks it has. -/
theorem Possession.move (h : Possession config σ)
    (hworker : ∀ j, (τ.worker j).calm = (Function.update σ.worker i w j).calm)
    (hfailed : σ.failed = true → τ.failed = true) (hstore : τ.store = σ.store) (hqueue : τ.queue = σ.queue)
    (hblock : w.block = (σ.worker i).block) (hat : w.At config σ.store τ.failed (isProducer i)) :
    Possession config τ := by
  refine h.act hworker hfailed (hqueue ▸ h.fits) ?_ ?_ (by rwa [hstore]) (fun _ _ _ _ => by rw [hstore])
  · rw [hqueue, hstore]
    apply h.custody.transfer
    have hupdate := owned_update σ.queue.contents σ.worker i w
    rw [hblock] at hupdate
    exact add_right_cancel hupdate
  · rw [hqueue, hstore]
    exact h.queued

/-- A worker without a block takes a new one. -/
theorem Possession.gain (h : Possession config σ) {pointer : Nat} {block : Block}
    (hworker : ∀ j, (τ.worker j).calm = (Function.update σ.worker i w j).calm)
    (hfailed : σ.failed = true → τ.failed = true)
    (hstore : τ.store = Function.update σ.store pointer (some block)) (hqueue : τ.queue = σ.queue)
    (hfresh : σ.store pointer = none) (hnone : (σ.worker i).block = 0) (hblock : w.block = {pointer})
    (hat : w.At config τ.store τ.failed (isProducer i)) : Possession config τ := by
  have hnotMem : pointer ∉ owned σ.queue.contents σ.worker := h.custody.notMem_of_none hfresh
  have hsame (other : Nat) (hmem : other ∈ owned σ.queue.contents σ.worker) : τ.store other = σ.store other := by
    rw [hstore]
    exact Custody.update_outside hnotMem hmem
  refine h.act hworker hfailed (hqueue ▸ h.fits) ?_ ?_ hat fun j _ other hmem => hsame other (mem_owned_worker hmem)
  · rw [hqueue, hstore]
    apply h.custody.gain block hfresh
    have hupdate := owned_update σ.queue.contents σ.worker i w
    rw [hnone, hblock, add_zero, add_comm] at hupdate
    exact hupdate
  · intro item hitem
    rw [hqueue] at hitem
    exact (h.queued item hitem).congr fun other hmem => hsame other (mem_owned_queue hitem hmem)

/-- A worker writes into its block. -/
theorem Possession.write (h : Possession config σ) {pointer : Nat} {block : Block}
    (hworker : ∀ j, (τ.worker j).calm = (Function.update σ.worker i w j).calm)
    (hfailed : σ.failed = true → τ.failed = true)
    (hstore : τ.store = Function.update σ.store pointer (some block)) (hqueue : τ.queue = σ.queue)
    (hbefore : (σ.worker i).block = {pointer}) (hafter : w.block = {pointer})
    (hat : w.At config τ.store τ.failed (isProducer i)) : Possession config τ := by
  have hmem : pointer ∈ (σ.worker i).block := hbefore ▸ Multiset.mem_singleton_self _
  refine h.act hworker hfailed (hqueue ▸ h.fits) ?_ ?_ hat fun j hj other hother => ?_
  · rw [hqueue, hstore]
    have howned : owned σ.queue.contents (Function.update σ.worker i w) = owned σ.queue.contents σ.worker := by
      have hupdate := owned_update σ.queue.contents σ.worker i w
      rw [hbefore, hafter] at hupdate
      exact add_right_cancel hupdate
    rw [howned]
    exact h.custody.write block (mem_owned_worker hmem)
  · intro item hitem
    rw [hqueue] at hitem
    refine (h.queued item hitem).congr fun other hother => ?_
    rw [hstore]
    exact Custody.update_outside (worker_disjoint_queue h.custody hitem hmem) hother
  · rw [hstore]
    exact Custody.update_outside (worker_disjoint h.custody hj hmem) hother

/-- A worker gives its block back. -/
theorem Possession.lose (h : Possession config σ) {item : QueueItem} {store : Nat → Option Block}
    (hworker : ∀ j, (τ.worker j).calm = (Function.update σ.worker i w j).calm)
    (hfailed : σ.failed = true → τ.failed = true)
    (hdeallocate : State.deallocate σ.store item.pointer = some store) (hstore : τ.store = store)
    (hqueue : τ.queue = σ.queue) (hbefore : (σ.worker i).block = item.block) (hafter : w.block = 0)
    (hat : w.At config τ.store τ.failed (isProducer i)) : Possession config τ := by
  subst hstore
  cases hpointer : item.pointer with
  | none =>
      rw [hpointer] at hdeallocate
      have hstore : τ.store = σ.store := (Option.some.inj hdeallocate).symm
      rw [hstore] at hat
      refine h.move hworker hfailed hstore hqueue ?_ hat
      rw [hafter, hbefore, QueueItem.block, hpointer]
  | some pointer =>
      rw [hpointer, State.deallocate] at hdeallocate
      split at hdeallocate
      next hlive =>
        have hstore : τ.store = Function.update σ.store pointer none := (Option.some.inj hdeallocate).symm
        have hsingle : (σ.worker i).block = {pointer} := by rw [hbefore, QueueItem.block, hpointer]
        have hmem : pointer ∈ (σ.worker i).block := hsingle ▸ Multiset.mem_singleton_self _
        refine h.act hworker hfailed (hqueue ▸ h.fits) ?_ ?_ hat fun j hj other hother => ?_
        · rw [hqueue, hstore]
          apply h.custody.lose
          have hupdate := owned_update σ.queue.contents σ.worker i w
          rw [hsingle, hafter, add_zero, add_comm] at hupdate
          exact hupdate.symm
        · intro other hother
          rw [hqueue] at hother
          refine (h.queued other hother).congr fun pointer' hmem' => ?_
          rw [hstore]
          exact Custody.update_outside (worker_disjoint_queue h.custody hother hmem) hmem'
        · rw [hstore]
          exact Custody.update_outside (worker_disjoint h.custody hj hmem) hother
      next => cases hdeallocate

/-- A worker puts its item into the queue. -/
theorem Possession.put (h : Possession config σ) {item : QueueItem}
    (hworker : ∀ j, (τ.worker j).calm = (Function.update σ.worker i w j).calm)
    (hfailed : σ.failed = true → τ.failed = true) (hstore : τ.store = σ.store)
    (hqueue : τ.queue = σ.queue.push item) (hroom : σ.queue.count ≠ σ.queue.capacity)
    (hbefore : (σ.worker i).block = item.block) (hsealed : Sealed config σ.store item) (hafter : w.block = 0)
    (hat : w.At config σ.store τ.failed (isProducer i)) : Possession config τ := by
  have hlt : σ.queue.count < σ.queue.capacity := lt_of_le_of_ne h.fits.count_le hroom
  have hcontents : τ.queue.contents = σ.queue.contents ++ [item] := by
    rw [hqueue, RingBuffer.contents_push h.fits hlt]
  refine h.act hworker hfailed (hqueue ▸ h.fits.push hlt item) ?_ ?_ (by rwa [hstore]) (fun _ _ _ _ => by rw [hstore])
  · rw [hcontents, hstore]
    apply h.custody.transfer
    have hupdate := owned_update σ.queue.contents σ.worker i w
    rw [hbefore, hafter, add_zero] at hupdate
    rw [← hupdate, owned, owned, List.map_append, List.sum_append, List.map_cons, List.map_nil, List.sum_cons,
      List.sum_nil, add_zero]
    abel
  · rw [hcontents, hstore]
    intro other hother
    rcases List.mem_append.mp hother with hold | hnew
    · exact h.queued other hold
    · exact List.mem_singleton.mp hnew ▸ hsealed

/-- A worker takes the front of the queue. -/
theorem Possession.take (h : Possession config σ)
    (hworker : ∀ j, (τ.worker j).calm = (Function.update σ.worker i w j).calm)
    (hfailed : σ.failed = true → τ.failed = true) (hstore : τ.store = σ.store)
    (hqueue : τ.queue = σ.queue.pop) (hcount : σ.queue.count ≠ 0) (hbefore : (σ.worker i).block = 0)
    (hafter : w.block = σ.queue.front.block) (hat : w.At config σ.store τ.failed (isProducer i)) :
    Possession config τ := by
  have hcontents : σ.queue.contents = σ.queue.front :: τ.queue.contents := by
    rw [hqueue, ← RingBuffer.contents_pop h.fits hcount]
  refine h.act hworker hfailed (hqueue ▸ h.fits.pop) ?_ ?_ (by rwa [hstore]) (fun _ _ _ _ => by rw [hstore])
  · rw [hstore]
    apply h.custody.transfer
    have hupdate := owned_update τ.queue.contents σ.worker i w
    rw [hbefore, hafter, add_zero] at hupdate
    rw [hupdate, owned, owned, hcontents, List.map_cons, List.sum_cons]
    abel
  · rw [hstore]
    intro item hitem
    exact h.queued item (hcontents ▸ List.mem_cons_of_mem _ hitem)

theorem Possession.front_sealed (h : Possession config σ) (hcount : σ.queue.count ≠ 0) :
    Sealed config σ.store σ.queue.front := by
  apply h.queued
  rw [RingBuffer.contents_pop h.fits hcount]
  exact List.mem_cons_self

/-- What is known of a worker by where it is. -/
theorem Possession.known (h : Possession config σ) {worker : Worker} (hpc : σ.worker i = worker) :
    worker.At config σ.store σ.failed (isProducer i) :=
  hpc ▸ h.worker i

/-- No payload check fails. -/
theorem Possession.payloadCheck_ne_none (h : Possession config σ) {item : QueueItem} {pointer : Nat} {block : Block}
    (hpc : σ.worker i = .check item) (haccess : State.access σ.store item = some (pointer, block)) :
    payloadCheck block.bytes item.size item.key ≠ none := by
  rw [((h.known hpc).2.payloadCheck_eq haccess).2]
  exact Option.some_ne_none _

/-- No worker reads or gives back what is not live. -/
theorem Possession.safe (h : Possession config σ) (i : Fin config.threads) : (σ.worker i).Safe σ.store := by
  have hat := h.worker i
  have hdeallocate {item : QueueItem} (hitem : (σ.worker i).block = item.block) :
      (State.deallocate σ.store item.pointer).isSome = true := by
    cases hpointer : item.pointer with
    | none => rfl
    | some pointer =>
        have hmem : pointer ∈ (σ.worker i).block := by
          rw [hitem, QueueItem.block, hpointer]
          exact Multiset.mem_singleton_self _
        have howned : pointer ∈ owned σ.queue.contents σ.worker := mem_owned_worker hmem
        rw [State.deallocate, if_pos (h.custody.isSome_of_mem howned)]
        rfl
  cases hpc : σ.worker i with
  | fill item =>
      rw [hpc] at hat
      obtain ⟨-, -, pointer, block, hpointer, hblock, hsize⟩ := hat
      rw [Worker.Safe, access_isSome hpointer hblock hsize]
      rfl
  | check item =>
      rw [hpc] at hat
      rcases hat.2 with ⟨-, hnone⟩ | ⟨-, pointer, block, hpointer, hblock, hsize, -⟩
      · exact .inl hnone
      · refine .inr ?_
        rw [access_isSome hpointer hblock hsize]
        rfl
  | refuse item => exact hdeallocate (by rw [hpc]; rfl)
  | release item valid => exact hdeallocate (by rw [hpc]; rfl)
  | _ => trivial

end Moves

end Hplf.Queue
