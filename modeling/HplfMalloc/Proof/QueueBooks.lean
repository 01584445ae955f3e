import HplfMalloc.Proof.QueueLedger

/-!
# The books of the queue benchmark

Which entries of the traces were pushed, and what became of them: an entry that was pushed is in the queue, in the
hands of a worker that has popped it, or consumed, and the statistics of each worker say what it has done.
-/

namespace Hplf.Queue

open Lib Hplf.Bench
open Hplf.Pool (mix64)
open scoped BigOperators

/-! ### Entries -/

/-- Size and key of an item. -/
abbrev Tag := Nat × UInt64

def QueueItem.tag (item : QueueItem) : Tag :=
  (item.size, item.key)

/-- Size and key of the entry a producer turns into its item. -/
def entryTag (config : BenchmarkConfig) (producer sequence : Nat) : Tag :=
  ((traceEntry config producer sequence).size, (traceEntry config producer sequence).key)

/-- What the consumption of an item adds to the checksum. -/
def itemChecksum (config : BenchmarkConfig) (tag : Tag) : UInt64 :=
  if config.workload = .handoff then payloadChecksum tag.1 tag.2 else mix64 tag.2

/-- What a worker has done with the item it holds. -/
inductive Stage
  | nothing
  /-- Not yet pushed. -/
  | outgoing (tag : Tag)
  /-- Popped, and not yet checked. -/
  | popped (tag : Tag)
  | checked (tag : Tag)
  deriving DecidableEq

def Worker.stage : Worker → Stage
  | .fill item | .push item _ => .outgoing item.tag
  | .check item => .popped item.tag
  | .release item _ => .checked item.tag
  | _ => .nothing

theorem Worker.stage_calm (worker : Worker) : worker.calm.stage = worker.stage := by
  cases worker <;> rfl

/-- The number of entries pushed, from the number of those produced. -/
def Stage.pushed (sequence : Nat) : Stage → Nat
  | .outgoing _ => sequence - 1
  | _ => sequence

def Stage.pending : Stage → Multiset Tag
  | .popped tag | .checked tag => {tag}
  | _ => 0

/-- What is in the checksum already of an item that is not yet counted. -/
def Stage.checksum (config : BenchmarkConfig) : Stage → UInt64
  | .checked tag => itemChecksum config tag
  | _ => 0

variable (config : BenchmarkConfig)

/-- The statistics of a worker that has produced `sequence` entries and consumed `done`. -/
def accountOf (sequence : Nat) (stage : Stage) (done : Multiset Tag) (endNs : UInt64) : WorkerStats where
  mallocCalls := if config.workload = .handoff then UInt64.ofNat sequence else 0
  callocCalls := 0
  reallocCalls := 0
  freeCalls := if config.workload = .handoff then UInt64.ofNat (Multiset.card done) else 0
  completed := UInt64.ofNat (Multiset.card done)
  checksum := (done.map (itemChecksum config)).sum + stage.checksum config
  endNs := endNs

/-- The entries that a producer has pushed. -/
def pushedTags (producer pushed : Nat) : Multiset Tag :=
  (Multiset.range pushed).map (entryTag config producer)

variable {config}

/-- The accounts of all workers, given what each has consumed. -/
structure Balanced (config : BenchmarkConfig) {threads : Nat} (contents : List QueueItem) (sequence : Fin threads → Nat)
    (stats : Fin threads → WorkerStats) (stage : Fin threads → Stage) (done : Fin threads → Multiset Tag) : Prop where
  outgoing : ∀ i tag, stage i = .outgoing tag → sequence i ≠ 0 ∧ tag = entryTag config i.val (sequence i - 1)
  shares : ∑ i, pushedTags config i.val ((stage i).pushed (sequence i))
    = (contents.map QueueItem.tag : List Tag) + ∑ i, (done i + (stage i).pending)
  stats : ∀ i, stats i = accountOf config (sequence i) (stage i) (done i) (stats i).endNs

/-- The books balance for some record of what was consumed. -/
def Books (config : BenchmarkConfig) {threads : Nat} (contents : List QueueItem) (sequence : Fin threads → Nat)
    (stats : Fin threads → WorkerStats) (stage : Fin threads → Stage) : Prop :=
  ∃ done, Balanced config contents sequence stats stage done

section Moves

variable {threads : Nat} {contents : List QueueItem} {sequence : Fin threads → Nat}
  {stats : Fin threads → WorkerStats} {stage : Fin threads → Stage} {i : Fin threads}

/-- Nothing is produced yet. -/
theorem books_zero (config : BenchmarkConfig) (threads : Nat) :
    Books config [] (fun _ : Fin threads => 0) (fun _ => .zero) (fun _ => .nothing) := by
  refine ⟨fun _ => 0, ⟨(by intro _ _ hnone; cases hnone), ?_, fun _ => ?_⟩⟩
  · simp [pushedTags, Stage.pushed, Stage.pending]
  · simp [accountOf, WorkerStats.zero, Stage.checksum]

/-- The time at which a worker ends is no part of the books. -/
theorem Books.setEnd (h : Books config contents sequence stats stage) (endNs : UInt64) :
    Books config contents sequence (Function.update stats i { stats i with endNs := endNs }) stage := by
  obtain ⟨done, hdone⟩ := h
  refine ⟨done, hdone.outgoing, hdone.shares, fun j => ?_⟩
  by_cases hj : j = i
  · subst hj
    rw [Function.update_self]
    exact congrArg (fun account => { account with endNs := endNs }) (hdone.stats j)
  · rw [Function.update_of_ne hj]
    exact hdone.stats j

/-- The accounts after a worker has gone on, with its own account and the total shown. -/
theorem Balanced.update {done : Fin threads → Multiset Tag} (h : Balanced config contents sequence stats stage done)
    {contents' : List QueueItem} {produced : Nat} {account : WorkerStats} {next : Stage} {consumed : Multiset Tag}
    (houtgoing : ∀ tag, next = .outgoing tag → produced ≠ 0 ∧ tag = entryTag config i.val (produced - 1))
    (hshares : pushedTags config i.val (next.pushed produced) + (contents.map QueueItem.tag : List Tag)
        + (done i + (stage i).pending)
      = pushedTags config i.val ((stage i).pushed (sequence i)) + (contents'.map QueueItem.tag : List Tag)
        + (consumed + next.pending))
    (haccount : account = accountOf config produced next consumed account.endNs) :
    Balanced config contents' (Function.update sequence i produced) (Function.update stats i account)
      (Function.update stage i next) (Function.update done i consumed) where
  outgoing j tag htag := by
    by_cases hj : j = i
    · subst hj
      rw [Function.update_self] at htag ⊢
      exact houtgoing tag htag
    · rw [Function.update_of_ne hj] at htag ⊢
      exact h.outgoing j tag htag
  shares := by
    -- The parts of the totals that belong to the other workers stay as they are.
    have hmade (f : Fin threads → Multiset Tag) : ∑ j, f j = f i + ∑ j ∈ Finset.univ.erase i, f j :=
      (Finset.add_sum_erase _ _ (Finset.mem_univ i)).symm
    have hpushed : ∑ j ∈ Finset.univ.erase i,
        pushedTags config j.val ((Function.update stage i next j).pushed (Function.update sequence i produced j))
        = ∑ j ∈ Finset.univ.erase i, pushedTags config j.val ((stage j).pushed (sequence j)) := by
      refine Finset.sum_congr rfl fun j hj => ?_
      rw [Function.update_of_ne (Finset.ne_of_mem_erase hj), Function.update_of_ne (Finset.ne_of_mem_erase hj)]
    have hconsumed : ∑ j ∈ Finset.univ.erase i,
          (Function.update done i consumed j + (Function.update stage i next j).pending)
        = ∑ j ∈ Finset.univ.erase i, (done j + (stage j).pending) := by
      refine Finset.sum_congr rfl fun j hj => ?_
      rw [Function.update_of_ne (Finset.ne_of_mem_erase hj), Function.update_of_ne (Finset.ne_of_mem_erase hj)]
    have hbefore := h.shares
    rw [hmade, hmade (fun j => done j + (stage j).pending)] at hbefore
    rw [hmade, hmade (fun j => Function.update done i consumed j + (Function.update stage i next j).pending), hpushed,
      hconsumed]
    simp only [Function.update_self]
    apply add_right_cancel (b := pushedTags config i.val ((stage i).pushed (sequence i))
      + (contents.map QueueItem.tag : List Tag) + (done i + (stage i).pending))
    generalize ∑ j ∈ Finset.univ.erase i, pushedTags config j.val ((stage j).pushed (sequence j)) = others at *
    generalize ∑ j ∈ Finset.univ.erase i, (done j + (stage j).pending) = rest at *
    calc pushedTags config i.val (next.pushed produced) + others
          + (pushedTags config i.val ((stage i).pushed (sequence i)) + (contents.map QueueItem.tag : List Tag)
            + (done i + (stage i).pending))
        = pushedTags config i.val (next.pushed produced) + (contents.map QueueItem.tag : List Tag)
            + (done i + (stage i).pending) + (pushedTags config i.val ((stage i).pushed (sequence i)) + others) := by
          abel
      _ = pushedTags config i.val ((stage i).pushed (sequence i)) + (contents'.map QueueItem.tag : List Tag)
            + (consumed + next.pending)
            + ((contents.map QueueItem.tag : List Tag) + (done i + (stage i).pending + rest)) := by
          rw [hshares, hbefore]
      _ = (contents'.map QueueItem.tag : List Tag) + (consumed + next.pending + rest)
            + (pushedTags config i.val ((stage i).pushed (sequence i)) + (contents.map QueueItem.tag : List Tag)
              + (done i + (stage i).pending)) := by
          abel
  stats j := by
    by_cases hj : j = i
    · subst hj
      rw [Function.update_self, Function.update_self, Function.update_self, Function.update_self]
      exact haccount
    · rw [Function.update_of_ne hj, Function.update_of_ne hj, Function.update_of_ne hj, Function.update_of_ne hj]
      exact h.stats j

theorem pushedTags_succ (producer pushed : Nat) :
    pushedTags config producer (pushed + 1)
      = pushedTags config producer pushed + {entryTag config producer pushed} := by
  rw [pushedTags, pushedTags, Multiset.range_succ, Multiset.map_cons, ← Multiset.singleton_add, add_comm]

theorem ofNat_succ (n : Nat) : UInt64.ofNat (n + 1) = UInt64.ofNat n + 1 := by
  rw [UInt64.ofNat_add]
  rfl

/-- A producer has a new item with a block. -/
theorem Books.produceBlock (h : Books config contents sequence stats stage) (hhandoff : config.workload = .handoff)
    (hstage : stage i = .nothing) :
    Books config contents (Function.update sequence i (sequence i + 1))
      (Function.update stats i { stats i with mallocCalls := (stats i).mallocCalls + 1 })
      (Function.update stage i (.outgoing (entryTag config i.val (sequence i)))) := by
  obtain ⟨done, hdone⟩ := h
  refine ⟨Function.update done i (done i), hdone.update ?_ ?_ ?_⟩
  · rintro tag ⟨⟩
    exact ⟨Nat.succ_ne_zero _, rfl⟩
  · simp only [hstage, Stage.pushed, Stage.pending, Nat.add_sub_cancel]
  · have haccount := hdone.stats i
    generalize stats i = account at haccount ⊢
    rw [haccount]
    simp only [accountOf, hstage, hhandoff, if_true, ofNat_succ, Stage.checksum]

/-- A producer has a new item without a block. -/
theorem Books.producePlain (h : Books config contents sequence stats stage) (hplain : config.workload ≠ .handoff)
    (hstage : stage i = .nothing) :
    Books config contents (Function.update sequence i (sequence i + 1)) stats
      (Function.update stage i (.outgoing (entryTag config i.val (sequence i)))) := by
  obtain ⟨done, hdone⟩ := h
  have hstats : Function.update stats i (stats i) = stats := Function.update_eq_self _ _
  rw [← hstats]
  refine ⟨Function.update done i (done i), hdone.update ?_ ?_ ?_⟩
  · rintro tag ⟨⟩
    exact ⟨Nat.succ_ne_zero _, rfl⟩
  · simp only [hstage, Stage.pushed, Stage.pending, Nat.add_sub_cancel]
  · have haccount := hdone.stats i
    generalize stats i = account at haccount ⊢
    rw [haccount]
    simp only [accountOf, hstage, if_neg hplain, Stage.checksum]

/-- Books in which only the stage of one worker and the queue have changed. -/
theorem Balanced.relabel {done : Fin threads → Multiset Tag} (h : Balanced config contents sequence stats stage done)
    {contents' : List QueueItem} {next : Stage} (houtgoing : ∀ tag, next ≠ .outgoing tag)
    (hchecksum : next.checksum config = (stage i).checksum config)
    (hshares : pushedTags config i.val (next.pushed (sequence i)) + (contents.map QueueItem.tag : List Tag)
        + (stage i).pending
      = pushedTags config i.val ((stage i).pushed (sequence i)) + (contents'.map QueueItem.tag : List Tag)
        + next.pending) :
    Books config contents' sequence stats (Function.update stage i next) := by
  have hsequence : Function.update sequence i (sequence i) = sequence := Function.update_eq_self _ _
  have hstats : Function.update stats i (stats i) = stats := Function.update_eq_self _ _
  rw [← hsequence, ← hstats]
  refine ⟨Function.update done i (done i), h.update (fun tag htag => absurd htag (houtgoing tag)) ?_ ?_⟩
  · rw [add_left_comm, hshares, add_left_comm]
  · rw [accountOf, hchecksum]
    exact h.stats i

theorem Books.put (h : Books config contents sequence stats stage) {item : QueueItem}
    (hstage : stage i = .outgoing item.tag) :
    Books config (contents ++ [item]) sequence stats (Function.update stage i .nothing) := by
  obtain ⟨done, hdone⟩ := h
  obtain ⟨hsequence, htag⟩ := hdone.outgoing i item.tag hstage
  refine hdone.relabel (fun tag => by intro hnone; cases hnone) (by rw [hstage]; rfl) ?_
  obtain ⟨pushed, hpushed⟩ := Nat.exists_eq_succ_of_ne_zero hsequence
  rw [hpushed, Nat.succ_eq_add_one, Nat.add_sub_cancel] at htag
  simp only [hstage, Stage.pushed, Stage.pending, hpushed, Nat.succ_eq_add_one, Nat.add_sub_cancel, pushedTags_succ,
    ← htag, List.map_append, List.map_cons, List.map_nil, ← Multiset.coe_add, ← Multiset.coe_singleton]
  abel

theorem Books.take {item : QueueItem} (h : Books config (item :: contents) sequence stats stage)
    (hstage : stage i = .nothing) :
    Books config contents sequence stats (Function.update stage i (.popped item.tag)) := by
  obtain ⟨done, hdone⟩ := h
  refine hdone.relabel (fun tag => by intro hnone; cases hnone) (by rw [hstage]; rfl) ?_
  simp only [hstage, Stage.pushed, Stage.pending, List.map_cons, ← Multiset.cons_coe, ← Multiset.singleton_add]
  abel

/-- A consumer has found its item as it was produced. -/
theorem Books.check (h : Books config contents sequence stats stage) {item : QueueItem}
    (hhandoff : config.workload = .handoff) (hstage : stage i = .popped item.tag) :
    Books config contents sequence
      (Function.update stats i { stats i with checksum := (stats i).checksum + payloadChecksum item.size item.key })
      (Function.update stage i (.checked item.tag)) := by
  obtain ⟨done, hdone⟩ := h
  have hsequence : Function.update sequence i (sequence i) = sequence := Function.update_eq_self _ _
  rw [← hsequence]
  refine ⟨Function.update done i (done i), hdone.update (fun tag => by intro hnone; cases hnone) ?_ ?_⟩
  · simp only [hstage, Stage.pushed, Stage.pending]
  · have haccount := hdone.stats i
    generalize stats i = account at haccount ⊢
    rw [haccount]
    simp only [accountOf, hstage, Stage.checksum, itemChecksum, if_pos hhandoff, QueueItem.tag, UInt64.add_zero]

/-- An item is consumed. -/
theorem Balanced.consume {done : Fin threads → Multiset Tag} (h : Balanced config contents sequence stats stage done)
    {account : WorkerStats} (tag : Tag) (hpending : (stage i).pending = {tag})
    (hpushed : (stage i).pushed (sequence i) = sequence i)
    (haccount : account = accountOf config (sequence i) .nothing (tag ::ₘ done i) account.endNs) :
    Books config contents sequence (Function.update stats i account) (Function.update stage i .nothing) := by
  have hsequence : Function.update sequence i (sequence i) = sequence := Function.update_eq_self _ _
  rw [← hsequence]
  refine ⟨Function.update done i (tag ::ₘ done i), h.update (fun tag => by intro hnone; cases hnone) ?_ haccount⟩
  rw [hpending, hpushed, ← Multiset.singleton_add]
  simp only [Stage.pushed, Stage.pending]
  abel

theorem Books.consumePlain (h : Books config contents sequence stats stage) {item : QueueItem}
    (hplain : config.workload ≠ .handoff) (hstage : stage i = .popped item.tag) :
    Books config contents sequence
      (Function.update stats i
        { stats i with checksum := (stats i).checksum + mix64 item.key, completed := (stats i).completed + 1 })
      (Function.update stage i .nothing) := by
  obtain ⟨done, hdone⟩ := h
  refine hdone.consume item.tag (by rw [hstage]; rfl) (by rw [hstage]; rfl) ?_
  have haccount := hdone.stats i
  generalize stats i = account at haccount ⊢
  rw [haccount]
  simp only [accountOf, hstage, Stage.checksum, itemChecksum, if_neg hplain, QueueItem.tag, Multiset.map_cons,
    Multiset.sum_cons, Multiset.card_cons, ofNat_succ, UInt64.add_zero, add_comm (mix64 item.key)]

theorem Books.consumeBlock (h : Books config contents sequence stats stage) {item : QueueItem}
    (hhandoff : config.workload = .handoff) (hstage : stage i = .checked item.tag) :
    Books config contents sequence
      (Function.update stats i
        { stats i with freeCalls := (stats i).freeCalls + 1, completed := (stats i).completed + 1 })
      (Function.update stage i .nothing) := by
  obtain ⟨done, hdone⟩ := h
  refine hdone.consume item.tag (by rw [hstage]; rfl) (by rw [hstage]; rfl) ?_
  have haccount := hdone.stats i
  generalize stats i = account at haccount ⊢
  rw [haccount]
  simp only [accountOf, hstage, Stage.checksum, if_pos hhandoff, Multiset.map_cons, Multiset.sum_cons,
    Multiset.card_cons, ofNat_succ, UInt64.add_zero, add_comm (itemChecksum config item.tag)]

end Moves

end Hplf.Queue
