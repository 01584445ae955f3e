import HplfMalloc.Proof.QueueReport

/-!
# Safety and result of the queue benchmark

Whatever fails, whom the signals wake and in whatever order the threads act: each live block is in one place and no
payload check fails. Unless a lock has failed, a result that is returned accounts for every item that was produced.
-/

namespace Hplf.Queue

open Lib Hplf.Bench
open scoped BigOperators

/-! ### Runs -/

variable {config : BenchmarkConfig} {locked : Bool} {σ σ' : State config.threads}

/-- The runs in which no lock fails. -/
def lockedBenchmark (config : BenchmarkConfig) : System (State config.threads) (Event config.threads) where
  init σ := σ = .initial config
  step σ e σ' := ∃ event, e = some event ∧ event.Locks ∧ σ.perform config event = some σ'

def State.run (config : BenchmarkConfig) :
    State config.threads → List (Event config.threads) → Option (State config.threads)
  | σ, [] => some σ
  | σ, event :: events =>
      match σ.perform config event with
      | none => none
      | some σ' => σ'.run config events

theorem reachable_run (events : List (Event config.threads)) (hreach : (queueBenchmark config).Reachable σ)
    (hrun : σ.run config events = some σ') : (queueBenchmark config).Reachable σ' := by
  induction events generalizing σ with
  | nil => exact Option.some.inj hrun ▸ hreach
  | cons event events ih =>
      rw [State.run] at hrun
      split at hrun
      · cases hrun
      next σ' hstep => exact ih (hreach.step ⟨event, rfl, hstep⟩) hrun

theorem locked_run (events : List (Event config.threads)) (hlocks : ∀ event ∈ events, event.Locks)
    (hreach : (lockedBenchmark config).Reachable σ) (hrun : σ.run config events = some σ') :
    (lockedBenchmark config).Reachable σ' := by
  induction events generalizing σ with
  | nil => exact Option.some.inj hrun ▸ hreach
  | cons event events ih =>
      rw [State.run] at hrun
      split at hrun
      · cases hrun
      next σ' hstep =>
        refine ih (fun e he => hlocks e (List.mem_cons_of_mem _ he)) ?_ hrun
        exact hreach.step ⟨event, rfl, hlocks event List.mem_cons_self, hstep⟩

theorem Inv.of_reachable (hrange : State.InRange config) (hreach : (queueBenchmark config).Reachable σ) :
    Inv config false σ := by
  refine hreach.invariant (fun x hx => hx ▸ inv_initial hrange false) ?_
  rintro x e y hinv ⟨event, -, hstep⟩
  exact hinv.perform hrange (fun hnone => by cases hnone) hstep

theorem Inv.of_locked (hrange : State.InRange config) (hreach : (lockedBenchmark config).Reachable σ) :
    Inv config true σ := by
  refine hreach.invariant (fun x hx => hx ▸ inv_initial hrange true) ?_
  rintro x e y hinv ⟨event, -, hlocks, hstep⟩
  exact hinv.perform hrange (fun _ => hlocks) hstep

/-! ### The places of a block -/

/-- Where a block can be: at a position of the queue, or with a worker. -/
inductive Holder (threads : Nat)
  | queue (position : Nat)
  | worker (i : Fin threads)

def State.Holds {threads : Nat} (σ : State threads) (pointer : Nat) : Holder threads → Prop
  | .queue position => ∃ item, σ.queue.contents[position]? = some item ∧ item.pointer = some pointer
  | .worker i => ∃ item, (σ.worker i).item = some item ∧ item.pointer = some pointer

structure Safe (config : BenchmarkConfig) (σ : State config.threads) : Prop where
  faultless : ∀ i, σ.worker i ≠ .fault
  /-- No payload check fails. -/
  valid : ∀ i item, σ.worker i ≠ .release item false
  live : ∀ pointer, (σ.store pointer).isSome = true ↔ ∃ holder, σ.Holds pointer holder
  exclusive : ∀ pointer holder holder', σ.Holds pointer holder → σ.Holds pointer holder' → holder = holder'
  queued : ∀ item ∈ σ.queue.contents, Sealed config σ.store item
  bounded : σ.queue.count ≤ σ.queue.capacity
  /-- Nothing stays behind in a phase in which nothing failed. -/
  drained : σ.main.running = true → σ.failed = false → (∀ i, σ.worker i = .idle) →
    σ.queue.count = 0 ∧ ∀ pointer, σ.store pointer = none

theorem mem_item_block {item : QueueItem} {pointer : Nat} : pointer ∈ item.block ↔ item.pointer = some pointer := by
  unfold QueueItem.block
  cases item.pointer with
  | none => simp
  | some other => simp [eq_comm]

theorem mem_worker_block {worker : Worker} {pointer : Nat} :
    pointer ∈ worker.block ↔ ∃ item, worker.item = some item ∧ item.pointer = some pointer := by
  unfold Worker.block
  cases worker.item with
  | none => simp
  | some item => simp [mem_item_block]

theorem mem_queue_blocks {contents : List QueueItem} {pointer : Nat} :
    pointer ∈ (contents.map QueueItem.block).sum
      ↔ ∃ (position : Nat) (item : QueueItem), contents[position]? = some item ∧ item.pointer = some pointer := by
  induction contents with
  | nil => simp
  | cons first contents ih =>
      rw [List.map_cons, List.sum_cons, Multiset.mem_add, ih, mem_item_block]
      constructor
      · rintro (hfirst | ⟨position, item, hitem, hpointer⟩)
        · exact ⟨0, first, rfl, hfirst⟩
        · exact ⟨position + 1, item, hitem, hpointer⟩
      · rintro ⟨position, item, hitem, hpointer⟩
        cases position with
        | zero =>
            cases Option.some.inj hitem
            exact .inl hpointer
        | succ position => exact .inr ⟨position, item, hitem, hpointer⟩

/-- What is owned is what somebody holds. -/
theorem mem_owned_iff {pointer : Nat} :
    pointer ∈ owned σ.queue.contents σ.worker ↔ ∃ holder, σ.Holds pointer holder := by
  rw [owned, Multiset.mem_add, mem_queue_blocks, Multiset.mem_sum]
  constructor
  · rintro (⟨position, hposition⟩ | ⟨i, -, hi⟩)
    · exact ⟨.queue position, hposition⟩
    · exact ⟨.worker i, mem_worker_block.mp hi⟩
  · rintro ⟨holder, hholds⟩
    cases holder with
    | queue position => exact .inl ⟨position, hholds⟩
    | worker i => exact .inr ⟨i, Finset.mem_univ i, mem_worker_block.mpr hholds⟩

theorem Possession.holder_unique (h : Possession config σ) {pointer : Nat} {holder holder' : Holder config.threads}
    (hholds : σ.Holds pointer holder) (hholds' : σ.Holds pointer holder') : holder = holder' := by
  have hnodup := (Multiset.nodup_add.mp h.custody.nodup).1
  have happly {i : Fin config.threads} (hi : σ.Holds pointer (.worker i)) : pointer ∈ (σ.worker i).block :=
    mem_worker_block.mpr hi
  have hpart {position : Nat} {item : QueueItem} (hitem : σ.queue.contents[position]? = some item) :
      (σ.queue.contents.map QueueItem.block)[position]? = some item.block := by
    rw [List.getElem?_map, hitem]
    rfl
  cases holder with
  | queue position =>
      obtain ⟨item, hitem, hpointer⟩ := hholds
      cases holder' with
      | queue position' =>
          obtain ⟨item', hitem', hpointer'⟩ := hholds'
          rw [eq_of_mem_parts hnodup (hpart hitem) (hpart hitem') (mem_item_block.mpr hpointer)
            (mem_item_block.mpr hpointer')]
      | worker i =>
          exact absurd (mem_item_block.mpr hpointer)
            (worker_disjoint_queue h.custody (List.mem_of_getElem? hitem) (happly hholds'))
  | worker i =>
      cases holder' with
      | queue position' =>
          obtain ⟨item', hitem', hpointer'⟩ := hholds'
          exact absurd (mem_item_block.mpr hpointer')
            (worker_disjoint_queue h.custody (List.mem_of_getElem? hitem') (happly hholds))
      | worker j =>
          by_contra hne
          have hij : j ≠ i := fun heq => hne (by rw [heq])
          exact worker_disjoint h.custody hij (happly hholds) (happly hholds')

theorem Inv.safe (h : Inv config locked σ) (hrange : State.InRange config) : Safe config σ where
  faultless i hfault := by
    have hat := h.possession.worker i
    rw [hfault] at hat
    exact hat
  valid i item hinvalid := by
    have hat := h.possession.worker i
    rw [hinvalid] at hat
    cases hat.2.1
  live pointer := by
    rw [← mem_owned_iff]
    exact (h.possession.custody.live pointer).symm
  exclusive _ _ _ := h.possession.holder_unique
  queued := h.possession.queued
  bounded := h.possession.fits.count_le
  drained hrunning hfailed hidle := by
    have hcount := (h.flow hrunning).count_idle hrange hfailed hidle
    exact ⟨hcount, h.possession.empty hcount hidle⟩

/-- **Safety.** In every run, whatever fails. -/
theorem queue_benchmark_safe (config : BenchmarkConfig) (hrange : State.InRange config) (σ : State config.threads)
    (hreach : (queueBenchmark config).Reachable σ) : Safe config σ :=
  (Inv.of_reachable hrange hreach).safe hrange

/-! ### A run -/

/-- A producer and a consumer, and a queue of one item. -/
def twoWorkers : BenchmarkConfig where
  workload := .handoff
  threads := 2
  seed := 7
  warmupNs := 1
  durationNs := 1
  liveSlots := 1
  fixedSize := 64

/-- Nothing fails, the time is `now`, a new block is at address 64, and nobody waits. -/
def outcomeAt (now : UInt64) : Outcome 2 where
  prepareFails := false
  createFails := false
  joinFails := false
  lockFails := false
  allocation := some (64, fun _ => 0)
  time := some now
  woken := none
  trimmed := 0

/-- The producer has pushed an item and filled in another one, for which it cannot lock the queue. -/
def twoWorkersRefusal : List (Event 2) :=
  List.replicate 2 (.main (outcomeAt 0)) ++ List.replicate 6 (.worker 0 (outcomeAt 0)) ++
    List.replicate 2 (.worker 0 { outcomeAt 0 with allocation := some (128, fun _ => 0) }) ++
    [.worker 0 { outcomeAt 0 with lockFails := true }]

/-- A phase in which the producer makes one item before it sees the deadline. -/
def twoWorkersPhase (now : UInt64) : List (Event 2) :=
  List.replicate 7 (.worker 0 (outcomeAt now)) ++ List.replicate 7 (.worker 1 (outcomeAt now))

def twoWorkersRun : List (Event 2) :=
  List.replicate 2 (.main (outcomeAt 0)) ++ twoWorkersPhase 1 ++ [.main (outcomeAt 1)] ++ twoWorkersPhase 3
    ++ List.replicate 3 (.main (outcomeAt 3))

theorem queue_benchmark_safe_two_workers :
    ∃ σ, State.run twoWorkers (.initial twoWorkers) twoWorkersRefusal = some σ ∧ σ.queue.count = 1 ∧
      (∃ item, σ.worker (0 : Fin 2) = .refuse item ∧ item.pointer = some 128) ∧ σ.failed = false ∧ Safe twoWorkers σ :=
  ⟨_, rfl, rfl, ⟨_, rfl, rfl⟩, rfl,
    queue_benchmark_safe twoWorkers (by decide) _ (reachable_run twoWorkersRefusal (.init rfl) rfl)⟩

/-- **The result.** If no lock has failed, a result accounts for all that was produced in the measurement, and the
check of the timer at the end never fails. -/
theorem queue_benchmark_result (config : BenchmarkConfig) (hrange : State.InRange config) (σ : State config.threads)
    (hreach : (lockedBenchmark config).Reachable σ) :
    (∀ result, σ.main = .returned (.ok result) → Completed config σ result) ∧
      σ.main ≠ .returned (.error State.invalidTimer) := by
  have hmain := ((Inv.of_locked hrange hreach).exact rfl).main
  constructor
  · intro result hreturned
    rw [hreturned] at hmain
    exact hmain
  · intro hreturned
    rw [hreturned] at hmain
    exact hmain rfl

theorem locks_twoWorkersRun : ∀ event ∈ twoWorkersRun, event.Locks := by
  intro event hevent
  simp only [twoWorkersRun, twoWorkersPhase, List.mem_append, List.mem_replicate, List.mem_singleton] at hevent
  rcases hevent with (((⟨-, rfl⟩ | ⟨-, rfl⟩ | ⟨-, rfl⟩) | rfl) | ⟨-, rfl⟩ | ⟨-, rfl⟩) | ⟨-, rfl⟩ <;>
    first | rfl | trivial

theorem queue_benchmark_result_two_workers :
    ∃ σ result, State.run twoWorkers (.initial twoWorkers) twoWorkersRun = some σ ∧
      result.completedOperations = 1 ∧ Completed twoWorkers σ result :=
  ⟨_, _, rfl, rfl,
    (queue_benchmark_result twoWorkers (by decide) _
      (locked_run twoWorkersRun locks_twoWorkersRun (.init rfl) rfl)).1 _ rfl⟩

end Hplf.Queue
