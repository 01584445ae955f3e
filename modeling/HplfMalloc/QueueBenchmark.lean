import HplfMalloc.BenchmarkTrace
import HplfMalloc.RingBenchmark
import Mathlib.Algebra.GroupWithZero.Nat
import Mathlib.Data.UInt

/-!
# The queue benchmark

`benchmark_run` with the handoff and the queue-only workload: in `run_queue_phase` the first half of the workers
produce items and push them into a bounded queue, and the others pop them and give their blocks back. A single
worker does both in turn.

The queue is accessed under its mutex only, so a critical section is one action; it reads `failed` once to any
effect. `pthread_cond_wait` ends one and, after the waiter was woken, begins another. The outcome of an action is
what the environment answers: an allocation may fail or be at any address that is not in use, the clock may fail
and otherwise does not run backwards, and a signal may wake any waiting worker or nobody. The lock of `queue_push`
and of `queue_pop` may fail, and so may each join, which then does not wait for its worker. The calls whose results
the source ignores succeed: the other locks, the unlocks and the broadcasts; a wait that fails is a wake-up by nobody.

A read or a write of a block that is not live or too small, or its deallocation, is a fault. A phase is opened when all
workers wait for it. A run is followed until `benchmark_run` returns: a worker that was not joined then has lost
the memory that it shares with the others.
-/

namespace Hplf.Queue

open Lib Hplf.Bench
open Hplf.Pool (mix64)
open Hplf.Ring (Timed)

/-- `struct queue_item`. -/
structure QueueItem where
  pointer : Option Nat
  size : Nat
  key : UInt64
  deriving DecidableEq, Repr

/-- `struct worker_stats`. -/
structure WorkerStats where
  mallocCalls : UInt64
  callocCalls : UInt64
  reallocCalls : UInt64
  freeCalls : UInt64
  completed : UInt64
  checksum : UInt64
  endNs : UInt64
  deriving DecidableEq, Repr

def WorkerStats.zero : WorkerStats :=
  ⟨0, 0, 0, 0, 0, 0, 0⟩

/-- `struct benchmark_result`. -/
structure BenchmarkResult where
  mallocCalls : UInt64
  callocCalls : UInt64
  reallocCalls : UInt64
  freeCalls : UInt64
  completedOperations : UInt64
  elapsedNs : UInt64
  traceChecksum : UInt64
  payloadChecksum : UInt64
  trimmedBytes : Nat
  deriving DecidableEq, Repr

/-- A live block of the allocator that is measured. -/
structure Block where
  size : Nat
  bytes : Nat → UInt8

/-- Whether a worker has yet to enter a critical section, is blocked in it in `pthread_cond_wait`, or was woken and
is about to test the predicate again. -/
inductive Turn
  | fresh
  | waiting
  | woken
  deriving DecidableEq, Repr

/-- The next action of a worker in `run_worker` and `run_queue_phase`. -/
inductive Worker
  /-- Before a phase, between the phases or after the last one. -/
  | idle
  /-- The load of `failed` that decides whether the phase is run. -/
  | testFailed
  | produce
  | fill (item : QueueItem)
  | push (item : QueueItem) (turn : Turn)
  /-- Gives back an item that was not accepted. -/
  | refuse (item : QueueItem)
  | readClock
  /-- The load of `failed` in the condition of the loop. -/
  | testLoop
  /-- The store of `queue_abort`. -/
  | abort
  /-- The critical section of `queue_abort`. -/
  | abortBroadcast
  | producerDone
  | pop (turn : Turn)
  | check (item : QueueItem)
  | release (item : QueueItem) (valid : Bool)
  /-- The clock of a consumer at the end of its loop. -/
  | readEnd
  | finish
  /-- The store to `failed` after a phase that returned zero. -/
  | reportFailure
  | fault
  deriving DecidableEq, Repr

/-- The next action of `benchmark_run`. -/
inductive Main
  | prepare
  | openPhase (phase : Timed)
  /-- The join of the worker `index`; `success` if none has failed so far. -/
  | join (index : Nat) (success : Bool)
  | returned (result : Except String BenchmarkResult)

def Main.running : Main → Bool
  | .returned _ => false
  | _ => true

/-- All that the threads share, the local variables of the workers and the next action of each thread. -/
structure State (threads : Nat) where
  /-- The live blocks. -/
  store : Nat → Option Block
  queue : RingBuffer QueueItem
  producersRemaining : Nat
  failed : Bool
  /-- The time that was read last. -/
  clock : UInt64
  deadlineNs : UInt64
  measurementStartNs : UInt64
  sequence : Fin threads → Nat
  now : Fin threads → UInt64
  stats : Fin threads → WorkerStats
  worker : Fin threads → Worker
  main : Main

def State.initial (config : BenchmarkConfig) : State config.threads where
  store _ := none
  queue := ⟨fun _ => ⟨none, 0, 0⟩, config.liveSlots, 0, 0⟩
  producersRemaining := 0
  failed := false
  clock := 0
  deadlineNs := 0
  measurementStartNs := 0
  sequence _ := 0
  now _ := 0
  stats _ := .zero
  worker _ := .idle
  main := .prepare

/-- What the environment answers to the calls of an action. -/
structure Outcome (threads : Nat) where
  prepareFails : Bool
  createFails : Bool
  joinFails : Bool
  /-- The lock of `queue_push` or `queue_pop`. -/
  lockFails : Bool
  /-- The address and the bytes of a new block. -/
  allocation : Option (Nat × (Nat → UInt8))
  time : Option UInt64
  /-- The worker that a signal wakes. -/
  woken : Option (Fin threads)
  trimmed : Nat

/-- The workers as the members that wait on `not_empty`. -/
def notEmpty : Waiters Worker where
  waits worker := worker == .pop .waiting
  awake worker := worker == .pop .woken
  wake _ := .pop .woken
  not_waits_of_awake worker hawake := by
    rw [beq_iff_eq] at hawake
    rw [hawake]
    rfl
  awake_wake _ _ := rfl

/-- The workers as the members that wait on `not_full`. -/
def notFull : Waiters Worker where
  waits
    | .push _ .waiting => true
    | _ => false
  awake
    | .push _ .woken => true
    | _ => false
  wake
    | .push item _ => .push item .woken
    | worker => worker
  not_waits_of_awake worker hawake := by
    cases worker with
    | push item turn => cases turn <;> first | rfl | cases hawake
    | _ => rfl
  awake_wake worker hwaits := by
    cases worker with
    | push item turn => rfl
    | _ => cases hwaits

def producerCount (threads : Nat) : Nat :=
  if threads = 1 then 1 else threads / 2

def isProducer {threads : Nat} (i : Fin threads) : Bool :=
  i.val < producerCount threads

/-! ### Where a worker goes on

A single worker has its own branch of `run_queue_phase`: it pops what it has pushed, and it returns zero where the
others call `queue_abort` or break out of their loops. -/

section Branches

variable (threads : Nat)

def afterPush : Worker :=
  if threads = 1 then .pop .fresh else .readClock

def afterItem : Worker :=
  if threads = 1 then .readClock else .pop .fresh

def afterDrained : Worker :=
  if threads = 1 then .reportFailure else .readEnd

def afterRefusal : Worker :=
  if threads = 1 then .reportFailure else .producerDone

def afterFailure : Worker :=
  if threads = 1 then .reportFailure else .abort

def afterClock : Worker :=
  if threads = 1 then .produce else .testLoop

end Branches

namespace State

variable {threads : Nat}

def goto (σ : State threads) (i : Fin threads) (worker : Worker) : State threads :=
  { σ with worker := Function.update σ.worker i worker }

def modifyStats (σ : State threads) (i : Fin threads) (f : WorkerStats → WorkerStats) : State threads :=
  { σ with stats := Function.update σ.stats i (f (σ.stats i)) }

/-- The block of an item, if it is live and large enough. -/
def access (store : Nat → Option Block) (item : QueueItem) : Option (Nat × Block) :=
  match item.pointer with
  | none => none
  | some pointer =>
      match store pointer with
      | none => none
      | some block => if item.size ≤ block.size then some (pointer, block) else none

/-- `benchmark_deallocate`, which ignores null; otherwise the block must be live. -/
def deallocate (store : Nat → Option Block) : Option Nat → Option (Nat → Option Block)
  | none => some store
  | some pointer => if (store pointer).isSome then some (Function.update store pointer none) else none

/-- `monotonic_ns`, and what follows a failure and a success; `none` if the time is before the last one. -/
def readTime (σ : State threads) (o : Outcome threads) (failure : State threads)
    (success : UInt64 → State threads → State threads) : Option (State threads) :=
  match o.time with
  | none => some failure
  | some now => if now < σ.clock then none else some (success now { σ with clock := now })

/-- The body of the producing loop up to `queue_push`, without `payload_fill`; `none` if the address is in use. -/
def produceItem (config : BenchmarkConfig) (σ : State config.threads) (i : Fin config.threads)
    (o : Outcome config.threads) : Option (State config.threads) :=
  let entry := traceEntry config i.val (σ.sequence i)
  let σ := { σ with sequence := Function.update σ.sequence i (σ.sequence i + 1) }
  if config.workload = .handoff then
    let σ := σ.modifyStats i fun stats => { stats with mallocCalls := stats.mallocCalls + 1 }
    match o.allocation with
    | none => some (σ.goto i (afterFailure config.threads))
    | some (address, bytes) =>
        if (σ.store address).isSome then none
        else
          some ({ σ with store := Function.update σ.store address (some ⟨entry.size, bytes⟩) }.goto i
            (.fill ⟨some address, entry.size, entry.key⟩))
  else
    some (σ.goto i (.push ⟨none, entry.size, entry.key⟩ .fresh))

def fillItem (σ : State threads) (i : Fin threads) (item : QueueItem) : State threads :=
  match access σ.store item with
  | none => σ.goto i .fault
  | some (pointer, block) =>
      let block := { block with bytes := (payloadFill block.bytes item.size item.key).1 }
      { σ with store := Function.update σ.store pointer (some block) }.goto i (.push item .fresh)

/-- `queue_push`; a worker that was woken has the mutex again. -/
def queuePush (σ : State threads) (i : Fin threads) (item : QueueItem) (turn : Turn) (o : Outcome threads) :
    State threads :=
  if turn = .fresh ∧ o.lockFails then
    σ.goto i (.refuse item)
  else if σ.queue.count = σ.queue.capacity ∧ σ.failed = false then
    σ.goto i (.push item .waiting)
  else if σ.failed then
    σ.goto i (.refuse item)
  else
    { σ with
      queue := σ.queue.push item
      worker := notEmpty.signal σ.worker o.woken }.goto i (afterPush threads)

/-- `queue_pop`; where the lock fails the phase returns zero. -/
def queuePop (σ : State threads) (i : Fin threads) (turn : Turn) (o : Outcome threads) : State threads :=
  if turn = .fresh ∧ o.lockFails then
    σ.goto i .reportFailure
  else if σ.queue.count = 0 ∧ σ.producersRemaining ≠ 0 ∧ σ.failed = false then
    σ.goto i (.pop .waiting)
  else if σ.queue.count = 0 then
    σ.goto i (afterDrained threads)
  else
    { σ with
      queue := σ.queue.pop
      worker := notFull.signal σ.worker o.woken }.goto i (.check σ.queue.front)

/-- A refused item; a single worker does not count the call. -/
def refuseItem (σ : State threads) (i : Fin threads) (item : QueueItem) : State threads :=
  match deallocate σ.store item.pointer with
  | none => σ.goto i .fault
  | some store =>
      let σ := { σ with store := store }
      let σ := if threads ≠ 1 ∧ item.pointer ≠ none then
          σ.modifyStats i fun stats => { stats with freeCalls := stats.freeCalls + 1 }
        else
          σ
      σ.goto i (afterRefusal threads)

def checkItem (σ : State threads) (i : Fin threads) (item : QueueItem) : State threads :=
  match item.pointer with
  | none =>
      (σ.modifyStats i fun stats =>
        { stats with checksum := stats.checksum + mix64 item.key, completed := stats.completed + 1 }).goto i
        (afterItem threads)
  | some _ =>
      match access σ.store item with
      | none => σ.goto i .fault
      | some (_, block) =>
          match payloadCheck block.bytes item.size item.key with
          | none => σ.goto i (.release item false)
          | some observed =>
              (σ.modifyStats i fun stats => { stats with checksum := stats.checksum + observed }).goto i
                (.release item true)

def releaseItem (σ : State threads) (i : Fin threads) (item : QueueItem) (valid : Bool) : State threads :=
  match deallocate σ.store item.pointer with
  | none => σ.goto i .fault
  | some store =>
      let σ := { σ with store := store }
      if valid then
        (σ.modifyStats i fun stats =>
          { stats with freeCalls := stats.freeCalls + 1, completed := stats.completed + 1 }).goto i (afterItem threads)
      else
        σ.goto i (afterFailure threads)

/-- `queue_producer_done`. -/
def queueProducerDone (σ : State threads) : State threads :=
  { σ with
    producersRemaining := if σ.producersRemaining ≠ 0 then σ.producersRemaining - 1 else σ.producersRemaining
    worker := notEmpty.broadcast σ.worker }

/-- `queue_abort` with the mutex held. -/
def queueAbort (σ : State threads) : State threads :=
  { σ with worker := notFull.broadcast (notEmpty.broadcast σ.worker) }

/-- The next action of a worker; `none` if it cannot take one now. -/
def stepWorker (config : BenchmarkConfig) (σ : State config.threads) (i : Fin config.threads)
    (o : Outcome config.threads) : Option (State config.threads) :=
  match σ.worker i with
  | .idle | .fault | .push _ .waiting | .pop .waiting => none
  | .testFailed =>
      some (σ.goto i (if σ.failed then .idle else if isProducer i then .produce else .pop .fresh))
  | .produce => σ.produceItem config i o
  | .fill item => some (σ.fillItem i item)
  | .push item turn => some (σ.queuePush i item turn o)
  | .refuse item => some (σ.refuseItem i item)
  | .readClock =>
      σ.readTime o (σ.goto i (afterFailure config.threads)) fun now σ =>
        { σ with now := Function.update σ.now i now }.goto i
          (if now < σ.deadlineNs then afterClock config.threads else .producerDone)
  | .testLoop => some (σ.goto i (if σ.failed then .producerDone else .produce))
  | .abort => some ({ σ with failed := true }.goto i .abortBroadcast)
  | .abortBroadcast => some (σ.queueAbort.goto i (if isProducer i then .producerDone else .reportFailure))
  | .producerDone => some (σ.queueProducerDone.goto i .finish)
  | .pop turn => some (σ.queuePop i turn o)
  | .check item => some (σ.checkItem i item)
  | .release item valid => some (σ.releaseItem i item valid)
  | .readEnd =>
      σ.readTime o (σ.goto i .reportFailure) fun now σ =>
        { σ with now := Function.update σ.now i now }.goto i .finish
  | .finish =>
      some ((σ.modifyStats i fun stats => { stats with endNs := σ.now i }).goto i
        (if config.threads ≠ 1 ∧ σ.failed = true then .reportFailure else .idle))
  | .reportFailure => some ({ σ with failed := true }.goto i .idle)

/-! ### The main thread -/

def resetPhaseState (σ : State threads) : State threads :=
  { σ with
    queue := { σ.queue with head := 0, count := 0 }
    producersRemaining := producerCount threads }

/-- The workers leave `wait_for_phase`, with their local variables for the phase. -/
def enterPhase (σ : State threads) : State threads :=
  { σ with
    sequence := fun _ => 0
    now := fun _ => 0
    stats := fun _ => .zero
    worker := fun _ => .testFailed }

def durationOf (config : BenchmarkConfig) : Timed → UInt64
  | .warmup => config.warmupNs
  | .measurement => config.durationNs

def afterPhase : Timed → Main
  | .warmup => .openPhase .measurement
  | .measurement => .join 0 true

/-- The texts of `benchmark_run`. -/
def outOfRange : String := "benchmark configuration is out of range"
def harnessFailed : String := "failed to allocate benchmark harness state"
def createFailed : String := "failed to create benchmark worker"
def workerFailed : String := "benchmark worker or payload check failed"
def invalidTimer : String := "invalid benchmark timer interval"

def fail (σ : State threads) (error : String) : State threads :=
  { σ with main := .returned (.error error) }

def latestEnd (σ : State threads) : UInt64 :=
  (List.finRange threads).foldl (fun latest i => if (σ.stats i).endNs > latest then (σ.stats i).endNs else latest) 0

def total (σ : State threads) (field : WorkerStats → UInt64) : UInt64 :=
  ((List.finRange threads).map fun i => field (σ.stats i)).sum

/-- `deadline_from_now` and the opening of the phase. -/
def openPhase (config : BenchmarkConfig) (σ : State config.threads) (phase : Timed) (o : Outcome config.threads) :
    Option (State config.threads) :=
  σ.readTime o (σ.fail workerFailed) fun start σ =>
    if durationOf config phase ≤ 18446744073709551615 - start then
      { σ.enterPhase with
        deadlineNs := start + durationOf config phase
        measurementStartNs := if phase = .measurement then start else σ.measurementStartNs
        main := afterPhase phase }
    else
      σ.fail workerFailed

/-- What the workers have done together. -/
def addUp (config : BenchmarkConfig) (σ : State config.threads) (trimmed : Nat) : BenchmarkResult where
  mallocCalls := σ.total WorkerStats.mallocCalls
  callocCalls := σ.total WorkerStats.callocCalls
  reallocCalls := σ.total WorkerStats.reallocCalls
  freeCalls := σ.total WorkerStats.freeCalls
  completedOperations := σ.total WorkerStats.completed
  elapsedNs := σ.latestEnd - σ.measurementStartNs
  traceChecksum := traceChecksum ((generateTraces config).getD [])
  payloadChecksum := σ.total WorkerStats.checksum
  trimmedBytes := trimmed

/-- The end of `benchmark_run`, after the joins. -/
def conclude (config : BenchmarkConfig) (σ : State config.threads) (success : Bool) (o : Outcome config.threads) :
    Except String BenchmarkResult :=
  if success = false ∨ σ.failed then
    .error workerFailed
  else if σ.latestEnd < σ.measurementStartNs then
    .error invalidTimer
  else
    .ok (σ.addUp config o.trimmed)

/-- The configurations that `benchmark_run` takes. -/
def InRange (config : BenchmarkConfig) : Prop :=
  0 < config.threads ∧ config.threads ≤ 64 ∧ 0 < config.liveSlots ∧ config.liveSlots ≤ 100000 ∧
    0 < config.fixedSize ∧ config.fixedSize ≤ 9223372036854775807 ∧ 0 < config.warmupNs ∧ 0 < config.durationNs

instance (config : BenchmarkConfig) : Decidable (InRange config) :=
  inferInstanceAs (Decidable (_ ∧ _))

/-- The next action of the main thread; `none` if it cannot take one now. -/
def stepMain (config : BenchmarkConfig) (σ : State config.threads) (o : Outcome config.threads) :
    Option (State config.threads) :=
  match σ.main with
  | .prepare =>
      some (if ¬ InRange config then σ.fail outOfRange
        else if o.prepareFails ∨ generateTraces config = none then σ.fail harnessFailed
        else if o.createFails then σ.fail createFailed
        else { σ with main := .openPhase .warmup })
  | .openPhase phase =>
      if ∀ i, σ.worker i = .idle then
        if σ.failed then some (σ.fail workerFailed) else σ.resetPhaseState.openPhase config phase o
      else
        none
  | .join index success =>
      if hindex : index < config.threads then
        if o.joinFails then
          some { σ with main := .join (index + 1) false }
        else if σ.worker ⟨index, hindex⟩ = .idle then
          some { σ with main := .join (index + 1) success }
        else
          none
      else
        some { σ with main := .returned (σ.conclude config success o) }
  | .returned _ => none

end State

/-- A thread acts, or a waiting worker is woken by nobody. -/
inductive Event (threads : Nat)
  | worker (i : Fin threads) (outcome : Outcome threads)
  | main (outcome : Outcome threads)
  | wake (i : Fin threads)

/-- No lock fails. -/
def Event.Locks {threads : Nat} : Event threads → Prop
  | .worker _ o => o.lockFails = false
  | .main _ | .wake _ => True

def Worker.wake : Worker → Worker
  | .push item .waiting => .push item .woken
  | .pop .waiting => .pop .woken
  | worker => worker

def State.perform (config : BenchmarkConfig) (σ : State config.threads) (event : Event config.threads) :
    Option (State config.threads) :=
  if σ.main.running then
    match event with
    | .worker i o => σ.stepWorker config i o
    | .main o => σ.stepMain config o
    | .wake i => if (σ.worker i).wake = σ.worker i then none else some (σ.goto i (σ.worker i).wake)
  else
    none

/-- All runs of the benchmark. -/
def queueBenchmark (config : BenchmarkConfig) : System (State config.threads) (Event config.threads) where
  init σ := σ = .initial config
  step σ e σ' := ∃ event, e = some event ∧ σ.perform config event = some σ'

end Hplf.Queue
