import HplfMalloc.CheckedMath
import HplfMalloc.Lib.Monitor
import HplfMalloc.Lib.RingBuffer
import HplfMalloc.Lib.Transition
import Mathlib.Algebra.GroupWithZero.Nat
import Mathlib.Data.List.FinRange
import Mathlib.Data.UInt

/-!
# The worker pool

`worker_pool.c`: the main thread allocates and fills jobs and pushes them into a bounded queue, the workers pop
them, check them and free them, and at the end the main thread closes the queue, joins the workers and reports.

The queue is accessed under its mutex only, so a critical section is one action; `pthread_cond_wait` ends one and,
after the waiter was woken, begins another. The outcome of an action is what the environment answers to the calls
the action makes: each may fail, a wake-up may be spurious, and an allocation may be at any address that is not in
use. A failed unlock leaves the mutex held, which is what `jammed` records. The blocks of `worker_allocate` are
the store; a read of a block that is not live, or its deallocation, is a fault.
-/

namespace Hplf.Pool

open Lib

/-- `struct configuration`. -/
structure Configuration where
  workers : Nat
  jobs : Nat
  queueCapacity : Nat
  seed : UInt64
  failAllocationAt : Nat
  failThreadAt : Nat
  deriving DecidableEq, Repr

structure Job where
  id : Nat
  key : UInt64
  payloadSize : Nat
  payload : Nat → UInt8

/-- The members of `struct job_queue` that its mutex owns. -/
structure JobQueue where
  ring : RingBuffer (Option Nat)
  closed : Bool

structure WorkerResult where
  consumed : Nat
  duplicateJobs : Nat
  invalidJobs : Nat
  checksum : UInt64
  queueError : Bool
  deriving DecidableEq, Repr

inductive RunStatus
  | ok
  | allocationFailure
  | threadFailure
  | dataFailure
  | internalError
  deriving DecidableEq, Repr

def statusExitCode : RunStatus → Nat
  | .ok => 0
  | .allocationFailure => 3
  | .threadFailure => 4
  | .dataFailure => 5
  | .internalError => 6

/-! ### Jobs -/

def mix64 (value : UInt64) : UInt64 :=
  let value := value ^^^ (value >>> 30)
  let value := value * 0xbf58476d1ce4e5b9
  let value := value ^^^ (value >>> 27)
  let value := value * 0x94d049bb133111eb
  value ^^^ (value >>> 31)

/-- The table in `payload_size_for`. -/
def payloadSizes : List Nat :=
  [1, 16, 17, 64, 65, 256, 1024, 4096, 4097, 16384]

def payloadSizeFor (seed : UInt64) (id : Nat) : Nat :=
  let choice := mix64 (seed ^^^ mix64 (UInt64.ofNat id + 0x9e3779b97f4a7c15))
  payloadSizes.getD (choice.toNat % payloadSizes.length) 0

def payloadByte (key : UInt64) (offset : Nat) : UInt8 :=
  let shift := UInt64.ofNat ((offset % 8) * 8)
  ((key >>> shift) ^^^ (UInt64.ofNat offset * 0x9d)).toUInt8

def jobChecksum (job : Job) : UInt64 :=
  mix64 (job.key ^^^ mix64 (UInt64.ofNat job.id) ^^^ UInt64.ofNat job.payloadSize)

def jobIsValid (job : Job) : Bool :=
  (List.range job.payloadSize).all fun index => job.payload index == payloadByte job.key index

/-- `sizeof(struct job)`. -/
def sizeofJob : Nat := 24

/-- `mix64(config.seed ^ mix64(index))`. -/
def jobKey (seed : UInt64) (index : Nat) : UInt64 :=
  mix64 (seed ^^^ mix64 (UInt64.ofNat index))

/-- The loop of `main` over the payload. -/
def fillPayload (key : UInt64) (payload : Nat → UInt8) : Nat → Nat → UInt8
  | 0 => payload
  | n + 1 => Function.update (fillPayload key payload n) n (payloadByte key n)

/-- The job `main` writes into the block of the job with this index. -/
def writeJob (config : Configuration) (index : Nat) (block : Job) : Job :=
  let key := jobKey config.seed index
  let payloadSize := payloadSizeFor config.seed index
  { id := index
    key := key
    payloadSize := payloadSize
    payload := fillPayload key block.payload payloadSize }

/-! ### Threads -/

/-- The next action of `worker_main`. -/
inductive Worker
  /-- Not created. -/
  | absent
  | pop
  /-- Blocked in `pthread_cond_wait` on `not_empty`. -/
  | wait
  /-- Woken, and about to test the predicate again. -/
  | retry
  | mark (job : Nat)
  | verify (job : Nat)
  | release (job : Nat)
  /-- `queue_close` after a failed pop. -/
  | close
  | flush
  | exited
  | fault
  deriving DecidableEq, Repr

/-- The next action of `main`. -/
inductive Main
  | setup
  | create (index : Nat)
  | produce (index : Nat)
  | fill (index job : Nat)
  | push (index job : Nat) (checksum : UInt64)
  /-- Blocked in `pthread_cond_wait` on `not_full`. -/
  | wait (index job : Nat) (checksum : UInt64)
  | retry (index job : Nat) (checksum : UInt64)
  /-- Deallocates a job that was not accepted. -/
  | discard (job : Nat)
  | close
  | join (index : Nat)
  | report
  | exited (code : Nat)
  /-- Returned 6: the harness could not be initialised. -/
  | refused
  | fault
  deriving DecidableEq, Repr

/-- The workers as the members that wait on `not_empty`. -/
def notEmpty : Waiters Worker where
  waits worker := worker == .wait
  awake worker := worker == .retry
  wake _ := .retry
  not_waits_of_awake worker hawake := by
    rw [beq_iff_eq] at hawake
    rw [hawake]
    rfl
  awake_wake _ _ := rfl

/-- The main thread after a wake-up on `not_full`. -/
def Main.wake : Main → Main
  | .wait index job checksum => .retry index job checksum
  | main => main

/-- The sums over the workers and the counts of the final report. -/
structure Totals where
  jobsConsumed : Nat
  duplicateJobs : Nat
  invalidJobs : Nat
  missingJobs : Nat
  abandonedJobs : Nat
  observedChecksum : UInt64
  deriving DecidableEq, Repr

/-- All that the threads share, the local variables of `main` and the next action of each thread. -/
structure State (workers : Nat) where
  /-- The live blocks. -/
  store : Nat → Option Job
  queue : JobQueue
  /-- Somebody failed to unlock the mutex of the queue. -/
  jammed : Bool
  seen : Nat → Bool
  result : Fin workers → WorkerResult
  worker : Fin workers → Worker
  main : Main
  status : RunStatus
  expectedChecksum : UInt64
  allocationAttempts : Nat
  workersStarted : Nat
  jobsProduced : Nat
  allJoined : Bool
  totals : Totals

def State.initial (config : Configuration) : State config.workers where
  store _ := none
  queue := { ring := ⟨fun _ => none, config.queueCapacity, 0, 0⟩, closed := false }
  jammed := false
  seen _ := false
  result _ := ⟨0, 0, 0, 0, false⟩
  worker _ := .absent
  main := .setup
  status := .ok
  expectedChecksum := 0
  allocationAttempts := 0
  workersStarted := 0
  jobsProduced := 0
  allJoined := true
  totals := ⟨0, 0, 0, 0, 0, 0⟩

/-- What the environment answers to the calls of an action. -/
structure Outcome (workers : Nat) where
  setupFails : Bool
  createFails : Bool
  joinFails : Bool
  lockFails : Bool
  waitFails : Bool
  unlockFails : Bool
  /-- The worker that a signal on `not_empty` wakes. -/
  woken : Option (Fin workers)
  /-- A signal on `not_full` fails. -/
  signalFails : Bool
  emptyBroadcastFails : Bool
  fullBroadcastFails : Bool
  /-- The address and the contents of a new block. -/
  allocation : Option (Nat × Job)

namespace State

variable {workers : Nat}

def goto (σ : State workers) (i : Fin workers) (worker : Worker) : State workers :=
  { σ with worker := Function.update σ.worker i worker }

def setResult (σ : State workers) (i : Fin workers) (result : WorkerResult) : State workers :=
  { σ with result := Function.update σ.result i result }

def unlock (σ : State workers) (o : Outcome workers) : State workers :=
  { σ with jammed := σ.jammed || o.unlockFails }

/-- `pthread_cond_signal(&queue->not_full)`. -/
def signalNotFull (σ : State workers) (o : Outcome workers) : State workers :=
  { σ with main := if o.signalFails then σ.main else σ.main.wake }

/-- `worker_deallocate` of a block that must be live. -/
def deallocate (store : Nat → Option Job) (job : Nat) : Option (Nat → Option Job) :=
  if (store job).isSome then some (Function.update store job none) else none

/-- `queue_pop` with the mutex held, up to the end of the critical section. -/
def popSection (σ : State workers) (i : Fin workers) (o : Outcome workers) : State workers :=
  if σ.queue.ring.count = 0 ∧ σ.queue.closed = false then
    σ.goto i .wait
  else if σ.queue.ring.count = 0 then
    (σ.unlock o).goto i .flush
  else
    let next := match σ.queue.ring.front with
      | some job => Worker.mark job
      | none => .fault
    let σ := { σ with queue.ring := (σ.queue.ring.setFront none).pop }
    ((σ.signalNotFull o).unlock o).goto i next

/-- A pop that returned an error. -/
def popError (σ : State workers) (i : Fin workers) : State workers :=
  (σ.setResult i { σ.result i with queueError := true }).goto i .close

/-- `queue_close` with the mutex held. -/
def closeSection (σ : State workers) (o : Outcome workers) : State workers :=
  let σ := { σ with
    queue.closed := true
    worker := if o.emptyBroadcastFails then σ.worker else notEmpty.broadcast σ.worker
    main := if o.fullBroadcastFails then σ.main else σ.main.wake }
  σ.unlock o

/-- The exchange on `seen` and the counts that depend on it. -/
def markJob (config : Configuration) (σ : State workers) (i : Fin workers) (job : Job) : State workers :=
  let result := σ.result i
  if job.id ≥ config.jobs then
    σ.setResult i { result with invalidJobs := result.invalidJobs + 1 }
  else
    let σ' := { σ with seen := Function.update σ.seen job.id true }
    if σ.seen job.id then
      σ'.setResult i { result with duplicateJobs := result.duplicateJobs + 1 }
    else
      σ'

def verifyJob (σ : State workers) (i : Fin workers) (job : Job) : State workers :=
  let result := σ.result i
  σ.setResult i
    { result with
      invalidJobs := if jobIsValid job then result.invalidJobs else result.invalidJobs + 1
      checksum := result.checksum + jobChecksum job
      consumed := result.consumed + 1 }

/-- The next action of a worker; `none` if it cannot take one now. -/
def stepWorker (config : Configuration) (σ : State workers) (i : Fin workers) (o : Outcome workers) :
    Option (State workers) :=
  match σ.worker i with
  | .absent | .wait | .exited | .fault => none
  | .pop =>
      if o.lockFails then some (σ.popError i)
      else if σ.jammed then none
      else some (σ.popSection i o)
  | .retry =>
      if σ.jammed then none
      else if o.waitFails then some ((σ.unlock o).popError i)
      else some (σ.popSection i o)
  | .mark job =>
      match σ.store job with
      | none => some (σ.goto i .fault)
      | some contents => some ((σ.markJob config i contents).goto i (.verify job))
  | .verify job =>
      match σ.store job with
      | none => some (σ.goto i .fault)
      | some contents => some ((σ.verifyJob i contents).goto i (.release job))
  | .release job =>
      match deallocate σ.store job with
      | none => some (σ.goto i .fault)
      | some store => some ({ σ with store := store }.goto i .pop)
  | .close =>
      if o.lockFails then some (σ.goto i .flush)
      else if σ.jammed then none
      else some ((σ.closeSection o).goto i .flush)
  | .flush => some (σ.goto i .exited)

/-- `queue_push` with the mutex held, and what `main` does with a job that was accepted. -/
def pushSection (σ : State workers) (index job : Nat) (checksum : UInt64) (o : Outcome workers) :
    State workers :=
  if σ.queue.ring.count = σ.queue.ring.capacity ∧ σ.queue.closed = false then
    { σ with main := .wait index job checksum }
  else if σ.queue.closed then
    { σ.unlock o with main := .discard job }
  else
    let σ := { σ with
      queue.ring := σ.queue.ring.push (some job)
      worker := notEmpty.signal σ.worker o.woken }
    { σ.unlock o with
      expectedChecksum := σ.expectedChecksum + checksum
      jobsProduced := σ.jobsProduced + 1
      main := .produce (index + 1) }

/-- The body of the producing loop up to the allocation; `none` if the address is in use. -/
def produceJob (config : Configuration) (σ : State workers) (index : Nat) (o : Outcome workers) :
    Option (State workers) :=
  if index = config.jobs then
    some { σ with main := .close }
  else
    let σ := { σ with allocationAttempts := σ.allocationAttempts + 1 }
    if config.failAllocationAt = σ.allocationAttempts then
      some { σ with status := .allocationFailure, main := .close }
    else if payloadSizeFor config.seed index > sizeMax - sizeofJob then
      some { σ with status := .internalError, main := .close }
    else
      match o.allocation with
      | none => some { σ with status := .allocationFailure, main := .close }
      | some (address, contents) =>
          if (σ.store address).isSome then none
          else
            some { σ with
              store := Function.update σ.store address (some contents)
              main := .fill index address }

/-- `queue_release_remaining`, on the first `n` of the jobs that remain; `none` is a fault. -/
def releaseRemaining : Nat → RingBuffer (Option Nat) → (Nat → Option Job) →
    Option (RingBuffer (Option Nat) × (Nat → Option Job))
  | 0, ring, store => some (ring, store)
  | n + 1, ring, store =>
      match ring.front with
      | none => releaseRemaining n (ring.setFront none).pop store
      | some job =>
          match deallocate store job with
          | none => none
          | some store => releaseRemaining n (ring.setFront none).pop store

/-- The workers that were created. -/
def started (σ : State workers) : List (Fin workers) :=
  (List.finRange workers).filter fun i => i.val < σ.workersStarted

/-- The sums and counts of `main`, except for `abandoned_jobs`. -/
def tally (σ : State workers) (abandoned : Nat) : Totals where
  jobsConsumed := (σ.started.map fun i => (σ.result i).consumed).sum
  duplicateJobs := (σ.started.map fun i => (σ.result i).duplicateJobs).sum
  invalidJobs := (σ.started.map fun i => (σ.result i).invalidJobs).sum
  missingJobs := ((List.range σ.jobsProduced).filter fun id => !σ.seen id).length
  abandonedJobs := abandoned
  observedChecksum := (σ.started.map fun i => (σ.result i).checksum).sum

/-- The status after the report's comparisons. -/
def judge (σ : State workers) (totals : Totals) : RunStatus :=
  if totals.jobsConsumed ≠ σ.jobsProduced ∨ totals.duplicateJobs ≠ 0 ∨ totals.invalidJobs ≠ 0 ∨
      totals.missingJobs ≠ 0 ∨ totals.abandonedJobs ≠ 0 ∨ totals.observedChecksum ≠ σ.expectedChecksum then
    .dataFailure
  else if σ.started.any fun i => (σ.result i).queueError then
    .internalError
  else
    σ.status

/-- The end of `main`. -/
def reportRun (σ : State workers) : State workers :=
  if σ.allJoined then
    match releaseRemaining σ.queue.ring.count σ.queue.ring σ.store with
    | none => { σ with main := .fault }
    | some (ring, store) =>
        let totals := σ.tally σ.queue.ring.count
        let status := σ.judge totals
        { σ with
          queue.ring := ring
          store := store
          totals := totals
          status := status
          main := .exited (statusExitCode status) }
  else
    { σ with main := .exited (statusExitCode σ.status) }

/-- The next action of `main`; `none` if it cannot take one now. -/
def stepMain (config : Configuration) (σ : State config.workers) (o : Outcome config.workers) :
    Option (State config.workers) :=
  match σ.main with
  | .wait _ _ _ | .exited _ | .refused | .fault => none
  | .setup => some { σ with main := if o.setupFails then .refused else .create 0 }
  | .create index =>
      if h : index < config.workers then
        if config.failThreadAt = index + 1 ∨ o.createFails = true then
          some { σ with status := .threadFailure, main := .close }
        else
          some { σ.goto ⟨index, h⟩ .pop with
            workersStarted := σ.workersStarted + 1
            main := .create (index + 1) }
      else
        some { σ with main := .produce 0 }
  | .produce index => σ.produceJob config index o
  | .fill index job =>
      match σ.store job with
      | none => some { σ with main := .fault }
      | some block =>
          let contents := writeJob config index block
          some { σ with
            store := Function.update σ.store job (some contents)
            main := .push index job (jobChecksum contents) }
  | .push index job checksum =>
      if o.lockFails then some { σ with main := .discard job }
      else if σ.jammed then none
      else some (σ.pushSection index job checksum o)
  | .retry index job checksum =>
      if σ.jammed then none
      else if o.waitFails then some { σ.unlock o with main := .discard job }
      else some (σ.pushSection index job checksum o)
  | .discard job =>
      match deallocate σ.store job with
      | none => some { σ with main := .fault }
      | some store => some { σ with store := store, status := .internalError, main := .close }
  | .close =>
      if o.lockFails then
        some { σ with
          status := if σ.status = .ok then .internalError else σ.status
          main := .join 0 }
      else if σ.jammed then none
      else
        let failed := o.emptyBroadcastFails || o.fullBroadcastFails || o.unlockFails
        some { σ.closeSection o with
          status := if failed ∧ σ.status = .ok then .internalError else σ.status
          main := .join 0 }
  | .join index =>
      if index = σ.workersStarted then
        some { σ with main := .report }
      else if o.joinFails then
        some { σ with allJoined := false, status := .internalError, main := .join (index + 1) }
      else if h : index < config.workers then
        if σ.worker ⟨index, h⟩ = .exited then some { σ with main := .join (index + 1) } else none
      else
        none
  | .report => some σ.reportRun

end State

/-- A thread acts, or a waiting thread is woken by nobody. -/
inductive Event (workers : Nat)
  | worker (i : Fin workers) (outcome : Outcome workers)
  | main (outcome : Outcome workers)
  | wakeWorker (i : Fin workers)
  | wakeMain

def Main.returned : Main → Bool
  | .exited _ | .refused => true
  | _ => false

/-- Nothing happens after `main` has returned. -/
def State.perform (config : Configuration) (σ : State config.workers) (event : Event config.workers) :
    Option (State config.workers) :=
  if σ.main.returned then none
  else
    match event with
    | .worker i o => σ.stepWorker config i o
    | .main o => σ.stepMain config o
    | .wakeWorker i => if σ.worker i = .wait then some (σ.goto i .retry) else none
    | .wakeMain => if σ.main.wake = σ.main then none else some { σ with main := σ.main.wake }

/-- All runs of the worker pool. -/
def workerPool (config : Configuration) : System (State config.workers) (Event config.workers) where
  init σ := σ = .initial config
  step σ e σ' := ∃ event, e = some event ∧ σ.perform config event = some σ'

end Hplf.Pool
