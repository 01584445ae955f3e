import HplfMalloc.Lib.Barrier
import HplfMalloc.Lib.Transition

/-!
# The ring benchmark

`benchmark_run` with the ring workload: the main thread and the workers in `run_worker` and `run_ring_phase`,
interleaved at their accesses to shared data. The outcome of an action is what the environment answers: whether
an allocation, a payload check, a clock, a thread creation or a join succeeds, and whether the deadline is still
ahead.
`prepare_slots` holds no slot in this workload and succeeds, and `cleanup_slots` finds nothing to release.
-/

namespace Hplf.Ring

open Lib

inductive Timed
  | warmup
  | measurement
  deriving DecidableEq, Repr

/-- `enum run_phase`; `prepare` is `PHASE_PREPARE_WARMUP` or `PHASE_PREPARE_MEASUREMENT`. -/
inductive RunPhase
  | waiting
  | prepare (phase : Timed)
  | timed (phase : Timed)
  | stop
  deriving DecidableEq, Repr

/-- The three waits of a round on `ring_barrier`: for the entries, for the reads and for the stop choice. -/
inductive RingWait
  | entries
  | reads
  | choice
  deriving DecidableEq, Repr

/-- The next action of `run_worker`. -/
inductive Worker
  /-- Not created. -/
  | absent
  | signalReady
  | awaitPrepare (phase : Timed)
  /-- `prepare_slots` and the signal that follows it. -/
  | signalPrepared (phase : Timed)
  | awaitPhase (phase : Timed)
  /-- The load of `failed` that decides whether the phase is run. -/
  | testFailed (phase : Timed)
  | allocate (phase : Timed)
  | sendOutgoing (phase : Timed) (outgoing : Bool)
  | arrive (phase : Timed) (wait : RingWait)
  /-- Waits at the barrier, in the generation of its arrival. -/
  | blocked (phase : Timed) (wait : RingWait) (generation : Nat)
  | receive (phase : Timed)
  | checkIncoming (phase : Timed) (incoming : Bool)
  | decideStop (phase : Timed)
  | raiseStop (phase : Timed)
  | testStop (phase : Timed)
  /-- The end of `run_ring_phase`. -/
  | finish (phase : Timed)
  /-- The store to `failed` after a phase that returned zero. -/
  | reportFailure (phase : Timed)
  /-- `cleanup_slots` and, after the warmup, the signal that follows it. -/
  | cleanup (phase : Timed)
  | flush
  | exited
  deriving DecidableEq, Repr

/-- The next action of `benchmark_run`. -/
inductive Main
  | create (created : Nat)
  | awaitReady
  | openPrepare (phase : Timed)
  | awaitPrepared (phase : Timed)
  | resetPhaseState (phase : Timed)
  /-- The load of `failed` and the deadline. -/
  | testFailed (phase : Timed)
  | openPhase (phase : Timed)
  | awaitWarmupDone
  | testWarmup
  | stop (created : Nat)
  | join (success : Bool) (created joined : Nat)
  | judge (success : Bool)
  | returned (success : Bool)
  deriving DecidableEq, Repr

/-- `struct run_context` and the next actions of all threads. A mailbox says whether its pointer is nonnull;
`prepared` is `warmup_ready` or `measurement_ready`. `waits` counts, for each phase, the calls of
`pthread_barrier_wait` a worker has made. -/
structure RunContext (threads : Nat) where
  phase : RunPhase
  ready : Nat
  prepared : Timed → Nat
  warmupDone : Nat
  failed : Bool
  ringStop : Bool
  mailboxes : Fin threads → Bool
  ringBarrier : Barrier
  worker : Fin threads → Worker
  main : Main
  waits : Timed → Fin threads → Nat

variable {threads : Nat}

/-- `prepare_run`. -/
def RunContext.initial (threads : Nat) : RunContext threads where
  phase := .waiting
  ready := 0
  prepared _ := 0
  warmupDone := 0
  failed := false
  ringStop := false
  mailboxes _ := false
  ringBarrier := ⟨0, 0⟩
  worker _ := .absent
  main := .create 0
  waits _ _ := 0

namespace RunContext

def goto (run : RunContext threads) (index : Fin threads) (worker : Worker) : RunContext threads :=
  { run with worker := Function.update run.worker index worker }

/-- `wait_for_phase`, once it can return: to `opened`, or to `stopped` in the stop phase. -/
def waitForPhase (run : RunContext threads) (index : Fin threads) (phase : RunPhase)
    (opened stopped : Worker) : Option (RunContext threads) :=
  if run.phase = .stop then
    some (run.goto index stopped)
  else if run.phase = phase then
    some (run.goto index opened)
  else
    none

/-- `(worker->index + 1) % run->config->threads`. -/
def successor (index : Fin threads) : Fin threads :=
  ⟨(index.val + 1) % threads, Nat.mod_lt _ index.pos⟩

/-- What follows a wait. -/
def afterWait (phase : Timed) : RingWait → Worker
  | .entries => .receive phase
  | .reads => .decideStop phase
  | .choice => .testStop phase

/-- `pthread_barrier_wait`: the last to arrive releases the others and goes on. -/
def barrierWait (run : RunContext threads) (index : Fin threads) (phase : Timed) (wait : RingWait) :
    RunContext threads :=
  let (barrier, last) := run.ringBarrier.arrive threads
  { run with
    ringBarrier := barrier
    waits := Function.update run.waits phase
      (Function.update (run.waits phase) index (run.waits phase index + 1))
    worker := Function.update run.worker index
      (if last then afterWait phase wait else .blocked phase wait run.ringBarrier.generation) }

/-- The next action of a worker; `none` if it cannot take one now. -/
def stepWorker (run : RunContext threads) (index : Fin threads) (outcome : Bool) :
    Option (RunContext threads) :=
  match run.worker index with
  | .absent | .exited => none
  | .signalReady => some ({ run with ready := run.ready + 1 }.goto index (.awaitPrepare .warmup))
  | .awaitPrepare phase => run.waitForPhase index (.prepare phase) (.signalPrepared phase) .flush
  | .signalPrepared phase =>
      some ({ run with prepared := Function.update run.prepared phase (run.prepared phase + 1) }.goto index
        (.awaitPhase phase))
  | .awaitPhase phase => run.waitForPhase index (.timed phase) (.testFailed phase) .flush
  | .testFailed phase => some (run.goto index (if run.failed then .cleanup phase else .allocate phase))
  | .allocate phase =>
      some ({ run with failed := run.failed || !outcome }.goto index (.sendOutgoing phase outcome))
  | .sendOutgoing phase outgoing =>
      some ({ run with mailboxes := Function.update run.mailboxes (successor index) outgoing }.goto index
        (.arrive phase .entries))
  | .arrive phase wait => some (run.barrierWait index phase wait)
  | .blocked phase wait generation =>
      if run.ringBarrier.generation = generation then none else some (run.goto index (afterWait phase wait))
  | .receive phase => some (run.goto index (.checkIncoming phase (run.mailboxes index)))
  | .checkIncoming phase incoming =>
      some ({ run with failed := run.failed || incoming && !outcome }.goto index (.arrive phase .reads))
  | .decideStop phase =>
      some (run.goto index
        (if index.val = 0 ∧ (outcome = false ∨ run.failed = true) then .raiseStop phase
          else .arrive phase .choice))
  | .raiseStop phase => some ({ run with ringStop := true }.goto index (.arrive phase .choice))
  | .testStop phase => some (run.goto index (if run.ringStop then .finish phase else .allocate phase))
  | .finish phase =>
      some (run.goto index (if outcome && !run.failed then .cleanup phase else .reportFailure phase))
  | .reportFailure phase => some ({ run with failed := true }.goto index (.cleanup phase))
  | .cleanup .warmup =>
      some ({ run with warmupDone := run.warmupDone + 1 }.goto index (.awaitPrepare .measurement))
  | .cleanup .measurement => some (run.goto index .flush)
  | .flush => some (run.goto index .exited)

/-- The next action of the main thread; `none` if it cannot take one now. -/
def stepMain (run : RunContext threads) (outcome : Bool) : Option (RunContext threads) :=
  match run.main with
  | .create created =>
      if h : created < threads then
        if outcome then
          some { run.goto ⟨created, h⟩ .signalReady with main := .create (created + 1) }
        else
          some { run with main := .stop created }
      else
        some { run with main := .awaitReady }
  | .awaitReady => if run.ready = threads then some { run with main := .openPrepare .warmup } else none
  | .openPrepare phase => some { run with phase := .prepare phase, main := .awaitPrepared phase }
  | .awaitPrepared phase =>
      if run.prepared phase = threads then some { run with main := .resetPhaseState phase } else none
  | .resetPhaseState phase => some { run with ringStop := false, main := .testFailed phase }
  | .testFailed phase =>
      some { run with main := if run.failed = true ∨ outcome = false then .stop threads else .openPhase phase }
  | .openPhase .warmup => some { run with phase := .timed .warmup, main := .awaitWarmupDone }
  | .openPhase .measurement => some { run with phase := .timed .measurement, main := .join true threads 0 }
  | .awaitWarmupDone => if run.warmupDone = threads then some { run with main := .testWarmup } else none
  | .testWarmup =>
      some { run with main := if run.failed then .stop threads else .openPrepare .measurement }
  | .stop created => some { run with phase := .stop, main := .join false created 0 }
  | .join success created joined =>
      if h : joined < threads ∧ joined < created then
        if run.worker ⟨joined, h.1⟩ = .exited then
          some { run with main := .join (success && outcome) created (joined + 1) }
        else
          none
      else
        some { run with main := .judge success }
  | .judge success => some { run with main := .returned (success && !run.failed) }
  | .returned _ => none

end RunContext

/-- A thread acts, with the outcome the environment gives it. -/
inductive Event (threads : Nat)
  | worker (index : Fin threads) (outcome : Bool)
  | main (outcome : Bool)
  deriving DecidableEq, Repr

def RunContext.perform (run : RunContext threads) : Event threads → Option (RunContext threads)
  | .worker index outcome => run.stepWorker index outcome
  | .main outcome => run.stepMain outcome

/-- All runs of the benchmark, whatever the interleaving and the outcomes. -/
def benchmark (threads : Nat) : System (RunContext threads) (Event threads) where
  init run := run = .initial threads
  step run e run' := ∃ event, e = some event ∧ run.perform event = some run'

end Hplf.Ring
