import HplfMalloc.QueueBenchmark

/-!
# Transitions of the queue benchmark

What an event does to the state, a case for each way through the code, with the conditions under which it is
taken.
-/

namespace Hplf.Queue

open Lib Hplf.Bench
open Hplf.Pool (mix64)
open Hplf.Ring (Timed)

/-- The worker's next access is to live memory. -/
def Worker.Safe (store : Nat → Option Block) : Worker → Prop
  | .fill item => (State.access store item).isSome = true
  | .check item => item.pointer = none ∨ (State.access store item).isSome = true
  | .refuse item | .release item _ => (State.deallocate store item.pointer).isSome = true
  | _ => True

section Effects

variable {threads : Nat} (σ : State threads) (i : Fin threads)

/-- `++sequence`. -/
def State.advance : State threads :=
  { σ with sequence := Function.update σ.sequence i (σ.sequence i + 1) }

def State.countMalloc : State threads :=
  σ.modifyStats i fun stats => { stats with mallocCalls := stats.mallocCalls + 1 }

def State.addChecksum (checksum : UInt64) : State threads :=
  σ.modifyStats i fun stats => { stats with checksum := stats.checksum + checksum }

/-- An item without a block. -/
def State.consumePlain (checksum : UInt64) : State threads :=
  σ.modifyStats i fun stats => { stats with checksum := stats.checksum + checksum, completed := stats.completed + 1 }

def State.consumeBlock : State threads :=
  σ.modifyStats i fun stats => { stats with freeCalls := stats.freeCalls + 1, completed := stats.completed + 1 }

def State.endAt : State threads :=
  σ.modifyStats i fun stats => { stats with endNs := σ.now i }

def State.seeTime (now : UInt64) : State threads :=
  { σ with clock := now, now := Function.update σ.now i now }

end Effects

variable {config : BenchmarkConfig}

inductive Step (config : BenchmarkConfig) (σ : State config.threads) :
    Event config.threads → State config.threads → Prop
  | skip {i : Fin config.threads} {o : Outcome config.threads} (hpc : σ.worker i = .testFailed)
      (hfailed : σ.failed = true) : Step config σ (.worker i o) (σ.goto i .idle)
  | enter {i : Fin config.threads} {o : Outcome config.threads} (hpc : σ.worker i = .testFailed)
      (hfailed : σ.failed = false) :
      Step config σ (.worker i o) (σ.goto i (if isProducer i then .produce else .pop .fresh))
  | unallocated {i : Fin config.threads} {o : Outcome config.threads} (hpc : σ.worker i = .produce)
      (hhandoff : config.workload = .handoff) (hallocation : o.allocation = none) :
      Step config σ (.worker i o) (((σ.advance i).countMalloc i).goto i (afterFailure config.threads))
  | allocate {i : Fin config.threads} {o : Outcome config.threads} {address : Nat} {bytes : Nat → UInt8}
      (hpc : σ.worker i = .produce) (hhandoff : config.workload = .handoff) (hfresh : σ.store address = none) :
      Step config σ (.worker i o)
        ({ (σ.advance i).countMalloc i with
            store := Function.update σ.store address
              (some ⟨(traceEntry config i.val (σ.sequence i)).size, bytes⟩) }.goto i
          (.fill ⟨some address, (traceEntry config i.val (σ.sequence i)).size,
            (traceEntry config i.val (σ.sequence i)).key⟩))
  | plain {i : Fin config.threads} {o : Outcome config.threads} (hpc : σ.worker i = .produce)
      (hplain : config.workload ≠ .handoff) :
      Step config σ (.worker i o)
        ((σ.advance i).goto i
          (.push ⟨none, (traceEntry config i.val (σ.sequence i)).size,
            (traceEntry config i.val (σ.sequence i)).key⟩ .fresh))
  | fill {i : Fin config.threads} {o : Outcome config.threads} {item : QueueItem} {pointer : Nat} {block : Block}
      (hpc : σ.worker i = .fill item) (haccess : State.access σ.store item = some (pointer, block)) :
      Step config σ (.worker i o)
        ({ σ with
            store := Function.update σ.store pointer
              (some { block with bytes := (payloadFill block.bytes item.size item.key).1 }) }.goto i
          (.push item .fresh))
  | fault {i : Fin config.threads} {o : Outcome config.threads} (hfault : ¬ (σ.worker i).Safe σ.store) :
      Step config σ (.worker i o) (σ.goto i .fault)
  | pushLockFails {i : Fin config.threads} {o : Outcome config.threads} {item : QueueItem}
      (hpc : σ.worker i = .push item .fresh) (hlock : o.lockFails = true) :
      Step config σ (.worker i o) (σ.goto i (.refuse item))
  | pushWait {i : Fin config.threads} {o : Outcome config.threads} {item : QueueItem} {turn : Turn}
      (hpc : σ.worker i = .push item turn) (hturn : turn ≠ .waiting) (hcount : σ.queue.count = σ.queue.capacity)
      (hfailed : σ.failed = false) : Step config σ (.worker i o) (σ.goto i (.push item .waiting))
  | pushRefused {i : Fin config.threads} {o : Outcome config.threads} {item : QueueItem} {turn : Turn}
      (hpc : σ.worker i = .push item turn) (hfailed : σ.failed = true) :
      Step config σ (.worker i o) (σ.goto i (.refuse item))
  | put {i : Fin config.threads} {o : Outcome config.threads} {item : QueueItem} {turn : Turn}
      (hpc : σ.worker i = .push item turn) (hturn : turn ≠ .waiting) (hroom : σ.queue.count ≠ σ.queue.capacity)
      (hfailed : σ.failed = false) :
      Step config σ (.worker i o)
        ({ σ with queue := σ.queue.push item, worker := notEmpty.signal σ.worker o.woken }.goto i
          (afterPush config.threads))
  | refuse {i : Fin config.threads} {o : Outcome config.threads} {item : QueueItem} {store : Nat → Option Block}
      (hpc : σ.worker i = .refuse item) (hstore : State.deallocate σ.store item.pointer = some store)
      (stats : Fin config.threads → WorkerStats) :
      Step config σ (.worker i o) ({ σ with store := store, stats := stats }.goto i (afterRefusal config.threads))
  | clockFailed {i : Fin config.threads} {o : Outcome config.threads} (hpc : σ.worker i = .readClock)
      (htime : o.time = none) :
      Step config σ (.worker i o) (σ.goto i (afterFailure config.threads))
  | clockEarly {i : Fin config.threads} {o : Outcome config.threads} {now : UInt64} (hpc : σ.worker i = .readClock)
      (htime : o.time = some now) (hclock : σ.clock ≤ now) (hearly : now < σ.deadlineNs) :
      Step config σ (.worker i o) ((σ.seeTime i now).goto i (afterClock config.threads))
  | clockLate {i : Fin config.threads} {o : Outcome config.threads} {now : UInt64} (hpc : σ.worker i = .readClock)
      (hclock : σ.clock ≤ now) (hlate : σ.deadlineNs ≤ now) :
      Step config σ (.worker i o) ((σ.seeTime i now).goto i .producerDone)
  | loop {i : Fin config.threads} {o : Outcome config.threads} (hpc : σ.worker i = .testLoop)
      (hfailed : σ.failed = false) : Step config σ (.worker i o) (σ.goto i .produce)
  | leave {i : Fin config.threads} {o : Outcome config.threads} (hpc : σ.worker i = .testLoop)
      (hfailed : σ.failed = true) : Step config σ (.worker i o) (σ.goto i .producerDone)
  | abort {i : Fin config.threads} {o : Outcome config.threads} (hpc : σ.worker i = .abort) :
      Step config σ (.worker i o) ({ σ with failed := true }.goto i .abortBroadcast)
  | abortBroadcast {i : Fin config.threads} {o : Outcome config.threads} (hpc : σ.worker i = .abortBroadcast) :
      Step config σ (.worker i o) (σ.queueAbort.goto i (if isProducer i then .producerDone else .reportFailure))
  | producerDone {i : Fin config.threads} {o : Outcome config.threads} (hpc : σ.worker i = .producerDone) :
      Step config σ (.worker i o) (σ.queueProducerDone.goto i .finish)
  | popLockFails {i : Fin config.threads} {o : Outcome config.threads} (hpc : σ.worker i = .pop .fresh)
      (hlock : o.lockFails = true) : Step config σ (.worker i o) (σ.goto i .reportFailure)
  | popWait {i : Fin config.threads} {o : Outcome config.threads} {turn : Turn} (hpc : σ.worker i = .pop turn)
      (hturn : turn ≠ .waiting) (hcount : σ.queue.count = 0) (hremaining : σ.producersRemaining ≠ 0)
      (hfailed : σ.failed = false) : Step config σ (.worker i o) (σ.goto i (.pop .waiting))
  | popDrained {i : Fin config.threads} {o : Outcome config.threads} {turn : Turn} (hpc : σ.worker i = .pop turn)
      (hcount : σ.queue.count = 0) (hend : σ.producersRemaining = 0 ∨ σ.failed = true) :
      Step config σ (.worker i o) (σ.goto i (afterDrained config.threads))
  | take {i : Fin config.threads} {o : Outcome config.threads} {turn : Turn} (hpc : σ.worker i = .pop turn)
      (hturn : turn ≠ .waiting) (hcount : σ.queue.count ≠ 0) :
      Step config σ (.worker i o)
        ({ σ with queue := σ.queue.pop, worker := notFull.signal σ.worker o.woken }.goto i (.check σ.queue.front))
  | checkPlain {i : Fin config.threads} {o : Outcome config.threads} {item : QueueItem} (hpc : σ.worker i = .check item)
      (hpointer : item.pointer = none) :
      Step config σ (.worker i o) ((σ.consumePlain i (mix64 item.key)).goto i (afterItem config.threads))
  | checkInvalid {i : Fin config.threads} {o : Outcome config.threads} {item : QueueItem} {pointer : Nat}
      {block : Block} (hpc : σ.worker i = .check item) (haccess : State.access σ.store item = some (pointer, block))
      (hcheck : payloadCheck block.bytes item.size item.key = none) :
      Step config σ (.worker i o) (σ.goto i (.release item false))
  | checkValid {i : Fin config.threads} {o : Outcome config.threads} {item : QueueItem} {pointer : Nat} {block : Block}
      {observed : UInt64} (hpc : σ.worker i = .check item)
      (haccess : State.access σ.store item = some (pointer, block))
      (hcheck : payloadCheck block.bytes item.size item.key = some observed) :
      Step config σ (.worker i o) ((σ.addChecksum i observed).goto i (.release item true))
  | release {i : Fin config.threads} {o : Outcome config.threads} {item : QueueItem} {store : Nat → Option Block}
      (hpc : σ.worker i = .release item true) (hstore : State.deallocate σ.store item.pointer = some store) :
      Step config σ (.worker i o) (({ σ with store := store }.consumeBlock i).goto i (afterItem config.threads))
  | releaseInvalid {i : Fin config.threads} {o : Outcome config.threads} {item : QueueItem}
      {store : Nat → Option Block} (hpc : σ.worker i = .release item false)
      (hstore : State.deallocate σ.store item.pointer = some store) :
      Step config σ (.worker i o) ({ σ with store := store }.goto i (afterFailure config.threads))
  | endFailed {i : Fin config.threads} {o : Outcome config.threads} (hpc : σ.worker i = .readEnd)
      (htime : o.time = none) :
      Step config σ (.worker i o) (σ.goto i .reportFailure)
  | readEnd {i : Fin config.threads} {o : Outcome config.threads} {now : UInt64} (hpc : σ.worker i = .readEnd)
      (hclock : σ.clock ≤ now) : Step config σ (.worker i o) ((σ.seeTime i now).goto i .finish)
  | finish {i : Fin config.threads} {o : Outcome config.threads} (hpc : σ.worker i = .finish)
      (hsuccess : config.threads = 1 ∨ σ.failed = false) : Step config σ (.worker i o) ((σ.endAt i).goto i .idle)
  | finishFailed {i : Fin config.threads} {o : Outcome config.threads} (hpc : σ.worker i = .finish)
      (hfailed : σ.failed = true) : Step config σ (.worker i o) ((σ.endAt i).goto i .reportFailure)
  | reportFailure {i : Fin config.threads} {o : Outcome config.threads} (hpc : σ.worker i = .reportFailure) :
      Step config σ (.worker i o) ({ σ with failed := true }.goto i .idle)
  | wake {i : Fin config.threads} (hwaits : (σ.worker i).wake ≠ σ.worker i) :
      Step config σ (.wake i) (σ.goto i (σ.worker i).wake)
  | refused {o : Outcome config.threads} {error : String} (hpc : σ.main = .prepare)
      (herror : error ≠ State.invalidTimer)
      (hcause : State.InRange config → o.prepareFails = true ∨ generateTraces config = none ∨ o.createFails = true) :
      Step config σ (.main o) (σ.fail error)
  | prepare {o : Outcome config.threads} (hpc : σ.main = .prepare) (hrange : State.InRange config) :
      Step config σ (.main o) { σ with main := .openPhase .warmup }
  | stop {o : Outcome config.threads} {phase : Timed} (hpc : σ.main = .openPhase phase)
      (hidle : ∀ i, σ.worker i = .idle) (hfailed : σ.failed = true) :
      Step config σ (.main o) (σ.fail State.workerFailed)
  | stopClock {o : Outcome config.threads} {phase : Timed} (hpc : σ.main = .openPhase phase)
      (hidle : ∀ i, σ.worker i = .idle) (hfailed : σ.failed = false) {clock : UInt64} (hclock : σ.clock ≤ clock)
      (hcause : ∀ start, o.time = some start → ¬ State.durationOf config phase ≤ 18446744073709551615 - start) :
      Step config σ (.main o) ({ σ.resetPhaseState with clock := clock }.fail State.workerFailed)
  | openPhase {o : Outcome config.threads} {phase : Timed} {start : UInt64} (hpc : σ.main = .openPhase phase)
      (hidle : ∀ i, σ.worker i = .idle) (hfailed : σ.failed = false) (hclock : σ.clock ≤ start)
      (hduration : State.durationOf config phase ≤ 18446744073709551615 - start) :
      Step config σ (.main o)
        { σ.resetPhaseState.enterPhase with
          clock := start
          deadlineNs := start + State.durationOf config phase
          measurementStartNs := if phase = .measurement then start else σ.measurementStartNs
          main := State.afterPhase phase }
  | joinFails {o : Outcome config.threads} {index : Nat} {success : Bool} (hpc : σ.main = .join index success)
      (hindex : index < config.threads) (hjoin : o.joinFails = true) :
      Step config σ (.main o) { σ with main := .join (index + 1) false }
  | join {o : Outcome config.threads} {index : Nat} {success : Bool} (hpc : σ.main = .join index success)
      (hindex : index < config.threads) (hidle : σ.worker ⟨index, hindex⟩ = .idle) :
      Step config σ (.main o) { σ with main := .join (index + 1) success }
  | conclude {o : Outcome config.threads} {index : Nat} {success : Bool} (hpc : σ.main = .join index success)
      (hindex : config.threads ≤ index) :
      Step config σ (.main o) { σ with main := .returned (σ.conclude config success o) }

variable {σ σ' : State config.threads} {i : Fin config.threads} {o : Outcome config.threads}

theorem readTime_cases {threads : Nat} {σ τ failure : State threads} {o : Outcome threads}
    {success : UInt64 → State threads → State threads} (hread : σ.readTime o failure success = some τ) :
    o.time = none ∧ τ = failure ∨
      ∃ now, o.time = some now ∧ σ.clock ≤ now ∧ τ = success now { σ with clock := now } := by
  unfold State.readTime at hread
  split at hread
  next htime => exact .inl ⟨htime, (Option.some.inj hread).symm⟩
  next now htime =>
    split at hread
    · cases hread
    next hclock => exact .inr ⟨now, htime, UInt64.not_lt.mp hclock, (Option.some.inj hread).symm⟩

theorem produceItem_step (hpc : σ.worker i = .produce) (hstep : σ.produceItem config i o = some σ') :
    Step config σ (.worker i o) σ' := by
  unfold State.produceItem at hstep
  by_cases hhandoff : config.workload = .handoff
  · simp only [if_pos hhandoff] at hstep
    rcases hallocation : o.allocation with _ | ⟨address, bytes⟩
    · simp only [hallocation] at hstep
      exact Option.some.inj hstep ▸ .unallocated hpc hhandoff hallocation
    · simp only [hallocation] at hstep
      split at hstep
      · cases hstep
      next hfresh => exact Option.some.inj hstep ▸ .allocate hpc hhandoff (by simpa [State.modifyStats] using hfresh)
  · simp only [if_neg hhandoff] at hstep
    exact Option.some.inj hstep ▸ .plain hpc hhandoff

theorem fillItem_step {item : QueueItem} (hpc : σ.worker i = .fill item) :
    Step config σ (.worker i o) (σ.fillItem i item) := by
  unfold State.fillItem
  rcases haccess : State.access σ.store item with _ | ⟨pointer, block⟩
  · refine .fault ?_
    rw [hpc, Worker.Safe, haccess]
    exact Bool.false_ne_true
  · exact .fill hpc haccess

theorem queuePush_step {item : QueueItem} {turn : Turn} (hpc : σ.worker i = .push item turn) (hturn : turn ≠ .waiting) :
    Step config σ (.worker i o) (σ.queuePush i item turn o) := by
  unfold State.queuePush
  by_cases hlock : turn = .fresh ∧ o.lockFails = true
  · rw [if_pos hlock]
    exact .pushLockFails (hlock.1 ▸ hpc) hlock.2
  rw [if_neg hlock]
  by_cases hfailed : σ.failed = false
  · by_cases hcount : σ.queue.count = σ.queue.capacity
    · rw [if_pos ⟨hcount, hfailed⟩]
      exact .pushWait hpc hturn hcount hfailed
    · rw [if_neg fun h => hcount h.1, if_neg (by simp [hfailed])]
      exact .put hpc hturn hcount hfailed
  · have hfailed' : σ.failed = true := Bool.not_eq_false _ ▸ hfailed
    rw [if_neg fun h => hfailed h.2, if_pos hfailed']
    exact .pushRefused hpc hfailed'

theorem queuePop_step {turn : Turn} (hpc : σ.worker i = .pop turn) (hturn : turn ≠ .waiting) :
    Step config σ (.worker i o) (σ.queuePop i turn o) := by
  unfold State.queuePop
  by_cases hlock : turn = .fresh ∧ o.lockFails = true
  · rw [if_pos hlock]
    exact .popLockFails (hlock.1 ▸ hpc) hlock.2
  rw [if_neg hlock]
  by_cases hcount : σ.queue.count = 0
  · by_cases hwait : σ.producersRemaining ≠ 0 ∧ σ.failed = false
    · rw [if_pos ⟨hcount, hwait⟩]
      exact .popWait hpc hturn hcount hwait.1 hwait.2
    · rw [if_neg fun h => hwait h.2, if_pos hcount]
      refine .popDrained hpc hcount ?_
      by_cases hremaining : σ.producersRemaining = 0
      · exact .inl hremaining
      · exact .inr (Bool.not_eq_false _ ▸ fun hfailed => hwait ⟨hremaining, hfailed⟩)
  · rw [if_neg fun h => hcount h.1, if_neg hcount]
    exact .take hpc hturn hcount

theorem refuseItem_step {item : QueueItem} (hpc : σ.worker i = .refuse item) :
    Step config σ (.worker i o) (σ.refuseItem i item) := by
  unfold State.refuseItem
  rcases hstore : State.deallocate σ.store item.pointer with _ | store
  · refine .fault ?_
    rw [hpc, Worker.Safe, hstore]
    exact Bool.false_ne_true
  · simp only
    split
    · exact .refuse hpc hstore _
    · exact .refuse hpc hstore σ.stats

theorem checkItem_step {item : QueueItem} (hpc : σ.worker i = .check item) :
    Step config σ (.worker i o) (σ.checkItem i item) := by
  unfold State.checkItem
  cases hpointer : item.pointer with
  | none => exact .checkPlain hpc hpointer
  | some pointer =>
      simp only
      rcases haccess : State.access σ.store item with _ | ⟨pointer, block⟩
      · refine .fault ?_
        rw [hpc, Worker.Safe, haccess, hpointer]
        rintro (hnone | hsome)
        · cases hnone
        · cases hsome
      · simp only
        cases hcheck : payloadCheck block.bytes item.size item.key with
        | none => exact .checkInvalid hpc haccess hcheck
        | some observed => exact .checkValid hpc haccess hcheck

theorem releaseItem_step {item : QueueItem} {valid : Bool} (hpc : σ.worker i = .release item valid) :
    Step config σ (.worker i o) (σ.releaseItem i item valid) := by
  unfold State.releaseItem
  rcases hstore : State.deallocate σ.store item.pointer with _ | store
  · refine .fault ?_
    rw [hpc, Worker.Safe, hstore]
    exact Bool.false_ne_true
  · cases valid with
    | true => exact .release hpc hstore
    | false => exact .releaseInvalid hpc hstore

theorem stepWorker_step (hstep : σ.stepWorker config i o = some σ') : Step config σ (.worker i o) σ' := by
  unfold State.stepWorker at hstep
  cases hpc : σ.worker i with
  | idle | fault => simp [hpc] at hstep
  | testFailed =>
      simp only [hpc] at hstep
      cases hfailed : σ.failed with
      | true => exact Option.some.inj hstep ▸ (by simpa [hfailed] using Step.skip hpc hfailed)
      | false => exact Option.some.inj hstep ▸ (by simpa [hfailed] using Step.enter hpc hfailed)
  | produce =>
      simp only [hpc] at hstep
      exact produceItem_step hpc hstep
  | fill item =>
      simp only [hpc] at hstep
      exact Option.some.inj hstep ▸ fillItem_step hpc
  | push item turn =>
      have hturn : turn ≠ .waiting := by
        rintro rfl
        simp [hpc] at hstep
      cases turn with
      | waiting => exact absurd rfl hturn
      | fresh | woken =>
          simp only [hpc] at hstep
          exact Option.some.inj hstep ▸ queuePush_step hpc hturn
  | refuse item =>
      simp only [hpc] at hstep
      exact Option.some.inj hstep ▸ refuseItem_step hpc
  | readClock =>
      simp only [hpc] at hstep
      rcases readTime_cases hstep with ⟨htime, rfl⟩ | ⟨now, htime, hclock, rfl⟩
      · exact .clockFailed hpc htime
      · by_cases hearly : now < σ.deadlineNs
        · simp only [if_pos hearly]
          exact .clockEarly hpc htime hclock hearly
        · simp only [if_neg hearly]
          exact .clockLate hpc hclock (UInt64.not_lt.mp hearly)
  | testLoop =>
      simp only [hpc] at hstep
      cases hfailed : σ.failed with
      | true => exact Option.some.inj hstep ▸ (by simpa [hfailed] using Step.leave hpc hfailed)
      | false => exact Option.some.inj hstep ▸ (by simpa [hfailed] using Step.loop hpc hfailed)
  | abort =>
      simp only [hpc] at hstep
      exact Option.some.inj hstep ▸ .abort hpc
  | abortBroadcast =>
      simp only [hpc] at hstep
      exact Option.some.inj hstep ▸ .abortBroadcast hpc
  | producerDone =>
      simp only [hpc] at hstep
      exact Option.some.inj hstep ▸ .producerDone hpc
  | pop turn =>
      have hturn : turn ≠ .waiting := by
        rintro rfl
        simp [hpc] at hstep
      cases turn with
      | waiting => exact absurd rfl hturn
      | fresh | woken =>
          simp only [hpc] at hstep
          exact Option.some.inj hstep ▸ queuePop_step hpc hturn
  | check item =>
      simp only [hpc] at hstep
      exact Option.some.inj hstep ▸ checkItem_step hpc
  | release item valid =>
      simp only [hpc] at hstep
      exact Option.some.inj hstep ▸ releaseItem_step hpc
  | readEnd =>
      simp only [hpc] at hstep
      rcases readTime_cases hstep with ⟨htime, rfl⟩ | ⟨now, htime, hclock, rfl⟩
      · exact .endFailed hpc htime
      · exact .readEnd hpc hclock
  | finish =>
      simp only [hpc] at hstep
      by_cases hfailed : config.threads ≠ 1 ∧ σ.failed = true
      · simp only [if_pos hfailed] at hstep
        exact Option.some.inj hstep ▸ .finishFailed hpc hfailed.2
      · simp only [if_neg hfailed] at hstep
        refine Option.some.inj hstep ▸ .finish hpc ?_
        by_cases hsolo : config.threads = 1
        · exact .inl hsolo
        · exact .inr (Bool.eq_false_iff.mpr fun htrue => hfailed ⟨hsolo, htrue⟩)
  | reportFailure =>
      simp only [hpc] at hstep
      exact Option.some.inj hstep ▸ .reportFailure hpc

theorem openPhase_step {phase : Timed} (hpc : σ.main = .openPhase phase) (hidle : ∀ i, σ.worker i = .idle)
    (hfailed : σ.failed = false) (hstep : σ.resetPhaseState.openPhase config phase o = some σ') :
    Step config σ (.main o) σ' := by
  rcases readTime_cases hstep with ⟨htime, rfl⟩ | ⟨start, htime, hclock, rfl⟩
  · refine .stopClock hpc hidle hfailed (UInt64.le_refl _) fun start hsome => ?_
    rw [htime] at hsome
    cases hsome
  · split
    next hduration => exact .openPhase hpc hidle hfailed hclock hduration
    next hduration =>
      refine .stopClock hpc hidle hfailed hclock fun start' hsome => ?_
      cases Option.some.inj (htime.symm.trans hsome)
      exact hduration

theorem stepMain_step (hstep : σ.stepMain config o = some σ') : Step config σ (.main o) σ' := by
  unfold State.stepMain at hstep
  cases hpc : σ.main with
  | returned result => simp [hpc] at hstep
  | prepare =>
      simp only [hpc] at hstep
      split at hstep
      next hrange => exact Option.some.inj hstep ▸ .refused hpc (by decide) fun hinside => absurd hinside hrange
      next hrange =>
        split at hstep
        next hfails =>
          refine Option.some.inj hstep ▸ .refused hpc (by decide) fun _ => ?_
          exact hfails.imp id .inl
        · split at hstep
          next hfails => exact Option.some.inj hstep ▸ .refused hpc (by decide) fun _ => .inr (.inr hfails)
          · exact Option.some.inj hstep ▸ .prepare hpc (Decidable.not_not.mp hrange)
  | openPhase phase =>
      simp only [hpc] at hstep
      split at hstep
      next hidle =>
        cases hfailed : σ.failed with
        | true =>
            rw [if_pos hfailed] at hstep
            exact Option.some.inj hstep ▸ .stop hpc hidle hfailed
        | false =>
            rw [if_neg (by rw [hfailed]; exact Bool.false_ne_true)] at hstep
            exact openPhase_step hpc hidle hfailed hstep
      next => cases hstep
  | join index success =>
      simp only [hpc] at hstep
      split at hstep
      next hindex =>
        split at hstep
        next hjoin => exact Option.some.inj hstep ▸ .joinFails hpc hindex hjoin
        next =>
          split at hstep
          next hidle => exact Option.some.inj hstep ▸ .join hpc hindex hidle
          next => cases hstep
      next hindex => exact Option.some.inj hstep ▸ .conclude hpc (Nat.le_of_not_lt hindex)

/-- Every event is one of the transitions, before `benchmark_run` has returned. -/
theorem perform_step {event : Event config.threads} (hstep : σ.perform config event = some σ') :
    Step config σ event σ' ∧ σ.main.running = true := by
  unfold State.perform at hstep
  split at hstep
  next hrunning =>
    refine ⟨?_, hrunning⟩
    cases event with
    | worker i o => exact stepWorker_step hstep
    | main o => exact stepMain_step hstep
    | wake i =>
        simp only at hstep
        split at hstep
        · cases hstep
        next hwaits => exact Option.some.inj hstep ▸ .wake hwaits
  next => cases hstep

end Hplf.Queue
