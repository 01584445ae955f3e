import HplfMalloc.WorkerPool

/-!
# Transitions of the worker pool

What an event does to the state, a case for each way through the code, with the conditions under which it is
taken.
-/

namespace Hplf.Pool

open Lib

/-- The block a worker has taken from the queue and not deallocated. -/
def Worker.job : Worker → Option Nat
  | .mark job | .verify job | .release job => some job
  | _ => none

/-- The block `main` has allocated and not given away. -/
def Main.job : Main → Option Nat
  | .fill _ job | .push _ job _ | .wait _ job _ | .retry _ job _ | .discard job => some job
  | _ => none

/-- Inside `queue_pop`, with the mutex. -/
def Worker.pops (worker : Worker) : Prop :=
  worker = .pop ∨ worker = .retry

/-- Inside `queue_push`, with the mutex. -/
def Main.pushes (main : Main) (index job : Nat) (checksum : UInt64) : Prop :=
  main = .push index job checksum ∨ main = .retry index job checksum

/-- An attempt that ends the production with this status. -/
def State.abandon {workers : Nat} (σ : State workers) (status : RunStatus) : State workers :=
  { σ with
    allocationAttempts := σ.allocationAttempts + 1
    status := status
    main := .close }

/-- The queue without its front. -/
def State.takeFront {workers : Nat} (σ : State workers) : State workers :=
  { σ with queue.ring := (σ.queue.ring.setFront none).pop }

variable {config : Configuration}

inductive Step (config : Configuration) (σ : State config.workers) :
    Event config.workers → State config.workers → Prop
  | popRefused {i : Fin config.workers} {o : Outcome config.workers} (hpc : σ.worker i = .pop)
      (hfails : o.lockFails = true) : Step config σ (.worker i o) (σ.popError i)
  | popFailed {i : Fin config.workers} {o : Outcome config.workers} (hpc : σ.worker i = .retry)
      (hfails : o.waitFails = true) : Step config σ (.worker i o) ((σ.unlock o).popError i)
  | popWait {i : Fin config.workers} {o : Outcome config.workers} (hpc : (σ.worker i).pops)
      (hcount : σ.queue.ring.count = 0) (hopen : σ.queue.closed = false) :
      Step config σ (.worker i o) (σ.goto i .wait)
  | popDrained {i : Fin config.workers} {o : Outcome config.workers} (hpc : (σ.worker i).pops)
      (hcount : σ.queue.ring.count = 0) (hclosed : σ.queue.closed = true) :
      Step config σ (.worker i o) ((σ.unlock o).goto i .flush)
  | popNull {i : Fin config.workers} {o : Outcome config.workers} (hpc : (σ.worker i).pops)
      (hcount : σ.queue.ring.count ≠ 0) (hfront : σ.queue.ring.front = none) :
      Step config σ (.worker i o) (((σ.takeFront.signalNotFull o).unlock o).goto i .fault)
  | popTake {i : Fin config.workers} {o : Outcome config.workers} {job : Nat} (hpc : (σ.worker i).pops)
      (hcount : σ.queue.ring.count ≠ 0) (hfront : σ.queue.ring.front = some job) :
      Step config σ (.worker i o) (((σ.takeFront.signalNotFull o).unlock o).goto i (.mark job))
  | mark {i : Fin config.workers} {o : Outcome config.workers} {job : Nat} {contents : Job}
      (hpc : σ.worker i = .mark job) (hlive : σ.store job = some contents) :
      Step config σ (.worker i o) ((σ.markJob config i contents).goto i (.verify job))
  | verify {i : Fin config.workers} {o : Outcome config.workers} {job : Nat} {contents : Job}
      (hpc : σ.worker i = .verify job) (hlive : σ.store job = some contents) :
      Step config σ (.worker i o) ((σ.verifyJob i contents).goto i (.release job))
  | release {i : Fin config.workers} {o : Outcome config.workers} {job : Nat}
      (hpc : σ.worker i = .release job) (hlive : (σ.store job).isSome = true) :
      Step config σ (.worker i o) ({ σ with store := Function.update σ.store job none }.goto i .pop)
  | workerFault {i : Fin config.workers} {o : Outcome config.workers} {job : Nat}
      (hjob : (σ.worker i).job = some job) (hdead : σ.store job = none) :
      Step config σ (.worker i o) (σ.goto i .fault)
  | workerCloseRefused {i : Fin config.workers} {o : Outcome config.workers} (hpc : σ.worker i = .close)
      (hfails : o.lockFails = true) : Step config σ (.worker i o) (σ.goto i .flush)
  | workerClose {i : Fin config.workers} {o : Outcome config.workers} (hpc : σ.worker i = .close) :
      Step config σ (.worker i o) ((σ.closeSection o).goto i .flush)
  | flush {i : Fin config.workers} {o : Outcome config.workers} (hpc : σ.worker i = .flush) :
      Step config σ (.worker i o) (σ.goto i .exited)
  | setup {o : Outcome config.workers} (hpc : σ.main = .setup) (hready : o.setupFails = false) :
      Step config σ (.main o) { σ with main := .create 0 }
  | setupRefused {o : Outcome config.workers} (hpc : σ.main = .setup) (hfails : o.setupFails = true) :
      Step config σ (.main o) { σ with main := .refused }
  | create {o : Outcome config.workers} {index : Nat} (hindex : index < config.workers)
      (hpc : σ.main = .create index) (hfail : config.failThreadAt ≠ index + 1) (hcreated : o.createFails = false) :
      Step config σ (.main o)
        { σ.goto ⟨index, hindex⟩ .pop with
          workersStarted := σ.workersStarted + 1
          main := .create (index + 1) }
  | createRefused {o : Outcome config.workers} {index : Nat} (hindex : index < config.workers)
      (hpc : σ.main = .create index) (hfails : config.failThreadAt = index + 1 ∨ o.createFails = true) :
      Step config σ (.main o) { σ with status := .threadFailure, main := .close }
  | createdAll {o : Outcome config.workers} {index : Nat} (hpc : σ.main = .create index)
      (hindex : config.workers ≤ index) : Step config σ (.main o) { σ with main := .produce 0 }
  | producedAll {o : Outcome config.workers} (hpc : σ.main = .produce config.jobs) :
      Step config σ (.main o) { σ with main := .close }
  | injected {o : Outcome config.workers} {index : Nat} (hpc : σ.main = .produce index)
      (hindex : index ≠ config.jobs) (hfail : config.failAllocationAt = σ.allocationAttempts + 1) :
      Step config σ (.main o) (σ.abandon .allocationFailure)
  | oversized {o : Outcome config.workers} {index : Nat} (hpc : σ.main = .produce index)
      (hindex : index ≠ config.jobs) (hsize : payloadSizeFor config.seed index > sizeMax - sizeofJob) :
      Step config σ (.main o) (σ.abandon .internalError)
  | unallocated {o : Outcome config.workers} {index : Nat} (hpc : σ.main = .produce index)
      (hindex : index ≠ config.jobs) (hnull : o.allocation = none) :
      Step config σ (.main o) (σ.abandon .allocationFailure)
  | allocate {o : Outcome config.workers} {index address : Nat} {contents : Job} (hpc : σ.main = .produce index)
      (hindex : index ≠ config.jobs) (hfail : config.failAllocationAt ≠ σ.allocationAttempts + 1)
      (hfresh : σ.store address = none) :
      Step config σ (.main o)
        { σ with
          allocationAttempts := σ.allocationAttempts + 1
          store := Function.update σ.store address (some contents)
          main := .fill index address }
  | fill {o : Outcome config.workers} {index job : Nat} {block : Job} (hpc : σ.main = .fill index job)
      (hlive : σ.store job = some block) :
      Step config σ (.main o)
        { σ with
          store := Function.update σ.store job (some (writeJob config index block))
          main := .push index job (jobChecksum (writeJob config index block)) }
  | mainFault {o : Outcome config.workers} {job : Nat} (hjob : σ.main.job = some job)
      (hdead : σ.store job = none) : Step config σ (.main o) { σ with main := .fault }
  | pushRefused {o : Outcome config.workers} {index job : Nat} {checksum : UInt64}
      (hpc : σ.main = .push index job checksum) (hfails : o.lockFails = true) :
      Step config σ (.main o) { σ with main := .discard job }
  | pushFailed {o : Outcome config.workers} {index job : Nat} {checksum : UInt64}
      (hpc : σ.main = .retry index job checksum) (hfails : o.waitFails = true) :
      Step config σ (.main o) { σ.unlock o with main := .discard job }
  | pushWait {o : Outcome config.workers} {index job : Nat} {checksum : UInt64}
      (hpc : σ.main.pushes index job checksum) (hcount : σ.queue.ring.count = σ.queue.ring.capacity)
      (hopen : σ.queue.closed = false) : Step config σ (.main o) { σ with main := .wait index job checksum }
  | pushClosed {o : Outcome config.workers} {index job : Nat} {checksum : UInt64}
      (hpc : σ.main.pushes index job checksum) (hclosed : σ.queue.closed = true) :
      Step config σ (.main o) { σ.unlock o with main := .discard job }
  | pushPut {o : Outcome config.workers} {index job : Nat} {checksum : UInt64}
      (hpc : σ.main.pushes index job checksum) (hroom : σ.queue.ring.count ≠ σ.queue.ring.capacity)
      (hopen : σ.queue.closed = false) :
      Step config σ (.main o)
        { σ.unlock o with
          queue.ring := σ.queue.ring.push (some job)
          worker := notEmpty.signal σ.worker o.woken
          expectedChecksum := σ.expectedChecksum + checksum
          jobsProduced := σ.jobsProduced + 1
          main := .produce (index + 1) }
  | discard {o : Outcome config.workers} {job : Nat} (hpc : σ.main = .discard job)
      (hlive : (σ.store job).isSome = true) :
      Step config σ (.main o)
        { σ with store := Function.update σ.store job none, status := .internalError, main := .close }
  | closeRefused {o : Outcome config.workers} (hpc : σ.main = .close) (hfails : o.lockFails = true) :
      Step config σ (.main o)
        { σ with status := if σ.status = .ok then .internalError else σ.status, main := .join 0 }
  | close {o : Outcome config.workers} (hpc : σ.main = .close) :
      Step config σ (.main o)
        { σ.closeSection o with
          status :=
            if (o.emptyBroadcastFails || o.fullBroadcastFails || o.unlockFails) ∧ σ.status = .ok then
              .internalError
            else σ.status
          main := .join 0 }
  | joinedAll {o : Outcome config.workers} (hpc : σ.main = .join σ.workersStarted) :
      Step config σ (.main o) { σ with main := .report }
  | joinFailed {o : Outcome config.workers} {index : Nat} (hpc : σ.main = .join index)
      (hindex : index ≠ σ.workersStarted) (hfails : o.joinFails = true) :
      Step config σ (.main o) { σ with allJoined := false, status := .internalError, main := .join (index + 1) }
  | join {o : Outcome config.workers} {index : Nat} (hpc : σ.main = .join index)
      (hindex : index ≠ σ.workersStarted) (hlt : index < config.workers)
      (hexited : σ.worker ⟨index, hlt⟩ = .exited) : Step config σ (.main o) { σ with main := .join (index + 1) }
  | report {o : Outcome config.workers} (hpc : σ.main = .report) : Step config σ (.main o) σ.reportRun
  | wakeWorker {i : Fin config.workers} (hpc : σ.worker i = .wait) :
      Step config σ (.wakeWorker i) (σ.goto i .retry)
  | wakeMain {index job : Nat} {checksum : UInt64} (hpc : σ.main = .wait index job checksum) :
      Step config σ .wakeMain { σ with main := .retry index job checksum }

variable {σ σ' : State config.workers}

theorem popSection_step {i : Fin config.workers} {o : Outcome config.workers} (hpc : (σ.worker i).pops) :
    Step config σ (.worker i o) (σ.popSection i o) := by
  unfold State.popSection
  by_cases hcount : σ.queue.ring.count = 0
  · by_cases hopen : σ.queue.closed = false
    · rw [if_pos ⟨hcount, hopen⟩]
      exact .popWait hpc hcount hopen
    · rw [if_neg fun h => hopen h.2, if_pos hcount]
      exact .popDrained hpc hcount (Bool.not_eq_false _ ▸ hopen)
  · rw [if_neg fun h => hcount h.1, if_neg hcount]
    cases hfront : σ.queue.ring.front with
    | none => exact .popNull hpc hcount hfront
    | some job => exact .popTake hpc hcount hfront

theorem pushSection_step {o : Outcome config.workers} {index job : Nat} {checksum : UInt64}
    (hpc : σ.main.pushes index job checksum) :
    Step config σ (.main o) (σ.pushSection index job checksum o) := by
  unfold State.pushSection
  by_cases hopen : σ.queue.closed = false
  · by_cases hcount : σ.queue.ring.count = σ.queue.ring.capacity
    · rw [if_pos ⟨hcount, hopen⟩]
      exact .pushWait hpc hcount hopen
    · rw [if_neg fun h => hcount h.1, if_neg (by simp [hopen])]
      exact .pushPut hpc hcount hopen
  · have hclosed : σ.queue.closed = true := Bool.not_eq_false _ ▸ hopen
    rw [if_neg fun h => hopen h.2, if_pos hclosed]
    exact .pushClosed hpc hclosed

theorem stepWorker_step {i : Fin config.workers} {o : Outcome config.workers}
    (hstep : σ.stepWorker config i o = some σ') : Step config σ (.worker i o) σ' := by
  unfold State.stepWorker at hstep
  cases hpc : σ.worker i with
  | absent | wait | exited | fault => simp [hpc] at hstep
  | pop =>
      simp only [hpc] at hstep
      split at hstep
      next hfails => exact Option.some.inj hstep ▸ .popRefused hpc hfails
      next =>
        split at hstep
        · cases hstep
        · exact Option.some.inj hstep ▸ popSection_step (.inl hpc)
  | retry =>
      simp only [hpc] at hstep
      split at hstep
      · cases hstep
      · split at hstep
        next hfails => exact Option.some.inj hstep ▸ .popFailed hpc hfails
        next => exact Option.some.inj hstep ▸ popSection_step (.inr hpc)
  | mark job =>
      simp only [hpc] at hstep
      cases hlive : σ.store job with
      | none =>
          simp only [hlive] at hstep
          exact Option.some.inj hstep ▸ .workerFault (by rw [hpc]; rfl) hlive
      | some contents =>
          simp only [hlive] at hstep
          exact Option.some.inj hstep ▸ .mark hpc hlive
  | verify job =>
      simp only [hpc] at hstep
      cases hlive : σ.store job with
      | none =>
          simp only [hlive] at hstep
          exact Option.some.inj hstep ▸ .workerFault (by rw [hpc]; rfl) hlive
      | some contents =>
          simp only [hlive] at hstep
          exact Option.some.inj hstep ▸ .verify hpc hlive
  | release job =>
      simp only [hpc, State.deallocate] at hstep
      by_cases hlive : (σ.store job).isSome = true
      · simp only [hlive, if_true] at hstep
        exact Option.some.inj hstep ▸ .release hpc hlive
      · simp only [hlive, Bool.false_eq_true, if_false] at hstep
        exact Option.some.inj hstep ▸ .workerFault (by rw [hpc]; rfl) (by simpa using hlive)
  | close =>
      simp only [hpc] at hstep
      split at hstep
      next hfails => exact Option.some.inj hstep ▸ .workerCloseRefused hpc hfails
      next =>
        split at hstep
        · cases hstep
        · exact Option.some.inj hstep ▸ .workerClose hpc
  | flush =>
      simp only [hpc] at hstep
      exact Option.some.inj hstep ▸ .flush hpc

theorem produceJob_step {o : Outcome config.workers} {index : Nat} (hpc : σ.main = .produce index)
    (hstep : σ.produceJob config index o = some σ') : Step config σ (.main o) σ' := by
  unfold State.produceJob at hstep
  by_cases hindex : index = config.jobs
  · rw [if_pos hindex] at hstep
    exact Option.some.inj hstep ▸ .producedAll (hindex ▸ hpc)
  · rw [if_neg hindex] at hstep
    by_cases hfail : config.failAllocationAt = σ.allocationAttempts + 1
    · rw [if_pos hfail] at hstep
      exact Option.some.inj hstep ▸ .injected hpc hindex hfail
    · rw [if_neg hfail] at hstep
      by_cases hsize : payloadSizeFor config.seed index > sizeMax - sizeofJob
      · rw [if_pos hsize] at hstep
        exact Option.some.inj hstep ▸ .oversized hpc hindex hsize
      · rw [if_neg hsize] at hstep
        rcases hallocation : o.allocation with _ | ⟨address, contents⟩
        · simp only [hallocation] at hstep
          exact Option.some.inj hstep ▸ .unallocated hpc hindex hallocation
        · simp only [hallocation] at hstep
          split at hstep
          · cases hstep
          next hfresh =>
            exact Option.some.inj hstep ▸ .allocate hpc hindex hfail (by simpa using hfresh)

theorem stepMain_step {o : Outcome config.workers} (hstep : σ.stepMain config o = some σ') :
    Step config σ (.main o) σ' := by
  unfold State.stepMain at hstep
  cases hpc : σ.main with
  | wait | exited | refused | fault => simp [hpc] at hstep
  | setup =>
      simp only [hpc] at hstep
      cases hready : o.setupFails with
      | false => exact Option.some.inj hstep ▸ (by simpa [hready] using Step.setup hpc hready)
      | true => exact Option.some.inj hstep ▸ (by simpa [hready] using Step.setupRefused hpc hready)
  | create index =>
      simp only [hpc] at hstep
      split at hstep
      next hindex =>
        split at hstep
        next hfails => exact Option.some.inj hstep ▸ .createRefused hindex hpc hfails
        next hcreated =>
          rw [not_or] at hcreated
          exact Option.some.inj hstep ▸ .create hindex hpc hcreated.1 (by simpa using hcreated.2)
      next hindex => exact Option.some.inj hstep ▸ .createdAll hpc (Nat.not_lt.mp hindex)
  | produce index =>
      simp only [hpc] at hstep
      exact produceJob_step hpc hstep
  | fill index job =>
      simp only [hpc] at hstep
      cases hlive : σ.store job with
      | none =>
          simp only [hlive] at hstep
          exact Option.some.inj hstep ▸ .mainFault (by rw [hpc]; rfl) hlive
      | some block =>
          simp only [hlive] at hstep
          exact Option.some.inj hstep ▸ .fill hpc hlive
  | push index job checksum =>
      simp only [hpc] at hstep
      split at hstep
      next hfails => exact Option.some.inj hstep ▸ .pushRefused hpc hfails
      next =>
        split at hstep
        · cases hstep
        · exact Option.some.inj hstep ▸ pushSection_step (.inl hpc)
  | retry index job checksum =>
      simp only [hpc] at hstep
      split at hstep
      · cases hstep
      · split at hstep
        next hfails => exact Option.some.inj hstep ▸ .pushFailed hpc hfails
        next => exact Option.some.inj hstep ▸ pushSection_step (.inr hpc)
  | discard job =>
      simp only [hpc, State.deallocate] at hstep
      by_cases hlive : (σ.store job).isSome = true
      · simp only [hlive, if_true] at hstep
        exact Option.some.inj hstep ▸ .discard hpc hlive
      · simp only [hlive, Bool.false_eq_true, if_false] at hstep
        exact Option.some.inj hstep ▸ .mainFault (by rw [hpc]; rfl) (by simpa using hlive)
  | close =>
      simp only [hpc] at hstep
      split at hstep
      next hfails => exact Option.some.inj hstep ▸ .closeRefused hpc hfails
      next =>
        split at hstep
        · cases hstep
        · exact Option.some.inj hstep ▸ .close hpc
  | join index =>
      simp only [hpc] at hstep
      split at hstep
      next hindex => exact Option.some.inj hstep ▸ .joinedAll (hindex ▸ hpc)
      next hindex =>
        split at hstep
        next hfails => exact Option.some.inj hstep ▸ .joinFailed hpc hindex hfails
        next =>
          split at hstep
          next hlt =>
            split at hstep
            next hexited => exact Option.some.inj hstep ▸ .join hpc hindex hlt hexited
            next => cases hstep
          next => cases hstep
  | report =>
      simp only [hpc] at hstep
      exact Option.some.inj hstep ▸ .report hpc

/-- Every event is one of the transitions. -/
theorem perform_step {event : Event config.workers} (hstep : σ.perform config event = some σ') :
    σ.main.returned = false ∧ Step config σ event σ' := by
  unfold State.perform at hstep
  split at hstep
  · cases hstep
  next hreturned =>
    refine ⟨Bool.eq_false_iff.mpr hreturned, ?_⟩
    cases event with
    | worker i o => exact stepWorker_step hstep
    | main o => exact stepMain_step hstep
    | wakeWorker i =>
        simp only at hstep
        split at hstep
        next hpc => exact Option.some.inj hstep ▸ .wakeWorker hpc
        next => cases hstep
    | wakeMain =>
        simp only at hstep
        split at hstep
        next => cases hstep
        next hwake =>
          cases hpc : σ.main with
          | wait index job checksum =>
              have hresult := Option.some.inj hstep
              rw [hpc] at hresult
              exact hresult ▸ .wakeMain hpc
          | _ => exact absurd (by rw [hpc]; rfl) hwake

end Hplf.Pool
