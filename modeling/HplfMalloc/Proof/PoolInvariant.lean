import HplfMalloc.Proof.PoolBooks

/-!
# The invariant of the worker pool

Where each thread can be, with what it knows there, and the books. Every transition keeps it, whatever fails.
-/

namespace Hplf.Pool

open Lib
open scoped BigOperators

/-- What `parse_arguments` lets through. -/
structure Configuration.Accepted (config : Configuration) : Prop where
  workers_pos : 0 < config.workers
  capacity_pos : 0 < config.queueCapacity
  thread_le : config.failThreadAt ≤ config.workers
  allocation_le : config.failAllocationAt ≤ config.jobs

/-- No further job comes out of the queue. -/
def JobQueue.Drained (queue : JobQueue) : Prop :=
  queue.closed = true ∧ queue.ring.count = 0

/-- A worker leaves its loop after an error or at the end of the jobs. -/
def Worker.Fine (drained : Prop) (queueError : Bool) : Worker → Prop
  | .flush | .exited => queueError = true ∨ drained
  | .close => queueError = true
  | .fault => False
  | _ => True

/-- All was done that was asked for. -/
def State.Complete {config : Configuration} (σ : State config.workers) : Prop :=
  σ.jobsProduced = config.jobs ∧ σ.workersStarted = config.workers

/-- What the final report says when all workers were joined. -/
structure Accounted {config : Configuration} (σ : State config.workers) : Prop where
  consumed_add_abandoned : σ.totals.jobsConsumed + σ.totals.abandonedJobs = σ.jobsProduced
  missing : σ.totals.missingJobs = σ.totals.abandonedJobs
  duplicate : σ.totals.duplicateJobs = 0
  invalid : σ.totals.invalidJobs = 0
  observed : σ.totals.observedChecksum
    = ((Multiset.range σ.totals.jobsConsumed).map (taskChecksum config)).sum
  expected : σ.expectedChecksum = ((Multiset.range σ.jobsProduced).map (taskChecksum config)).sum
  released : ∀ job, σ.store job = none
  abandoned : σ.totals.abandonedJobs ≠ 0 →
    σ.workersStarted = config.workers ∧ ∀ i, (σ.result i).queueError = true
  dataFailure : σ.status = .dataFailure ↔ σ.totals.abandonedJobs ≠ 0
  ok : σ.status = .ok → σ.Complete ∧ ∀ i, (σ.result i).queueError = false

/-- What holds where `main` is. -/
def Main.At {config : Configuration} (σ : State config.workers) : Main → Prop
  | .setup => σ.workersStarted = 0 ∧ σ.jobsProduced = 0 ∧ σ.status = .ok
  | .create index => index = σ.workersStarted ∧ σ.jobsProduced = 0 ∧ σ.status = .ok
  | .produce index =>
      index = σ.jobsProduced ∧ index ≤ config.jobs ∧ σ.workersStarted = config.workers ∧ σ.status = .ok
  | .fill index _ | .push index _ _ | .wait index _ _ | .retry index _ _ =>
      index = σ.jobsProduced ∧ index < config.jobs ∧ σ.workersStarted = config.workers ∧ σ.status = .ok
  | .discard _ => σ.status = .ok
  | .close => σ.status = .ok → σ.Complete
  | .join index =>
      index ≤ σ.workersStarted ∧ (σ.status = .ok → σ.Complete) ∧
        (σ.allJoined = true → ∀ i : Fin config.workers, i.val < index → σ.worker i = .exited)
  | .report =>
      (σ.status = .ok → σ.Complete) ∧
        (σ.allJoined = true → ∀ i : Fin config.workers, i.val < σ.workersStarted → σ.worker i = .exited)
  | .exited code => code = statusExitCode σ.status ∧ (σ.allJoined = true → Accounted σ)
  | .refused => True
  | .fault => False

structure Inv (config : Configuration) (σ : State config.workers) : Prop where
  books : σ.main.returned = false → Books config σ.view
  workers : ∀ i, (σ.worker i).Fine σ.queue.Drained (σ.result i).queueError
  absent : ∀ i, σ.worker i = .absent ↔ σ.workersStarted ≤ i.val
  started_le : σ.workersStarted ≤ config.workers
  produced_le : σ.jobsProduced ≤ config.jobs
  produced_started : σ.jobsProduced ≠ 0 → σ.workersStarted = config.workers
  undecided : σ.main.returned = false → σ.status ≠ .dataFailure
  main : σ.main.At σ

/-! ### Views of updated states -/

section Views

variable {workers : Nat} (σ : State workers)

theorem view_goto (i : Fin workers) (worker : Worker) : (σ.goto i worker).view = σ.view.setCarry i worker.carry := by
  have hcarry : (fun j => (Function.update σ.worker i worker j).carry)
      = Function.update (fun j => (σ.worker j).carry) i worker.carry := by
    funext j
    by_cases hj : j = i
    · subst hj
      simp only [Function.update_self]
    · simp only [Function.update_of_ne hj]
  simp only [State.view, State.goto, View.setCarry, hcarry]

theorem setCarry_same {v : View workers} {i : Fin workers} {carry : Carry} (hsame : v.carry i = carry) :
    v.setCarry i carry = v := by
  subst hsame
  simp only [View.setCarry, Function.update_eq_self]

/-- A step of a worker between states in which it holds the same. -/
theorem view_goto_same {i : Fin workers} {worker : Worker} (hsame : (σ.worker i).carry = worker.carry) :
    (σ.goto i worker).view = σ.view :=
  (view_goto σ i worker).trans (setCarry_same hsame)

theorem Main.parcel_wake (main : Main) : main.wake.parcel = main.parcel := by
  cases main <;> rfl

theorem view_signalNotFull (o : Outcome workers) : (σ.signalNotFull o).view = σ.view := by
  unfold State.signalNotFull State.view
  cases o.signalFails with
  | true => rfl
  | false => simp only [Bool.false_eq_true, if_false, Main.parcel_wake]

/-- A woken worker holds no job before or after. -/
theorem carry_of_woken {worker worker' : Worker}
    (hwoken : worker' = worker ∨ notEmpty.waits worker = true ∧ worker' = notEmpty.wake worker) :
    worker'.carry = worker.carry := by
  rcases hwoken with rfl | ⟨hwaits, rfl⟩
  · rfl
  · have hwait : worker = .wait := by simpa [notEmpty] using hwaits
    rw [hwait]
    rfl

theorem view_closeSection (o : Outcome workers) : (σ.closeSection o).view = σ.view := by
  have hcarry (i : Fin workers) :
      ((if o.emptyBroadcastFails then σ.worker else notEmpty.broadcast σ.worker) i).carry = (σ.worker i).carry := by
    cases o.emptyBroadcastFails with
    | true => rfl
    | false => exact carry_of_woken (notEmpty.broadcast_apply σ.worker i)
  have hparcel : (if o.fullBroadcastFails then σ.main else σ.main.wake).parcel = σ.main.parcel := by
    cases o.fullBroadcastFails with
    | true => rfl
    | false => exact Main.parcel_wake σ.main
  unfold State.closeSection State.unlock State.view
  simp only [hcarry, hparcel]

theorem view_popError (i : Fin workers) (hcarry : (σ.worker i).carry = .nothing) :
    (σ.popError i).view = σ.view := by
  have hresult :
      (fun j => { Function.update σ.result i { σ.result i with queueError := true } j with queueError := false })
      = fun j => { σ.result j with queueError := false } := by
    funext j
    by_cases hj : j = i
    · subst hj
      simp only [Function.update_self]
    · simp only [Function.update_of_ne hj]
  unfold State.popError
  rw [view_goto_same _ hcarry]
  unfold State.setResult State.view
  simp only [hresult]

end Views

variable {config : Configuration} {σ σ' : State config.workers}

/-! ### The books -/

theorem Worker.carry_of_pops {worker : Worker} (hpc : worker.pops) : worker.carry = .nothing := by
  rcases hpc with rfl | rfl <;> rfl

theorem Main.parcel_of_pushes {main : Main} {index job : Nat} {checksum : UInt64}
    (hpc : main.pushes index job checksum) : main.parcel = .filled index job checksum := by
  rcases hpc with rfl | rfl <;> rfl

theorem Books.live_carry {workers : Nat} {v : View workers} (h : Books config v) {i : Fin workers} {job : Nat}
    (hcarry : job ∈ (v.carry i).block) : (v.store job).isSome = true := by
  obtain ⟨L, hpos, -⟩ := h
  exact (hpos.live job).mp (View.mem_owned_carry hcarry)

theorem Books.live_parcel {workers : Nat} {v : View workers} (h : Books config v) {job : Nat}
    (hparcel : job ∈ v.parcel.block) : (v.store job).isSome = true := by
  obtain ⟨L, hpos, -⟩ := h
  exact (hpos.live job).mp (View.mem_owned_parcel hparcel)

theorem Worker.mem_block {worker : Worker} {job : Nat} (hjob : worker.job = some job) : job ∈ worker.carry.block := by
  cases worker <;> cases hjob <;> exact Multiset.mem_singleton_self _

theorem Main.mem_block {main : Main} {job : Nat} (hjob : main.job = some job) : job ∈ main.parcel.block := by
  cases main <;> cases hjob <;> exact Multiset.mem_singleton_self _

/-- No worker reads a block that is not live. -/
theorem Books.worker_live (h : Books config σ.view) {i : Fin config.workers} {job : Nat}
    (hjob : (σ.worker i).job = some job) :
    (σ.store job).isSome = true :=
  h.live_carry (Worker.mem_block hjob)

/-- Nor does `main`. -/
theorem Books.main_live (h : Books config σ.view) {job : Nat} (hjob : σ.main.job = some job) :
    (σ.store job).isSome = true :=
  h.live_parcel (Main.mem_block hjob)

/-- The queue has no null pointer in it. -/
theorem Books.front_live (h : Books config σ.view) (hcount : σ.queue.ring.count ≠ 0) : σ.queue.ring.front ≠ none := by
  obtain ⟨L, -, hacc⟩ := h
  have hcontents := hacc.contents
  rw [RingBuffer.contents_pop hacc.fits hcount] at hcontents
  intro hnone
  have hmem : σ.queue.ring.front ∈ L.queue.map some := hcontents ▸ List.mem_cons_self
  rw [hnone] at hmem
  simp at hmem

theorem Books.job_genuine (h : Books config σ.view) (i : Fin config.workers) {job : Nat} {contents : Job}
    (hunverified : (σ.worker i).carry.unverified = some job) (hlive : σ.store job = some contents) :
    Written config contents := by
  obtain ⟨L, -, hacc⟩ := h
  obtain ⟨contents', hcontents', hwritten⟩ := hacc.carried i job hunverified
  have hsame : some contents = some contents' := hlive.symm.trans hcontents'
  exact Option.some.inj hsame ▸ hwritten

theorem Books.id_lt (h : Books config σ.view) {i : Fin config.workers} {job : Nat} {contents : Job}
    (hunverified : (σ.worker i).carry.unverified = some job) (hlive : σ.store job = some contents) :
    contents.id < σ.jobsProduced := by
  obtain ⟨L, -, hacc⟩ := h
  have hid : idAt σ.view.store job = contents.id := by
    have hview : σ.view.store job = some contents := hlive
    rw [idAt, hview]
    rfl
  have hlt := hacc.id_lt (i := i) hunverified
  have hproduced : L.popped + L.queue.length = σ.jobsProduced := hacc.produced
  omega

/-- A worker that marks a job marks it for the first time. -/
theorem Books.markJob_eq (h : Books config σ.view) (hproduced : σ.jobsProduced ≤ config.jobs)
    {i : Fin config.workers} {job : Nat} {contents : Job}
    (hpc : σ.worker i = .mark job) (hlive : σ.store job = some contents) :
    σ.markJob config i contents = { σ with seen := Function.update σ.seen contents.id true } := by
  have hlt : contents.id < config.jobs :=
    Nat.lt_of_lt_of_le (h.id_lt (i := i) (by rw [hpc]; rfl) hlive) hproduced
  have hunseen : σ.seen contents.id = false := by
    obtain ⟨L, -, hacc⟩ := h
    have hcarry : σ.view.carry i = .popped job := by
      change (σ.worker i).carry = _
      rw [hpc]
      rfl
    have hseen := hacc.unseen hcarry
    rwa [idAt, show σ.view.store job = some contents from hlive] at hseen
  unfold State.markJob
  rw [if_neg (Nat.not_le.mpr hlt), hunseen]
  rfl

/-- The job a worker verifies is valid. -/
theorem Books.verifyJob_eq (h : Books config σ.view) {i : Fin config.workers} {job : Nat} {contents : Job}
    (hpc : σ.worker i = .verify job) (hlive : σ.store job = some contents) :
    σ.verifyJob i contents = σ.setResult i
      { σ.result i with
        checksum := (σ.result i).checksum + taskChecksum config contents.id
        consumed := (σ.result i).consumed + 1 } := by
  have hunverified : (σ.worker i).carry.unverified = some job := by rw [hpc]; rfl
  have hwritten := h.job_genuine i hunverified hlive
  simp only [State.verifyJob, hwritten.valid, if_true, hwritten.checksum]

theorem idAt_of_live {store : Nat → Option Job} {job : Nat} {contents : Job} (hlive : store job = some contents) :
    idAt store job = contents.id := by
  rw [idAt, hlive]
  rfl

theorem books_initial (config : Configuration) (hcapacity : 0 < config.queueCapacity) :
    Books config (State.initial config).view := by
  refine ⟨⟨[], 0, fun _ => 0⟩, ⟨?_, ?_⟩, ?_⟩
  · have hnone : (State.initial config).view.owned [] = 0 := by
      simp [View.owned, State.view, State.initial, Main.parcel, Parcel.block, Worker.carry, Carry.block]
    exact hnone ▸ Multiset.nodup_zero
  · intro job
    simp [View.owned, State.view, State.initial, Main.parcel, Parcel.block, Worker.carry, Carry.block]
  · exact
      { fits := ⟨hcapacity, Nat.zero_le _⟩
        contents := rfl
        genuine := fun _ hnone => absurd hnone List.not_mem_nil
        order := rfl
        produced := rfl
        carried := by intro _ _ hnone; cases hnone
        shares := by simp [View.share, View.pending, State.view, State.initial, Worker.carry, Carry.unverified]
        seen := fun id => by simp [State.view, State.initial]
        result := fun _ => rfl
        expected := rfl
        parcel := by intro _ _ _ hnone; cases hnone }

theorem inv_initial (config : Configuration) (hcapacity : 0 < config.queueCapacity) :
    Inv config (State.initial config) where
  books _ := books_initial config hcapacity
  workers _ := trivial
  absent _ := iff_of_true rfl (Nat.zero_le _)
  started_le := Nat.zero_le _
  produced_le := Nat.zero_le _
  produced_started hne := absurd rfl hne
  undecided _ := nofun
  main := ⟨rfl, rfl, rfl⟩

end Hplf.Pool
