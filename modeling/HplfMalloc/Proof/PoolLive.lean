import HplfMalloc.Proof.PoolSteps

/-!
# The worker pool without failures

If no call fails except where the configuration asks for it, no worker leaves its loop early, no wake-up is lost,
and the status of the run is decided by the configuration.
-/

namespace Hplf.Pool

open Lib
open scoped BigOperators

/-- No call fails, and a signal wakes a waiting worker if there is one. -/
structure Outcome.Reliable {workers : Nat} (o : Outcome workers) (σ : State workers) : Prop where
  setup : o.setupFails = false
  create : o.createFails = false
  join : o.joinFails = false
  lock : o.lockFails = false
  wait : o.waitFails = false
  unlock : o.unlockFails = false
  signal : o.signalFails = false
  emptyBroadcast : o.emptyBroadcastFails = false
  fullBroadcast : o.fullBroadcastFails = false
  wakes : notEmpty.Wakes σ.worker o.woken
  allocated : o.allocation ≠ none

def Event.Reliable {workers : Nat} (σ : State workers) : Event workers → Prop
  | .worker _ o | .main o => o.Reliable σ
  | .wakeWorker _ | .wakeMain => True

/-- A wake-up that nobody asked for. -/
def Event.spurious {workers : Nat} : Event workers → Bool
  | .wakeWorker _ | .wakeMain => true
  | _ => false

/-- How the production ended, as the configuration has it. -/
def State.Ended {config : Configuration} (σ : State config.workers) : Prop :=
  if config.failThreadAt ≠ 0 then
    σ.status = .threadFailure ∧ σ.workersStarted + 1 = config.failThreadAt ∧ σ.jobsProduced = 0 ∧
      σ.allocationAttempts = 0
  else if config.failAllocationAt ≠ 0 then
    σ.status = .allocationFailure ∧ σ.workersStarted = config.workers ∧
      σ.jobsProduced + 1 = config.failAllocationAt ∧ σ.allocationAttempts = config.failAllocationAt
  else
    σ.status = .ok ∧ σ.workersStarted = config.workers ∧ σ.jobsProduced = config.jobs ∧
      σ.allocationAttempts = config.jobs

/-- What `main` has asked for so far, and how it ended. -/
def Main.Verdict {config : Configuration} (σ : State config.workers) : Main → Prop
  | .setup => σ.allocationAttempts = 0
  | .create index => (config.failThreadAt = 0 ∨ index < config.failThreadAt) ∧ σ.allocationAttempts = 0
  | .produce index =>
      config.failThreadAt = 0 ∧ (config.failAllocationAt = 0 ∨ index < config.failAllocationAt) ∧
        σ.allocationAttempts = index
  | .fill index _ | .push index _ _ | .wait index _ _ | .retry index _ _ =>
      config.failThreadAt = 0 ∧ (config.failAllocationAt = 0 ∨ index + 1 < config.failAllocationAt) ∧
        σ.allocationAttempts = index + 1
  | .discard _ | .refused | .fault => False
  | .close | .join _ | .report | .exited _ => σ.Ended

/-- After `queue_close`. -/
def Main.closed : Main → Bool
  | .join _ | .report | .exited _ => true
  | _ => false

structure Live (config : Configuration) (σ : State config.workers) : Prop where
  unjammed : σ.jammed = false
  allJoined : σ.allJoined = true
  errorless : ∀ i, (σ.result i).queueError = false
  closed : σ.queue.closed = σ.main.closed
  served : σ.queue.closed = false → notEmpty.Served σ.queue.ring.count σ.worker
  woken : σ.queue.closed = true → ∀ i, notEmpty.waits (σ.worker i) = false
  full : σ.main.wake ≠ σ.main → σ.queue.ring.count = σ.queue.ring.capacity
  verdict : σ.main.Verdict σ

variable {config : Configuration} {σ σ' : State config.workers} {event : Event config.workers}

theorem live_initial (config : Configuration) : Live config (State.initial config) where
  unjammed := rfl
  allJoined := rfl
  errorless _ := rfl
  closed := rfl
  served _ := Waiters.served_zero
  woken hclosed := nomatch hclosed
  full hwait := absurd rfl hwait
  verdict := rfl

theorem Main.closed_wake (main : Main) : main.wake.closed = main.closed := by
  cases main <;> rfl

theorem Main.wake_wake (main : Main) : main.wake.wake = main.wake := by
  cases main <;> rfl

theorem Main.Verdict.wake {main : Main} (h : main.Verdict σ) : main.wake.Verdict σ := by
  cases main <;> exact h

theorem Main.Verdict.congr {main : Main} (h : main.Verdict σ) (hattempts : σ'.allocationAttempts = σ.allocationAttempts)
    (hstatus : σ'.status = σ.status) (hstarted : σ'.workersStarted = σ.workersStarted)
    (hproduced : σ'.jobsProduced = σ.jobsProduced) : main.Verdict σ' := by
  cases main with
  | discard | refused | fault => exact h
  | _ => simpa only [Main.Verdict, State.Ended, hattempts, hstatus, hstarted, hproduced] using h

theorem not_waits_of_ne {worker : Worker} (hne : worker ≠ .wait) : notEmpty.waits worker = false :=
  beq_eq_false_iff_ne.mpr hne

theorem not_awake_of_ne {worker : Worker} (hne : worker ≠ .retry) : notEmpty.awake worker = false :=
  beq_eq_false_iff_ne.mpr hne

/-! ### Steps of the workers -/

/-- A worker goes on without the queue. -/
theorem Live.goto (h : Live config σ) {τ : State config.workers} {i : Fin config.workers} {worker : Worker}
    (hqueue : τ.queue = σ.queue) (hworker : τ.worker = σ.worker) (hmain : τ.main = σ.main)
    (hjammed : τ.jammed = σ.jammed) (hjoined : τ.allJoined = σ.allJoined)
    (hresult : ∀ j, (τ.result j).queueError = (σ.result j).queueError)
    (hattempts : τ.allocationAttempts = σ.allocationAttempts) (hstatus : τ.status = σ.status)
    (hstarted : τ.workersStarted = σ.workersStarted) (hproduced : τ.jobsProduced = σ.jobsProduced)
    (hbefore : σ.worker i ≠ .retry) (hafter : worker ≠ .wait) : Live config (τ.goto i worker) where
  unjammed := hjammed.trans h.unjammed
  allJoined := hjoined.trans h.allJoined
  errorless j := (hresult j).trans (h.errorless j)
  closed := by
    change τ.queue.closed = τ.main.closed
    rw [hqueue, hmain]
    exact h.closed
  served hopen := by
    change τ.queue.closed = false at hopen
    change notEmpty.Served τ.queue.ring.count (Function.update τ.worker i worker)
    rw [hqueue] at hopen ⊢
    rw [hworker]
    refine (h.served hopen).move (not_waits_of_ne hafter) fun hawake => ?_
    rw [not_awake_of_ne hbefore] at hawake
    cases hawake
  woken hclosed j := by
    change τ.queue.closed = true at hclosed
    rw [hqueue] at hclosed
    by_cases hj : j = i
    · subst hj
      simpa only [State.goto, Function.update_self] using not_waits_of_ne hafter
    · simpa only [State.goto, Function.update_of_ne hj, hworker] using h.woken hclosed j
  full hwait := by
    change τ.main.wake ≠ τ.main at hwait
    change τ.queue.ring.count = τ.queue.ring.capacity
    rw [hmain] at hwait
    rw [hqueue]
    exact h.full hwait
  verdict := by
    change τ.main.Verdict (τ.goto i worker)
    rw [hmain]
    exact h.verdict.congr hattempts hstatus hstarted hproduced

theorem Live.wait_step (h : Live config σ) {i : Fin config.workers} (hcount : σ.queue.ring.count = 0)
    (hopen : σ.queue.closed = false) : Live config (σ.goto i .wait) :=
  { h with
    served := fun _ => by
      change notEmpty.Served σ.queue.ring.count _
      rw [hcount]
      exact Waiters.served_zero
    woken := fun hclosed => absurd (hopen.symm.trans hclosed) Bool.false_ne_true
    verdict := h.verdict.congr rfl rfl rfl rfl }

theorem Live.drained_step (h : Live config σ) {i : Fin config.workers} (hclosed : σ.queue.closed = true) :
    Live config (σ.goto i .flush) :=
  { h with
    served := fun hopen => absurd (hclosed.symm.trans hopen) (by decide)
    woken := fun _ j => by
      by_cases hj : j = i
      · subst hj
        simp only [State.goto, Function.update_self]
        rfl
      · simpa only [State.goto, Function.update_of_ne hj] using h.woken hclosed j
    verdict := h.verdict.congr rfl rfl rfl rfl }

/-- A worker takes a job, and `main` is told that there is room. -/
theorem Live.take_step (h : Live config σ) {i : Fin config.workers} {o : Outcome config.workers} {job : Nat}
    (ho : o.Reliable σ) (hcount : σ.queue.ring.count ≠ 0) :
    Live config (((σ.takeFront.signalNotFull o).unlock o).goto i (.mark job)) := by
  have hmain : (((σ.takeFront.signalNotFull o).unlock o).goto i (.mark job)).main = σ.main.wake := by
    change (if o.signalFails then σ.main else σ.main.wake) = _
    rw [if_neg (by rw [ho.signal]; exact Bool.false_ne_true)]
  exact
    { unjammed := by
        change (σ.jammed || o.unlockFails) = false
        rw [h.unjammed, ho.unlock]
        rfl
      allJoined := h.allJoined
      errorless := h.errorless
      closed := by
        rw [hmain, Main.closed_wake]
        exact h.closed
      served := fun hopen => by
        change notEmpty.Served (σ.queue.ring.count - 1) (Function.update σ.worker i (.mark job))
        have hserved := h.served hopen
        rw [← Nat.sub_add_cancel (Nat.pos_of_ne_zero hcount)] at hserved
        exact hserved.take rfl
      woken := fun hclosed j => by
        by_cases hj : j = i
        · subst hj
          simp only [State.goto, Function.update_self]
          rfl
        · simp only [State.goto, Function.update_of_ne hj]
          exact h.woken hclosed j
      full := fun hwait => by
        rw [hmain, Main.wake_wake] at hwait
        exact absurd rfl hwait
      verdict := by
        rw [hmain]
        exact h.verdict.wake.congr rfl rfl rfl rfl }

theorem Live.worker_step (h : Live config σ) (hinv : Inv config σ) (hrunning : σ.main.returned = false)
    {i : Fin config.workers} {o : Outcome config.workers} (ho : o.Reliable σ)
    (hstep : Step config σ (.worker i o) σ') : Live config σ' := by
  have hbooks := hinv.books hrunning
  have hnoError : ¬ (σ.result i).queueError = true := by
    rw [h.errorless i]
    exact Bool.false_ne_true
  have hclose : σ.worker i ≠ .close := by
    intro hpc
    have hfine := hinv.workers i
    rw [hpc] at hfine
    exact hnoError hfine
  cases hstep with
  | popRefused hpc hfails => exact absurd (ho.lock.symm.trans hfails) Bool.false_ne_true
  | popFailed hpc hfails => exact absurd (ho.wait.symm.trans hfails) Bool.false_ne_true
  | popWait hpc hcount hopen => exact h.wait_step hcount hopen
  | popDrained hpc hcount hclosed =>
      have hunlock : σ.unlock o = σ := by
        unfold State.unlock
        rw [ho.unlock, Bool.or_false]
      rw [hunlock]
      exact h.drained_step hclosed
  | popNull hpc hcount hfront => exact absurd hfront (hbooks.front_live hcount)
  | popTake hpc hcount hfront => exact h.take_step ho hcount
  | mark hpc hlive =>
      rw [hbooks.markJob_eq hinv.produced_le hpc hlive]
      exact h.goto rfl rfl rfl rfl rfl (fun _ => rfl) rfl rfl rfl rfl (by simp [hpc]) (by simp)
  | verify hpc hlive =>
      refine h.goto rfl rfl rfl rfl rfl (fun j => ?_) rfl rfl rfl rfl (by simp [hpc]) (by simp)
      by_cases hj : j = i
      · subst hj
        simp only [State.verifyJob, State.setResult, Function.update_self]
      · simp only [State.verifyJob, State.setResult, Function.update_of_ne hj]
  | release hpc hlive =>
      exact h.goto rfl rfl rfl rfl rfl (fun _ => rfl) rfl rfl rfl rfl (by simp [hpc]) (by simp)
  | workerFault hjob hdead =>
      have hlive := hbooks.worker_live hjob
      rw [hdead] at hlive
      cases hlive
  | workerCloseRefused hpc hfails => exact absurd hpc hclose
  | workerClose hpc => exact absurd hpc hclose
  | flush hpc => exact h.goto rfl rfl rfl rfl rfl (fun _ => rfl) rfl rfl rfl rfl (by simp [hpc]) (by simp)

/-! ### Steps of `main` -/

/-- `main` goes on without the queue. -/
theorem Live.main_goto (h : Live config σ) (hqueue : σ'.queue = σ.queue) (hworker : σ'.worker = σ.worker)
    (hjammed : σ'.jammed = σ.jammed) (hjoined : σ'.allJoined = σ.allJoined)
    (hresult : σ'.result = σ.result) (hclosed : σ'.main.closed = σ.main.closed)
    (hawake : σ'.main.wake = σ'.main) (hverdict : σ'.main.Verdict σ') : Live config σ' where
  unjammed := hjammed.trans h.unjammed
  allJoined := hjoined.trans h.allJoined
  errorless j := by rw [hresult]; exact h.errorless j
  closed := by rw [hqueue, hclosed]; exact h.closed
  served hopen := by
    rw [hqueue] at hopen ⊢
    rw [hworker]
    exact h.served hopen
  woken hclosed j := by
    rw [hqueue] at hclosed
    rw [hworker]
    exact h.woken hclosed j
  full hwait := absurd hawake hwait
  verdict := hverdict

theorem payloadSizeFor_le (seed : UInt64) (id : Nat) : payloadSizeFor seed id ≤ 16384 := by
  unfold payloadSizeFor
  have hall : ∀ size ∈ payloadSizes, size ≤ 16384 := by decide
  rw [List.getD_eq_getElem?_getD]
  generalize (mix64 (seed ^^^ mix64 (UInt64.ofNat id + 0x9e3779b97f4a7c15))).toNat % payloadSizes.length = position
  cases hget : payloadSizes[position]? with
  | none => exact Nat.zero_le _
  | some size => exact hall size (List.mem_of_getElem? hget)

theorem Inv.index_of_pushes (h : Inv config σ) {index job : Nat} {checksum : UInt64}
    (hpc : σ.main.pushes index job checksum) : index = σ.jobsProduced ∧ index < config.jobs := by
  have hmain := h.main
  rcases hpc with hpc | hpc <;> rw [hpc] at hmain <;> exact ⟨hmain.1, hmain.2.1⟩

theorem Live.verdict_of_pushes (h : Live config σ) {index job : Nat} {checksum : UInt64}
    (hpc : σ.main.pushes index job checksum) :
    config.failThreadAt = 0 ∧ (config.failAllocationAt = 0 ∨ index + 1 < config.failAllocationAt) ∧
      σ.allocationAttempts = index + 1 := by
  have hverdict := h.verdict
  rcases hpc with hpc | hpc <;> rw [hpc] at hverdict <;> exact hverdict

/-- The report of a run without failures keeps its status. -/
theorem Live.report_step (h : Live config σ) (hinv : Inv config σ) (haccepted : config.Accepted)
    (hpc : σ.main = .report) : Live config σ.reportRun := by
  obtain ⟨hexit, haccounted⟩ := hinv.reportRun hpc h.allJoined
  have hframe : σ.reportRun.worker = σ.worker ∧ σ.reportRun.workersStarted = σ.workersStarted ∧
      σ.reportRun.jobsProduced = σ.jobsProduced ∧ σ.reportRun.result = σ.result ∧
      σ.reportRun.jammed = σ.jammed ∧ σ.reportRun.allJoined = σ.allJoined ∧
      σ.reportRun.queue.closed = σ.queue.closed ∧ σ.reportRun.allocationAttempts = σ.allocationAttempts := by
    unfold State.reportRun
    rw [if_pos h.allJoined]
    cases State.releaseRemaining σ.queue.ring.count σ.queue.ring σ.store <;>
      exact ⟨rfl, rfl, rfl, rfl, rfl, rfl, rfl, rfl⟩
  obtain ⟨hworker, hstarted, hproduced, hresult, hjammed, hjoined, hqueue, hattempts⟩ := hframe
  have hclosed : σ.queue.closed = true := by
    rw [h.closed, hpc]
    rfl
  have hnone : σ.reportRun.totals.abandonedJobs = 0 := by
    by_contra hne
    have herror := (haccounted.abandoned hne).2 ⟨0, haccepted.workers_pos⟩
    rw [hresult, h.errorless] at herror
    cases herror
  have hstatus : σ.reportRun.status = σ.status := by
    have hundecided : σ.reportRun.status ≠ .dataFailure := fun hdata => haccounted.dataFailure.mp hdata hnone
    have hquiet : (σ.started.any fun i => (σ.result i).queueError) = false := by
      rw [List.any_eq_false]
      intro i _
      rw [h.errorless i]
      exact Bool.false_ne_true
    unfold State.reportRun at hundecided ⊢
    rw [if_pos h.allJoined] at hundecided ⊢
    cases hrelease : State.releaseRemaining σ.queue.ring.count σ.queue.ring σ.store with
    | none => rfl
    | some remaining =>
        rw [hrelease] at hundecided
        simp only [State.judge, hquiet] at hundecided ⊢
        split
        next hdata =>
          rw [if_pos hdata] at hundecided
          exact absurd rfl hundecided
        next => rfl
  exact
    { unjammed := hjammed.trans h.unjammed
      allJoined := hjoined.trans h.allJoined
      errorless := fun i => by rw [hresult]; exact h.errorless i
      closed := by
        rw [hqueue, hclosed, hexit]
        rfl
      served := fun hopen => absurd ((hqueue.trans hclosed).symm.trans hopen) (by decide)
      woken := fun _ i => by
        rw [hworker]
        exact h.woken hclosed i
      full := fun hwait => by
        rw [hexit] at hwait
        exact absurd rfl hwait
      verdict := by
        have hverdict := h.verdict
        rw [hpc] at hverdict
        rw [hexit]
        have hended : Main.Verdict σ (.exited (statusExitCode σ.reportRun.status)) := hverdict
        exact hended.congr hattempts hstatus hstarted hproduced }

theorem Live.main_step (h : Live config σ) (hinv : Inv config σ) (haccepted : config.Accepted)
    (hrunning : σ.main.returned = false) {o : Outcome config.workers} (ho : o.Reliable σ)
    (hstep : Step config σ (.main o) σ') : Live config σ' := by
  have hverdict := h.verdict
  have hbooks := hinv.books hrunning
  have hunlock : σ.unlock o = σ := by
    unfold State.unlock
    rw [ho.unlock, Bool.or_false]
  cases hstep with
  | setupRefused hpc hfails => exact absurd (ho.setup.symm.trans hfails) Bool.false_ne_true
  | joinFailed hpc hindex hfails => exact absurd (ho.join.symm.trans hfails) Bool.false_ne_true
  | pushRefused hpc hfails => exact absurd (ho.lock.symm.trans hfails) Bool.false_ne_true
  | pushFailed hpc hfails => exact absurd (ho.wait.symm.trans hfails) Bool.false_ne_true
  | closeRefused hpc hfails => exact absurd (ho.lock.symm.trans hfails) Bool.false_ne_true
  | unallocated hpc hindex hnull => exact absurd hnull ho.allocated
  | oversized hpc hindex hsize =>
      have hle := payloadSizeFor_le config.seed ‹Nat›
      have hbig : 16384 ≤ sizeMax - sizeofJob := by decide
      exact absurd (Nat.le_trans hle hbig) (Nat.not_le.mpr hsize)
  | mainFault hjob hdead =>
      have hlive := hbooks.main_live hjob
      rw [hdead] at hlive
      cases hlive
  | discard hpc hlive =>
      rw [hpc] at hverdict
      exact hverdict.elim
  | setup hpc =>
      rw [hpc] at hverdict
      refine h.main_goto rfl rfl rfl rfl rfl (by rw [hpc]; rfl) rfl ⟨?_, hverdict⟩
      exact (Nat.eq_zero_or_pos _)
  | @create _ index hindex hpc hfail hcreated =>
      rw [hpc] at hverdict
      obtain ⟨hthread, hattempts⟩ := hverdict
      have habsent : σ.worker ⟨index, hindex⟩ ≠ .retry := by
        have hmain := hinv.main
        rw [hpc] at hmain
        rw [(hinv.absent _).mpr hmain.1.ge]
        exact nofun
      have hgoto : Live config (σ.goto ⟨index, hindex⟩ .pop) :=
        h.goto rfl rfl rfl rfl rfl (fun _ => rfl) rfl rfl rfl rfl habsent nofun
      refine hgoto.main_goto rfl rfl rfl rfl rfl ?_ rfl ⟨?_, hattempts⟩
      · change _ = σ.main.closed
        rw [hpc]
        rfl
      · omega
  | @createRefused _ index hindex hpc hfails =>
      rw [hpc] at hverdict
      have hmain := hinv.main
      rw [hpc] at hmain
      have hfail : config.failThreadAt = index + 1 :=
        hfails.resolve_right (by rw [ho.create]; exact Bool.false_ne_true)
      refine h.main_goto rfl rfl rfl rfl rfl (by rw [hpc]; rfl) rfl ?_
      change State.Ended _
      unfold State.Ended
      rw [if_pos (by omega)]
      exact ⟨rfl, by rw [hfail, hmain.1], hmain.2.1, hverdict.2⟩
  | @createdAll _ index hpc hindex =>
      rw [hpc] at hverdict
      obtain ⟨hthread, hattempts⟩ := hverdict
      have hle := haccepted.thread_le
      refine h.main_goto rfl rfl rfl rfl rfl (by rw [hpc]; rfl) rfl ⟨by omega, ?_, hattempts⟩
      exact Nat.eq_zero_or_pos _
  | producedAll hpc =>
      rw [hpc] at hverdict
      have hmain := hinv.main
      rw [hpc] at hmain
      obtain ⟨hthread, hallocation, hattempts⟩ := hverdict
      have hle := haccepted.allocation_le
      refine h.main_goto rfl rfl rfl rfl rfl (by rw [hpc]; rfl) rfl ?_
      change State.Ended _
      unfold State.Ended
      rw [if_neg (by omega), if_neg (by omega)]
      exact ⟨hmain.2.2.2, hmain.2.2.1, hmain.1.symm, hattempts⟩
  | injected hpc hindex hfail =>
      rw [hpc] at hverdict
      have hmain := hinv.main
      rw [hpc] at hmain
      obtain ⟨hthread, hallocation, hattempts⟩ := hverdict
      refine h.main_goto rfl rfl rfl rfl rfl (by rw [hpc]; rfl) rfl ?_
      change State.Ended _
      unfold State.Ended
      rw [if_neg (by omega), if_pos (by omega)]
      refine ⟨rfl, hmain.2.2.1, ?_, hfail.symm⟩
      change σ.jobsProduced + 1 = _
      rw [← hmain.1, ← hattempts, hfail]
  | allocate hpc hindex hfail hfresh =>
      rw [hpc] at hverdict
      obtain ⟨hthread, hallocation, hattempts⟩ := hverdict
      refine h.main_goto rfl rfl rfl rfl rfl (by rw [hpc]; rfl) rfl ⟨hthread, ?_, ?_⟩
      · omega
      · change σ.allocationAttempts + 1 = _
        rw [hattempts]
  | fill hpc hlive =>
      rw [hpc] at hverdict
      exact h.main_goto rfl rfl rfl rfl rfl (by rw [hpc]; rfl) rfl hverdict
  | pushWait hpc hcount hopen =>
      have hpushes := h.verdict_of_pushes hpc
      exact
        { h with
          closed := hopen
          full := fun _ => hcount
          verdict := hpushes }
  | pushClosed hpc hclosed =>
      have hopen := h.closed
      rcases hpc with hpc | hpc <;> rw [hpc, hclosed] at hopen <;> cases hopen
  | @pushPut _ index job checksum hpc hroom hopen =>
      obtain ⟨hthread, hallocation, hattempts⟩ := h.verdict_of_pushes hpc
      rw [hunlock]
      exact
        { unjammed := h.unjammed
          allJoined := h.allJoined
          errorless := h.errorless
          closed := hopen
          served := fun _ => (h.served hopen).signal ho.wakes
          woken := fun hclosed => absurd (hopen.symm.trans hclosed) Bool.false_ne_true
          full := fun hwait => absurd rfl hwait
          verdict := ⟨hthread, hallocation, hattempts⟩ }
  | close hpc =>
      rw [hpc] at hverdict
      have hworker : (σ.closeSection o).worker = notEmpty.broadcast σ.worker := by
        unfold State.closeSection State.unlock
        rw [if_neg (by rw [ho.emptyBroadcast]; exact Bool.false_ne_true)]
      have hstatus (status : RunStatus) :
          (if (o.emptyBroadcastFails || o.fullBroadcastFails || o.unlockFails) ∧ status = .ok then .internalError
            else status) = status := by
        rw [ho.emptyBroadcast, ho.fullBroadcast, ho.unlock]
        rfl
      exact
        { unjammed := by
            change (σ.jammed || o.unlockFails) = false
            rw [h.unjammed, ho.unlock]
            rfl
          allJoined := h.allJoined
          errorless := h.errorless
          closed := rfl
          served := fun hopen => nomatch hopen
          woken := fun _ i => by
            change notEmpty.waits ((σ.closeSection o).worker i) = false
            rw [hworker]
            exact notEmpty.not_waits_broadcast σ.worker i
          full := fun hwait => absurd rfl hwait
          verdict := by
            have hended : Main.Verdict σ (.join 0) := hverdict
            exact hended.congr rfl (hstatus σ.status) rfl rfl }
  | joinedAll hpc =>
      rw [hpc] at hverdict
      exact h.main_goto rfl rfl rfl rfl rfl (by rw [hpc]; rfl) rfl hverdict
  | join hpc hindex hlt hexited =>
      rw [hpc] at hverdict
      exact h.main_goto rfl rfl rfl rfl rfl (by rw [hpc]; rfl) rfl hverdict
  | report hpc => exact h.report_step hinv haccepted hpc

/-- Every step without failures keeps the liveness invariant. -/
theorem Live.perform (h : Live config σ) (hinv : Inv config σ) (haccepted : config.Accepted)
    (hreliable : event.Reliable σ) (hstep : σ.perform config event = some σ') : Live config σ' := by
  obtain ⟨hrunning, hstep⟩ := perform_step hstep
  cases event with
  | worker i o => exact h.worker_step hinv hrunning hreliable hstep
  | main o => exact h.main_step hinv haccepted hrunning hreliable hstep
  | wakeWorker i =>
      cases hstep with
      | wakeWorker hpc =>
          exact
            { h with
              served := fun hopen => (h.served hopen).wake (by rw [hpc]; rfl)
              woken := fun hclosed => by
                have hwaits := h.woken hclosed i
                rw [hpc] at hwaits
                cases hwaits
              verdict := h.verdict.congr rfl rfl rfl rfl }
  | wakeMain =>
      cases hstep with
      | wakeMain hpc =>
          have hverdict := h.verdict
          rw [hpc] at hverdict
          exact h.main_goto rfl rfl rfl rfl rfl (by rw [hpc]; rfl) rfl hverdict

end Hplf.Pool
