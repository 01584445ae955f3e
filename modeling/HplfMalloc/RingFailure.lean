import HplfMalloc.Proof.RingDescent

/-!
# Failed allocations in the ring benchmark

When a failed allocation lets the workers of the ring benchmark agree, and when it leaves some of them blocked.
`run_worker` tests `failed` once, after the phase has been published. If all workers have tested it before an
allocation fails, the run ends with an error. If some worker has not, it may skip the phase in which the one
that failed waits for it.
-/

namespace Hplf.Ring

open Lib

variable {threads : Nat} {run run' : RunContext threads} {cycles : Timed → Nat} {p : Timed}
variable {event : Event threads}

/-! ### An untimely failure -/

theorem run_of_perform (hperform : run.perform event = some run') :
    (benchmark threads).Run run [event] run' :=
  System.Run.observe .refl ⟨event, rfl, hperform⟩

/-- After a failed allocation the worker goes on to the first wait, and blocks there. -/
theorem run_wait (run : RunContext threads) {u : Fin threads} {outgoing : Bool}
    (hworker : run.worker u = .sendOutgoing p outgoing)
    (hnotLast : run.ringBarrier.arrived + 1 ≠ threads) :
    ∃ trace last, (benchmark threads).Run run trace last ∧ last.phase = run.phase ∧ last.failed = run.failed ∧
      last.ringBarrier.generation = run.ringBarrier.generation ∧
      last.worker = Function.update run.worker u (.blocked p .entries run.ringBarrier.generation) := by
  have hsend : run.perform (.worker u true) = some ({ run with
      mailboxes := Function.update run.mailboxes (RunContext.successor u) outgoing }.goto u (.arrive p .entries)) := by
    change run.stepWorker u true = _
    unfold RunContext.stepWorker
    rw [hworker]
  have harrive : ∀ {sent : RunContext threads}, sent.worker u = .arrive p .entries →
      sent.perform (.worker u true) = some (sent.barrierWait u p .entries) := by
    intro sent hsent
    change sent.stepWorker u true = _
    unfold RunContext.stepWorker
    rw [hsent]
  refine ⟨_, _, (run_of_perform hsend).trans (run_of_perform (harrive (Function.update_self _ _ _))),
    rfl, rfl, ?_, ?_⟩
  · simp [RunContext.barrierWait, Barrier.arrive, RunContext.goto, hnotLast]
  · simp [RunContext.barrierWait, Barrier.arrive, RunContext.goto, hnotLast]

/-- A worker that finds `failed` set skips the phase. -/
theorem run_skip {v : Fin threads} (hphase : run.phase = .timed p) (hfailed : run.failed = true)
    (huntested : (run.worker v).Untested p) :
    ∃ trace, (benchmark threads).Run run trace (run.goto v (.cleanup p)) := by
  have htest : ∀ start : RunContext threads, start.worker v = .testFailed p → start.failed = true →
      start.perform (.worker v true) = some (start.goto v (.cleanup p)) := by
    intro start hworker hset
    change start.stepWorker v true = _
    unfold RunContext.stepWorker
    rw [hworker]
    dsimp only
    rw [hset, if_pos rfl]
  rcases huntested with hworker | hworker
  · have hopen : run.perform (.worker v true) = some (run.goto v (.testFailed p)) := by
      change run.stepWorker v true = _
      unfold RunContext.stepWorker
      rw [hworker]
      simp [RunContext.waitForPhase, hphase]
    have hgoto : (run.goto v (.testFailed p)).goto v (.cleanup p) = run.goto v (.cleanup p) := by
      simp [RunContext.goto]
    have htested := htest (run.goto v (.testFailed p)) (Function.update_self _ _ _) hfailed
    rw [hgoto] at htested
    exact ⟨_, (run_of_perform hopen).trans (run_of_perform htested)⟩
  · exact ⟨_, run_of_perform (htest run hworker hfailed)⟩

/-- **An untimely failure.** One worker blocks, and another one skips the phase. -/
theorem Coherent.untimely (hcoherent : Coherent run cycles) (hperform : run.perform event = some run')
    (huntimely : ¬ Timely run event) :
    ∃ trace last, (benchmark threads).Run run' trace last ∧ ¬ Agreement last := by
  obtain ⟨p, hp⟩ := not_forall.mp huntimely
  obtain ⟨⟨u, rfl, hworker⟩, hsome⟩ := Classical.not_imp.mp hp
  obtain ⟨v, hv⟩ := not_forall.mp hsome
  have huntested := not_not.mp hv
  have huv : u ≠ v := by
    rintro rfl
    rcases huntested with h | h <;> rw [hworker] at h <;> simp at h
  have hphase : run.phase = .timed p := by
    obtain ⟨q, hrunning⟩ := hcoherent.stage.running_of_round (p := p) (u := u) (by rw [hworker]; rfl)
    have hbeat := hrunning.workers u
    unfold RunContext.OnBeat at hbeat
    rw [hworker] at hbeat
    obtain ⟨rfl, -⟩ := hbeat
    exact hrunning.phase
  -- The one that has not tested `failed` is missing at the barrier.
  have hnotLast : run.ringBarrier.arrived + 1 ≠ threads := by
    intro hlast
    have hblocked := hcoherent.synced.balanced.release (u := u) (by rw [hworker]; simp [Worker.blockedAt])
      (by rwa [Fintype.card_fin]) v huv.symm
    rcases huntested with h | h <;> rw [h] at hblocked <;> simp [Worker.blockedAt] at hblocked
  have hrun : run' = { run with failed := run.failed || !false }.goto u (.sendOutgoing p false) := by
    change run.stepWorker u false = _ at hperform
    unfold RunContext.stepWorker at hperform
    rw [hworker] at hperform
    exact (Option.some.inj hperform).symm
  subst hrun
  obtain ⟨trace, blocked, hwait, hphase', hfailed, hgeneration, hworkers⟩ :=
    run_wait ({ run with failed := run.failed || !false }.goto u (.sendOutgoing p false))
      (Function.update_self _ _ _) hnotLast
  have hother : blocked.worker v = run.worker v := by
    rw [hworkers, Function.update_of_ne huv.symm]
    exact Function.update_of_ne huv.symm _ _
  obtain ⟨trace', hskip⟩ := run_skip (v := v) (hphase'.trans hphase) (hfailed.trans (Bool.or_true _))
    (by rwa [hother])
  refine ⟨_, _, hwait.trans hskip, fun hagreement => hagreement.waiting u v p ?_ ?_⟩
  · change (Function.update blocked.worker v _ u).WaitsIn p blocked.ringBarrier.generation
    rw [Function.update_of_ne huv, hworkers, Function.update_self, hgeneration]
    exact ⟨rfl, rfl⟩
  · change (Function.update blocked.worker v (.cleanup p) v).HasLeft p
    rw [Function.update_self]
    exact Nat.add_le_add_left (by decide) _

/-! ### Agreement -/

/-- **Barrier agreement.** As long as every allocation that fails does so after all workers have tested `failed`
in its phase, the workers agree on the waits, and some thread can act until the benchmark has returned. After
such a failure the run ends within a bounded number of steps, and not with success. A failure before that can
always be continued to a disagreement. -/
theorem ring_barrier_agreement (threads : Nat) :
    (∀ run, (timelyBenchmark threads).Reachable run → Agreement run ∧ (Finished run ∨ CanStep run)) ∧
    (∀ run event p run', (timelyBenchmark threads).Reachable run → FailsAllocation run event p →
      Timely run event → run.perform event = some run' →
        ∃ bound, ∀ trace last, (benchmark threads).Run run' trace last →
          trace.length ≤ bound ∧ Agreement last ∧ last.main ≠ .returned true ∧ (Finished last ∨ CanStep last)) ∧
    (∀ run event run', (timelyBenchmark threads).Reachable run → run.perform event = some run' →
      ¬ Timely run event → ∃ trace last, (benchmark threads).Run run' trace last ∧ ¬ Agreement last) := by
  refine ⟨fun run hreach => ?_, fun run event p run' hreach hfails htimely hperform => ?_,
    fun run event run' hreach hperform huntimely => ?_⟩
  · obtain ⟨cycles, hcoherent⟩ := coherent_of_reachable hreach
    exact ⟨hcoherent.agreement, hcoherent.progress⟩
  · obtain ⟨cycles, hcoherent⟩ := coherent_of_reachable hreach
    obtain ⟨cycles', hcoherent'⟩ := hcoherent.perform hperform htimely
    have hfailed : run'.failed = true := by
      obtain ⟨u, rfl, hworker⟩ := hfails
      change run.stepWorker u false = _ at hperform
      unfold RunContext.stepWorker at hperform
      rw [hworker] at hperform
      obtain rfl := Option.some.inj hperform
      exact Bool.or_true _
    refine ⟨run'.rank, fun trace last hrun => ?_⟩
    obtain ⟨⟨cycles'', hlast⟩, hset, hrank⟩ := hcoherent'.run_of_failed hfailed hrun
    exact ⟨by omega, hlast.agreement, hlast.not_success hset, hlast.progress⟩
  · obtain ⟨cycles, hcoherent⟩ := coherent_of_reachable hreach
    exact hcoherent.untimely hperform huntimely

/-! ### Two workers -/

/-- Several events, one after the other. -/
def RunContext.performAll (run : RunContext threads) : List (Event threads) → Option (RunContext threads)
  | [] => some run
  | event :: events => (run.perform event).bind fun run' => run'.performAll events

theorem run_of_performAll {events : List (Event threads)} (hperform : run.performAll events = some run') :
    (benchmark threads).Run run events run' := by
  induction events generalizing run with
  | nil =>
      obtain rfl := Option.some.inj hperform
      exact .refl
  | cons event events ih =>
      obtain ⟨next, hnext, hrest⟩ := Option.bind_eq_some_iff.mp hperform
      exact (run_of_perform hnext).trans (ih hrest)

/-- A run in which nothing fails is timely. -/
theorem reachable_of_performAll {events : List (Event threads)}
    (hreach : (timelyBenchmark threads).Reachable run)
    (hsuccess : ∀ event ∈ events, ∀ u, event ≠ .worker u false)
    (hperform : run.performAll events = some run') : (timelyBenchmark threads).Reachable run' := by
  induction events generalizing run with
  | nil =>
      obtain rfl := Option.some.inj hperform
      exact hreach
  | cons event events ih =>
      obtain ⟨next, hnext, hrest⟩ := Option.bind_eq_some_iff.mp hperform
      refine ih (hreach.step ⟨event, rfl, hnext, ?_⟩) (fun e he => hsuccess e (List.mem_cons_of_mem _ he)) hrest
      rintro q ⟨u, hevent, -⟩
      exact absurd hevent (hsuccess event List.mem_cons_self u)

/-- Two workers are created and prepared for the warmup, the main thread opens it, and the first worker passes
its test of `failed`. -/
def warmupOpened : List (Event 2) :=
  [.main true, .main true, .main true, .worker 0 true, .worker 1 true, .main true, .main true, .worker 0 true,
    .worker 0 true, .worker 1 true, .worker 1 true, .main true, .main true, .main true, .main true,
    .worker 0 true, .worker 0 true]

/-- The second worker passes its test, too. -/
def warmupEntered : List (Event 2) := warmupOpened ++ [.worker 1 true, .worker 1 true]

/-- The first worker's allocation fails and it waits at the barrier; the second worker skips the warmup. -/
def warmupSkipped : List (Event 2) :=
  warmupOpened ++ [.worker 0 false, .worker 0 true, .worker 0 true, .worker 1 true, .worker 1 true, .worker 1 true]

theorem ring_barrier_agreement_two : ∃ run event run', (timelyBenchmark 2).Reachable run ∧
    FailsAllocation run event .warmup ∧ Timely run event ∧ run.perform event = some run' ∧ Agreement run ∧
    ∃ bound, ∀ trace last, (benchmark 2).Run run' trace last →
      trace.length ≤ bound ∧ Agreement last ∧ last.main ≠ .returned true ∧ (Finished last ∨ CanStep last) := by
  have hentered : ((RunContext.initial 2).performAll warmupEntered).any (fun run =>
      run.worker 0 = .allocate .warmup ∧ run.worker 1 = .allocate .warmup) = true := by decide +kernel
  obtain ⟨run, hperform, hworkers⟩ := (Option.any_eq_true _ _).mp hentered
  obtain ⟨hfirst, hsecond⟩ := of_decide_eq_true hworkers
  have hreach := reachable_of_performAll (System.Reachable.init rfl) (by decide) hperform
  have hfails : FailsAllocation run (.worker 0 false) .warmup := ⟨0, rfl, hfirst⟩
  have htimely : Timely run (.worker 0 false) := by
    intro p _
    rw [Fin.forall_fin_two, hfirst, hsecond]
    exact ⟨by simp [Worker.Untested], by simp [Worker.Untested]⟩
  have hstep : run.perform (.worker 0 false)
      = some ({ run with failed := run.failed || !false }.goto 0 (.sendOutgoing .warmup false)) := by
    change run.stepWorker 0 false = _
    unfold RunContext.stepWorker
    rw [hfirst]
  obtain ⟨hagree, hend, -⟩ := ring_barrier_agreement 2
  exact ⟨run, _, _, hreach, hfails, htimely, hstep, (hagree run hreach).1,
    hend run _ .warmup _ hreach hfails htimely hstep⟩

/-- A failed allocation leaves a worker at the barrier for ever, and the benchmark does not return. -/
theorem ring_barrier_deadlock : ∃ run : RunContext 2, (benchmark 2).Reachable run ∧ ¬ Agreement run ∧
    (∀ event, run.perform event = none) ∧ ∀ success, run.main ≠ .returned success := by
  have hskipped : ((RunContext.initial 2).performAll warmupSkipped).any (fun run =>
      (run.worker 0).WaitsIn .warmup run.ringBarrier.generation ∧ (run.worker 1).HasLeft .warmup ∧
        run.main = .awaitWarmupDone ∧ (∀ index outcome, (run.stepWorker index outcome).isNone) ∧
        ∀ outcome, (run.stepMain outcome).isNone) = true := by decide +kernel
  obtain ⟨run, hperform, hcheck⟩ := (Option.any_eq_true _ _).mp hskipped
  obtain ⟨hwaits, hleft, hmain, hworkers, hmains⟩ := of_decide_eq_true hcheck
  refine ⟨run, ⟨_, _, rfl, run_of_performAll hperform⟩, fun hagreement => ?_, fun event => ?_, fun success => ?_⟩
  · exact hagreement.waiting 0 1 .warmup hwaits hleft
  · cases event with
    | worker index outcome => exact Option.isNone_iff_eq_none.mp (hworkers index outcome)
    | main outcome => exact Option.isNone_iff_eq_none.mp (hmains outcome)
  · rw [hmain]
    exact Main.noConfusion

end Hplf.Ring
