import HplfMalloc.Proof.QueueDescent
import HplfMalloc.QueueSafety

/-!
# Progress and success of the queue benchmark

If no lock fails and a signal wakes a waiting worker when there is one, the benchmark cannot get stuck, and once the
clock has reached the deadlines it ends after a number of steps that the number of threads bounds. If besides no other
call fails, it ends with a result.
-/

namespace Hplf.Queue

open Lib Hplf.Bench
open Hplf.Ring (Timed)
open scoped BigOperators

variable {config : BenchmarkConfig} {σ σ' : State config.threads} {i : Fin config.threads}
  {o : Outcome config.threads}

/-- What the environment can answer: no address that is in use, and no time before the last one. -/
structure Outcome.Consistent {threads : Nat} (σ : State threads) (o : Outcome threads) : Prop where
  fresh : ∀ address bytes, o.allocation = some (address, bytes) → σ.store address = none
  monotone : ∀ now, o.time = some now → σ.clock ≤ now

/-- The runs in which no lock fails and a signal wakes a waiting worker if there is one. The second part of a label says
whether the event has read the clock before the deadline. -/
def reliableBenchmark (config : BenchmarkConfig) : System (State config.threads) (Event config.threads × Bool) where
  init σ := σ = .initial config
  step σ e σ' := ∃ event, e = some (event, event.early σ) ∧ event.Locks ∧ event.Reliable σ ∧
    σ.perform config event = some σ'

/-! ### Some thread can act -/

theorem readTime_isSome {threads : Nat} {σ failure : State threads} {o : Outcome threads}
    {success : UInt64 → State threads → State threads} (hmonotone : ∀ now, o.time = some now → σ.clock ≤ now) :
    (σ.readTime o failure success).isSome = true := by
  unfold State.readTime
  cases htime : o.time with
  | none => rfl
  | some now =>
      simp only
      rw [if_neg (UInt64.not_lt.mpr (hmonotone now htime))]
      rfl

theorem produceItem_isSome (ho : o.Consistent σ) : (σ.produceItem config i o).isSome = true := by
  unfold State.produceItem
  by_cases hhandoff : config.workload = .handoff
  · simp only [if_pos hhandoff]
    rcases hallocation : o.allocation with _ | ⟨address, bytes⟩
    · rfl
    · have hfresh := ho.fresh address bytes hallocation
      simp [State.modifyStats, hfresh]
  · simp only [if_neg hhandoff]
    rfl

/-- A worker that is neither at a phase nor blocked. -/
theorem stepWorker_isSome (ho : o.Consistent σ) (hidle : σ.worker i ≠ .idle) (hfault : σ.worker i ≠ .fault)
    (hawake : (σ.worker i).waiting = false) : (σ.stepWorker config i o).isSome = true := by
  unfold State.stepWorker
  cases hpc : σ.worker i with
  | idle => exact absurd hpc hidle
  | fault => exact absurd hpc hfault
  | push item turn =>
      rw [hpc] at hawake
      cases turn with
      | waiting => cases hawake
      | fresh | woken => rfl
  | pop turn =>
      rw [hpc] at hawake
      cases turn with
      | waiting => cases hawake
      | fresh | woken => rfl
  | produce => exact produceItem_isSome ho
  | readClock | readEnd => exact readTime_isSome ho.monotone
  | _ => rfl

theorem not_waiting_of_awake {worker : Worker}
    (hawake : notEmpty.awake worker = true ∨ notFull.awake worker = true) :
    worker ≠ .idle ∧ worker.waiting = false := by
  cases worker with
  | push item turn => cases turn <;> simp [Worker.waiting, notEmpty, notFull] at hawake ⊢
  | pop turn => cases turn <;> simp [Worker.waiting, notEmpty, notFull] at hawake ⊢
  | _ => simp [notEmpty, notFull] at hawake

/-- Who waits, waits for a worker that does not. -/
theorem Live.exists_busy (h : Live config σ) (hpossession : Possession config σ) (hflow : Flow config true σ)
    (hrange : State.InRange config) (hbusy : σ.worker i ≠ .idle) :
    ∃ j, σ.worker j ≠ .idle ∧ (σ.worker j).waiting = false := by
  by_contra hnone
  have hwaits (j : Fin config.threads) (hj : σ.worker j ≠ .idle) : (σ.worker j).waiting = true := by
    by_contra hawake
    exact hnone ⟨j, hj, Bool.eq_false_iff.mpr hawake⟩
  have hnever (j : Fin config.threads) :
      ¬ (notEmpty.awake (σ.worker j) = true ∨ notFull.awake (σ.worker j) = true) := fun hawake =>
    hnone ⟨j, not_waiting_of_awake hawake⟩
  have hcapacity : 0 < σ.queue.capacity := Nat.zero_lt_of_lt hpossession.fits.head_lt
  cases hfailed : σ.failed with
  | true =>
      obtain ⟨j, hj⟩ := h.aborting hfailed ⟨i, hwaits i hbusy⟩
      have hwaiting := hwaits j (by rw [hj]; intro hidle; cases hidle)
      rw [hj] at hwaiting
      cases hwaiting
  | false =>
      have hempty (j : Fin config.threads) (hj : notEmpty.waits (σ.worker j) = true) : σ.queue.count = 0 := by
        by_contra hcount
        obtain ⟨k, hk⟩ := (h.servedEmpty hfailed).exists_awake (Nat.pos_of_ne_zero hcount) hj
        exact hnever k (.inl hk)
      have hfull (j : Fin config.threads) (hj : notFull.waits (σ.worker j) = true) :
          σ.queue.capacity ≤ σ.queue.count := by
        by_contra hroom
        obtain ⟨k, hk⟩ := (h.servedFull hfailed).exists_awake (by omega) hj
        exact hnever k (.inr hk)
      by_cases hsolo : config.threads = 1
      · have hkept : (σ.worker i).lost σ.failed = false := by
          have hwaiting := hwaits i hbusy
          cases hpc : σ.worker i with
          | push | pop => rfl
          | _ =>
              rw [hpc] at hwaiting
              cases hwaiting
        have hcount := hflow.solo hsolo i hkept
        rcases (waiting_iff _).mp (hwaits i hbusy) with hpop | hpush
        · exact hflow.not_solo (pop_of_waits hpop) (hempty i hpop) hsolo
        · obtain ⟨item, hitem⟩ := push_of_waits hpush
          have hroom := hfull i hpush
          rw [hitem] at hcount
          simp only [Worker.popping] at hcount
          omega
      · have hpushes (j : Fin config.threads) : notFull.waits (σ.worker j) = false := by
          rw [Bool.eq_false_iff]
          intro hpush
          have hroom := hfull j hpush
          obtain ⟨k, hconsumer⟩ := exists_consumer hrange.1 hsolo
          have hat := hpossession.worker k
          by_cases hidle : σ.worker k = .idle
          · have hdrained := (hflow.drained hfailed k hconsumer (by rw [hidle]; rfl)).2
            omega
          · rcases (waiting_iff _).mp (hwaits k hidle) with hpop | hpush'
            · have hcount := hempty k hpop
              omega
            · obtain ⟨item, hitem⟩ := push_of_waits hpush'
              rw [hitem, hconsumer] at hat
              cases hat.1
        have hpop : notEmpty.waits (σ.worker i) = true :=
          ((waiting_iff _).mp (hwaits i hbusy)).resolve_right (Bool.eq_false_iff.mp (hpushes i))
        have hremaining : σ.producersRemaining ≠ 0 := by
          intro hzero
          rw [h.drained hzero i] at hpop
          cases hpop
        rw [hflow.remaining_eq hsolo hfailed] at hremaining
        obtain ⟨j, -, hactive⟩ := Finset.exists_ne_zero_of_sum_ne_zero hremaining
        have hproducer : isProducer j = true := by
          by_contra hconsumer
          rw [Bool.eq_false_iff.mpr hconsumer] at hactive
          exact hactive rfl
        have hidle : σ.worker j ≠ .idle := by
          intro hidle
          rw [hidle, hproducer] at hactive
          exact hactive rfl
        have hat := hpossession.worker j
        have hpop' : notEmpty.waits (σ.worker j) = true :=
          ((waiting_iff _).mp (hwaits j hidle)).resolve_right (Bool.eq_false_iff.mp (hpushes j))
        rw [pop_of_waits hpop'] at hat
        exact hsolo (hat hproducer)

theorem stepMain_isSome (ho : o.Consistent σ) (hrunning : σ.main.running = true) (hidle : ∀ i, σ.worker i = .idle) :
    (σ.stepMain config o).isSome = true := by
  unfold State.stepMain
  cases hpc : σ.main with
  | prepare => rfl
  | openPhase phase =>
      simp only [if_pos hidle]
      split
      · rfl
      · exact readTime_isSome ho.monotone
  | join index success =>
      simp only [hidle, if_true]
      split
      · split <;> rfl
      · rfl
  | returned result =>
      rw [hpc] at hrunning
      cases hrunning

/-- Until `benchmark_run` returns, there is a thread that can act whatever its calls answer. -/
theorem Live.progress (h : Live config σ) (hinv : Inv config true σ) (hrange : State.InRange config)
    (hrunning : σ.main.running = true) :
    (∃ i, ∀ o : Outcome config.threads, o.Consistent σ → (σ.perform config (.worker i o)).isSome = true) ∨
      ∀ o : Outcome config.threads, o.Consistent σ → (σ.perform config (.main o)).isSome = true := by
  by_cases hidle : ∀ i, σ.worker i = .idle
  · refine .inr fun o ho => ?_
    rw [State.perform, if_pos hrunning]
    exact stepMain_isSome ho hrunning hidle
  · rw [not_forall] at hidle
    obtain ⟨i, hbusy⟩ := hidle
    obtain ⟨j, hj, hawake⟩ := h.exists_busy hinv.possession (hinv.flow hrunning) hrange hbusy
    refine .inl ⟨j, fun o ho => ?_⟩
    rw [State.perform, if_pos hrunning]
    refine stepWorker_isSome ho hj (fun hfault => ?_) hawake
    have hat := hinv.possession.worker j
    rw [hfault] at hat
    exact hat

/-! ### Runs end -/

theorem Live.of_run (hrange : State.InRange config) {trace : List (Event config.threads × Bool)}
    (hrun : (reliableBenchmark config).Run (.initial config) trace σ) :
    Inv config true σ ∧ Live config σ ∧
      σ.potential + trace.length ≤ (State.initial config).potential
        + 15 * trace.countP (fun e => e.2) + 2 * trace.countP fun e => e.1.spurious := by
  induction hrun with
  | refl => exact ⟨inv_initial hrange true, live_initial config, Nat.le_refl _⟩
  | internal _ hstep _ =>
      obtain ⟨event, hnone, -⟩ := hstep
      cases hnone
  | @observe trace y z e _ hstep ih =>
      obtain ⟨event, hevent, hlocks, hreliable, hperform⟩ := hstep
      cases hevent
      obtain ⟨hinv, hlive, hbound⟩ := ih
      obtain ⟨hstep, hrunning⟩ := perform_step hperform
      have hdescent := descent hinv hstep
      refine ⟨hinv.perform hrange (fun _ => hlocks) hperform,
        hlive.perform hinv hrunning hlocks hreliable hstep, ?_⟩
      simp only [List.length_append, List.length_cons, List.length_nil, List.countP_append, List.countP_cons,
        List.countP_nil]
      omega

/-- **Progress.** A run has at most so many steps for each time the clock is read before the deadline and each
wake-up by nobody; and until `benchmark_run` returns some thread can act, so that no wake-up is lost. -/
theorem queue_benchmark_ends (config : BenchmarkConfig) (hrange : State.InRange config)
    (trace : List (Event config.threads × Bool)) (σ : State config.threads)
    (hrun : (reliableBenchmark config).Run (.initial config) trace σ) :
    trace.length ≤ 2 * (config.threads * (3 * config.threads + 20)) + config.threads + 4
        + 15 * trace.countP (fun e => e.2) + 2 * trace.countP (fun e => e.1.spurious) ∧
      (σ.main.running = true →
        (∃ i, ∀ o : Outcome config.threads, o.Consistent σ → (σ.perform config (.worker i o)).isSome = true) ∨
          ∀ o : Outcome config.threads, o.Consistent σ → (σ.perform config (.main o)).isSome = true) := by
  obtain ⟨hinv, hlive, hbound⟩ := Live.of_run hrange hrun
  refine ⟨?_, hlive.progress hinv hrange⟩
  rw [potential_initial, phaseWork] at hbound
  omega

instance (event : Event config.threads) : Decidable event.Locks :=
  match event with
  | .worker _ o => inferInstanceAs (Decidable (o.lockFails = false))
  | .main _ | .wake _ => inferInstanceAs (Decidable True)

instance (i : Fin config.threads) (o : Outcome config.threads) : Decidable (o.Reliable σ i) :=
  match hpc : σ.worker i with
  | .push _ _ => decidable_of_iff (notEmpty.Wakes σ.worker o.woken) (by rw [Outcome.Reliable, hpc])
  | .pop _ => decidable_of_iff (notFull.Wakes σ.worker o.woken) (by rw [Outcome.Reliable, hpc])
  | .idle | .testFailed | .produce | .fill _ | .refuse _ | .readClock | .testLoop | .abort | .abortBroadcast
  | .producerDone | .check _ | .release _ _ | .readEnd | .finish | .reportFailure | .fault =>
      isTrue (by rw [Outcome.Reliable, hpc]; trivial)

instance (event : Event config.threads) : Decidable (event.Reliable σ) :=
  match event with
  | .worker i o => inferInstanceAs (Decidable (o.Reliable σ i))
  | .main _ | .wake _ => inferInstanceAs (Decidable True)

/-- The step of an event, if it is a reliable one. -/
def State.reliableStep (config : BenchmarkConfig) (σ : State config.threads) (event : Event config.threads) :
    Option (Option (Event config.threads × Bool) × State config.threads) :=
  if event.Locks ∧ event.Reliable σ then
    (σ.perform config event).map fun σ' => (some (event, event.early σ), σ')
  else
    none

theorem reliableStep_step (x : State config.threads) (event : Event config.threads)
    (e : Option (Event config.threads × Bool)) (y : State config.threads)
    (hstep : x.reliableStep config event = some (e, y)) : (reliableBenchmark config).step x e y := by
  unfold State.reliableStep at hstep
  split at hstep
  next hallowed =>
    obtain ⟨σ', hperform, hsame⟩ := Option.map_eq_some_iff.mp hstep
    cases hsame
    exact ⟨event, rfl, hallowed.1, hallowed.2, hperform⟩
  next => cases hstep

/-- The consumer waits for an item and is woken by the first one, but before it takes it the producer waits with its
second one. -/
def twoWorkersFull : List (Event 2) :=
  List.replicate 2 (.main (outcomeAt 0)) ++ List.replicate 2 (.worker 1 (outcomeAt 0)) ++
    List.replicate 3 (.worker 0 (outcomeAt 0)) ++ [.worker 0 { outcomeAt 0 with woken := some 1 }] ++
    List.replicate 2 (.worker 0 (outcomeAt 0)) ++
    List.replicate 3 (.worker 0 { outcomeAt 0 with allocation := some (128, fun _ => 0) })

theorem queue_benchmark_ends_two_workers :
    ∃ trace σ, (reliableBenchmark twoWorkers).Run (.initial twoWorkers) trace σ ∧
      (σ.worker (0 : Fin 2)).waiting = true ∧ σ.queue.count = σ.queue.capacity ∧
      trace.length ≤ 110 + 15 * trace.countP (fun e => e.2) + 2 * trace.countP (fun e => e.1.spurious) ∧
      ((∃ i, ∀ o : Outcome 2, o.Consistent σ → (σ.perform twoWorkers (.worker i o)).isSome = true) ∨
        ∀ o : Outcome 2, o.Consistent σ → (σ.perform twoWorkers (.main o)).isSome = true) := by
  obtain ⟨trace, σ, hrun, hcheck⟩ := System.exists_run reliableStep_step (.initial twoWorkers) twoWorkersFull
    (fun _ σ => (σ.worker (0 : Fin 2)).waiting && σ.queue.count == σ.queue.capacity && σ.main.running)
    (by decide +kernel)
  simp only [Bool.and_eq_true, beq_iff_eq] at hcheck
  obtain ⟨⟨hwaiting, hfull⟩, hrunning⟩ := hcheck
  obtain ⟨hbound, hprogress⟩ := queue_benchmark_ends twoWorkers (by decide) trace σ hrun
  exact ⟨trace, σ, hrun, hwaiting, hfull, hbound, hprogress hrunning⟩

/-! ### Runs without failures -/

/-- No call fails, and the phases end before the clock does. -/
structure Outcome.Faultless (config : BenchmarkConfig) (o : Outcome config.threads) : Prop where
  prepare : o.prepareFails = false
  create : o.createFails = false
  join : o.joinFails = false
  lock : o.lockFails = false
  allocation : o.allocation ≠ none
  time : ∃ now, o.time = some now ∧ ∀ phase, State.durationOf config phase ≤ 18446744073709551615 - now

def Event.Faultless (config : BenchmarkConfig) : Event config.threads → Prop
  | .worker _ o | .main o => o.Faultless config
  | .wake _ => True

/-- The runs in which no call fails. -/
def faultlessBenchmark (config : BenchmarkConfig) : System (State config.threads) (Event config.threads) where
  init σ := σ = .initial config
  step σ e σ' := ∃ event, e = some event ∧ event.Faultless config ∧ σ.perform config event = some σ'

theorem generateTraces_ne_none (hrange : State.InRange config)
    (hworkload : config.workload = .handoff ∨ config.workload = .queueOnly) : generateTraces config ≠ none := by
  have hlength : traceLength config = 4096 := by
    unfold traceLength
    rcases hworkload with hhandoff | hqueue
    · rw [hhandoff]
      rfl
    · rw [hqueue]
      rfl
  have hthreads := hrange.2.1
  unfold generateTraces
  rw [hlength, if_neg (by unfold maxTraceEntries; omega)]
  exact Option.some_ne_none _

theorem Outcome.Faultless.time_ne_none (ho : o.Faultless config) : o.time ≠ none := by
  obtain ⟨now, htime, -⟩ := ho.time
  rw [htime]
  exact Option.some_ne_none now

/-- A worker goes on, and has not found a failure. -/
theorem not_doomed_move {τ : State config.threads} {w : Worker} (hsound : ¬ σ.Doomed)
    (hworker : ∀ j, (τ.worker j).calm = (Function.update σ.worker i w j).calm) (hfailed : τ.failed = σ.failed)
    (hw : w.doomed = false) : ¬ τ.Doomed := by
  rintro (htrue | ⟨j, hj⟩)
  · exact hsound (.inl (hfailed ▸ htrue))
  · rw [apply_of_calm Worker.doomed_calm hworker] at hj
    by_cases hi : j = i
    · subst hi
      rw [Function.update_self, hw] at hj
      cases hj
    · rw [Function.update_of_ne hi] at hj
      exact hsound (.inr ⟨j, hj⟩)

theorem doomed_branches (threads : Nat) :
    (afterPush threads).doomed = false ∧ (afterItem threads).doomed = false ∧ (afterClock threads).doomed = false := by
  by_cases hsolo : threads = 1 <;> simp [afterPush, afterItem, afterClock, hsolo, Worker.doomed]

theorem not_doomed_worker (h : Inv config true σ) (hflow : Flow config true σ) (hsound : ¬ σ.Doomed)
    {event : Event config.threads}
    (hfaultless : event.Faultless config) (hstep : Step config σ event σ') (hworker : event.ofWorker = true) :
    ¬ σ'.Doomed := by
  obtain ⟨hpush, hitem, hclock⟩ := doomed_branches config.threads
  have hquiet : σ.failed ≠ true := fun hfailed => hsound (.inl hfailed)
  cases hstep with
  | refused | prepare | stop | stopClock | openPhase | joinFails | join | conclude => cases hworker
  | fault hfault => exact absurd (h.possession.safe _) hfault
  | checkInvalid hpc haccess hcheck => exact absurd hcheck (h.possession.payloadCheck_ne_none hpc haccess)
  | @releaseInvalid i o item store hpc => cases (h.possession.known hpc).2.1
  | pushLockFails _ hlock | popLockFails _ hlock =>
      rw [hfaultless.lock] at hlock
      cases hlock
  | unallocated _ _ hallocation => exact absurd hallocation hfaultless.allocation
  | clockFailed _ htime | endFailed _ htime => exact absurd htime hfaultless.time_ne_none
  | skip _ hfailed | pushRefused _ hfailed | leave _ hfailed | finishFailed _ hfailed => exact absurd hfailed hquiet
  | @refuse i o item store hpc => exact absurd ((h.exact rfl).refused i item hpc) hquiet
  | @abortBroadcast i o hpc => exact absurd (h.possession.known hpc).2.2 hquiet
  | @abort i o hpc | @reportFailure i o hpc => exact absurd (.inr ⟨i, by rw [hpc]; rfl⟩) hsound
  | enter => exact not_doomed_move hsound (fun _ => rfl) rfl (by split <;> rfl)
  | allocate | plain | fill | pushWait | clockLate | loop | popWait | checkValid | readEnd | finish =>
      exact not_doomed_move hsound (fun _ => rfl) rfl rfl
  | clockEarly => exact not_doomed_move hsound (fun _ => rfl) rfl hclock
  | checkPlain | release => exact not_doomed_move hsound (fun _ => rfl) rfl hitem
  | put => exact not_doomed_move hsound (calm_signal_notEmpty _ _) rfl hpush
  | take => exact not_doomed_move hsound (calm_signal_notFull _ _) rfl rfl
  | producerDone => exact not_doomed_move hsound (calm_broadcast_notEmpty _) rfl rfl
  | @popDrained i o turn hpc hcount =>
      exact not_doomed_move hsound (fun _ => rfl) rfl (by rw [afterDrained, if_neg (hflow.not_solo hpc hcount)]; rfl)
  | @wake i hwaits =>
      refine not_doomed_move hsound (fun _ => rfl) rfl ?_
      rw [← Worker.doomed_calm, Worker.calm_wake, Worker.doomed_calm, Bool.eq_false_iff]
      exact fun hdoomed => hsound (.inr ⟨i, hdoomed⟩)

/-- Nothing has failed, and nothing but a result was returned. -/
structure Sound (config : BenchmarkConfig) (σ : State config.threads) : Prop where
  inv : Inv config true σ
  quiet : ¬ σ.Doomed
  joined : ∀ index success, σ.main = .join index success → success = true
  returned : ∀ error, σ.main ≠ .returned (.error error)

/-- The timer interval is never invalid, so that nothing is left that `benchmark_run` could find at its end. -/
theorem conclude_isOk (h : Inv config true { σ with main := .returned (σ.conclude config true o) })
    (hquiet : σ.failed = false) (error : String) : σ.conclude config true o ≠ .error error := by
  intro hconclude
  have hmain := (h.exact rfl).main
  rw [hconclude] at hmain
  unfold State.conclude at hconclude
  rw [if_neg (by rw [hquiet]; decide)] at hconclude
  split at hconclude
  · exact hmain (Except.error.inj hconclude).symm
  · cases hconclude

theorem Sound.main_step (h : Sound config σ) (hrange : State.InRange config)
    (hworkload : config.workload = .handoff ∨ config.workload = .queueOnly) {event : Event config.threads}
    (hfaultless : event.Faultless config) (hinv : Inv config true σ') (hstep : Step config σ event σ')
    (hworker : event.ofWorker = false) : Sound config σ' := by
  have hquiet : σ.failed ≠ true := fun hfailed => h.quiet (.inl hfailed)
  cases hstep with
  | refused _ _ hcause =>
      rcases hcause hrange with hprepare | htraces | hcreate
      · rw [hfaultless.prepare] at hprepare
        cases hprepare
      · exact absurd htraces (generateTraces_ne_none hrange hworkload)
      · rw [hfaultless.create] at hcreate
        cases hcreate
  | stop _ _ hfailed => exact absurd hfailed hquiet
  | stopClock _ _ _ _ hcause =>
      obtain ⟨now, htime, hroom⟩ := hfaultless.time
      exact absurd (hroom _) (hcause now htime)
  | prepare => exact ⟨hinv, h.quiet, fun _ _ hnone => (by cases hnone), fun _ hnone => by cases hnone⟩
  | @openPhase o phase start hpc hidle hfailed =>
      refine ⟨hinv, ?_, fun index success hjoin => ?_, fun _ hnone => by cases phase <;> cases hnone⟩
      · rintro (htrue | ⟨j, hj⟩)
        · exact hquiet htrue
        · cases hj
      · cases phase <;> cases hjoin
        rfl
  | joinFails _ _ hjoin =>
      rw [hfaultless.join] at hjoin
      cases hjoin
  | join hpc =>
      refine ⟨hinv, h.quiet, fun index success hjoin => ?_, fun _ hnone => by cases hnone⟩
      cases hjoin
      exact h.joined _ _ hpc
  | conclude hpc =>
      cases h.joined _ _ hpc
      refine ⟨hinv, h.quiet, fun _ _ hnone => (by cases hnone), fun error hreturned => ?_⟩
      exact conclude_isOk hinv (Bool.eq_false_iff.mpr hquiet) error (Main.returned.inj hreturned)
  | _ => cases hworker

theorem Event.Faultless.locks {event : Event config.threads} (h : event.Faultless config) : event.Locks := by
  cases event with
  | worker i o => exact h.lock
  | main | wake => trivial

theorem Sound.step (h : Sound config σ) (hrange : State.InRange config)
    (hworkload : config.workload = .handoff ∨ config.workload = .queueOnly) {event : Event config.threads}
    (hfaultless : event.Faultless config) (hperform : σ.perform config event = some σ') : Sound config σ' := by
  obtain ⟨hstep, hrunning⟩ := perform_step hperform
  have hinv := h.inv.perform hrange (fun _ => hfaultless.locks) hperform
  cases hworker : event.ofWorker with
  | true =>
      refine ⟨hinv, not_doomed_worker h.inv (h.inv.flow hrunning) h.quiet hfaultless hstep hworker, ?_, ?_⟩
      · rw [(hstep.frame hworker).2.2]
        exact h.joined
      · rw [(hstep.frame hworker).2.2]
        exact h.returned
  | false => exact h.main_step hrange hworkload hfaultless hinv hstep hworker

/-- **Success.** When `benchmark_run` returns from a run in which no call has failed, it returns a result. -/
theorem queue_benchmark_succeeds (config : BenchmarkConfig) (hrange : State.InRange config)
    (hworkload : config.workload = .handoff ∨ config.workload = .queueOnly) (σ : State config.threads)
    (hreach : (faultlessBenchmark config).Reachable σ) :
    σ.failed = false ∧ ∀ returned, σ.main = .returned returned →
      ∃ result, returned = .ok result ∧ Completed config σ result := by
  have hsound : Sound config σ := by
    refine hreach.invariant (fun x hx => ?_) ?_
    · rw [show x = .initial config from hx]
      refine ⟨inv_initial hrange true, ?_, fun _ _ hnone => (by cases hnone), fun _ hnone => by cases hnone⟩
      rintro (hfailed | ⟨j, hj⟩)
      · cases hfailed
      · cases hj
    · rintro x e y hx ⟨event, -, hfaultless, hperform⟩
      exact hx.step hrange hworkload hfaultless hperform
  refine ⟨Bool.eq_false_iff.mpr fun hfailed => hsound.quiet (.inl hfailed), fun returned hreturned => ?_⟩
  cases returned with
  | error error => exact absurd hreturned (hsound.returned error)
  | ok result =>
      have hmain := (hsound.inv.exact rfl).main
      rw [hreturned] at hmain
      exact ⟨result, rfl, hmain⟩

theorem faultless_run (events : List (Event config.threads)) (hfaultless : ∀ event ∈ events, event.Faultless config)
    (hreach : (faultlessBenchmark config).Reachable σ) (hrun : σ.run config events = some σ') :
    (faultlessBenchmark config).Reachable σ' := by
  induction events generalizing σ with
  | nil => exact Option.some.inj hrun ▸ hreach
  | cons event events ih =>
      rw [State.run] at hrun
      split at hrun
      · cases hrun
      next σ' hstep =>
        refine ih (fun e he => hfaultless e (List.mem_cons_of_mem _ he)) ?_ hrun
        exact hreach.step ⟨event, rfl, hfaultless event List.mem_cons_self, hstep⟩

theorem faultless_outcomeAt {now : UInt64} (hnow : now ≤ 3) : (outcomeAt now).Faultless twoWorkers := by
  have hroom : 1 ≤ 18446744073709551615 - now := by
    rw [UInt64.le_iff_toNat_le] at hnow ⊢
    rw [UInt64.toNat_sub_of_le _ _ (UInt64.le_iff_toNat_le.mpr (by simp at hnow ⊢; omega))]
    simp at hnow ⊢
    omega
  exact ⟨rfl, rfl, rfl, rfl, Option.some_ne_none _, now, rfl, fun phase => by cases phase <;> exact hroom⟩

theorem faultless_twoWorkersRun : ∀ event ∈ twoWorkersRun, event.Faultless twoWorkers := by
  intro event hevent
  simp only [twoWorkersRun, twoWorkersPhase, List.mem_append, List.mem_replicate, List.mem_singleton] at hevent
  rcases hevent with (((⟨-, rfl⟩ | ⟨-, rfl⟩ | ⟨-, rfl⟩) | rfl) | ⟨-, rfl⟩ | ⟨-, rfl⟩) | ⟨-, rfl⟩ <;>
    exact faultless_outcomeAt (by decide)

theorem queue_benchmark_succeeds_two_workers :
    ∃ σ, State.run twoWorkers (.initial twoWorkers) twoWorkersRun = some σ ∧
      ∃ result, σ.main = .returned (.ok result) ∧ Completed twoWorkers σ result := by
  have hreach : (faultlessBenchmark twoWorkers).Reachable _ :=
    faultless_run twoWorkersRun faultless_twoWorkersRun (.init rfl) rfl
  obtain ⟨result, hresult, hcompleted⟩ :=
    (queue_benchmark_succeeds twoWorkers (by decide) (.inl rfl) _ hreach).2 _ rfl
  exact ⟨_, rfl, result, congrArg Main.returned hresult, hcompleted⟩

end Hplf.Queue
