import HplfMalloc.Proof.QueueReport

/-!
# The wake-ups of the queue benchmark

If a signal wakes a waiting worker when there is one, no wake-up is lost: whoever waits is served by a worker that is
awake, or by the broadcasts of a worker that has failed.
-/

namespace Hplf.Queue

open Lib Hplf.Bench
open scoped BigOperators

variable {config : BenchmarkConfig} {σ σ' : State config.threads} {i : Fin config.threads} {o : Outcome config.threads}

/-- A signal wakes a waiting worker if there is one. -/
def Outcome.Reliable (σ : State config.threads) (i : Fin config.threads) (o : Outcome config.threads) : Prop :=
  match σ.worker i with
  | .push _ _ => notEmpty.Wakes σ.worker o.woken
  | .pop _ => notFull.Wakes σ.worker o.woken
  | _ => True

def Event.Reliable (σ : State config.threads) : Event config.threads → Prop
  | .worker i o => o.Reliable σ i
  | .main _ | .wake _ => True

def Worker.waiting : Worker → Bool
  | .push _ .waiting | .pop .waiting => true
  | _ => false

structure Live (config : BenchmarkConfig) (σ : State config.threads) : Prop where
  servedEmpty : σ.failed = false → notEmpty.Served σ.queue.count σ.worker
  servedFull : σ.failed = false → notFull.Served (σ.queue.capacity - σ.queue.count) σ.worker
  drained : σ.producersRemaining = 0 → ∀ i, notEmpty.waits (σ.worker i) = false
  /-- The broadcasts of `queue_abort` are still to come. -/
  aborting : σ.failed = true → (∃ i, (σ.worker i).waiting = true) → ∃ j, σ.worker j = .abortBroadcast
  reported : config.threads ≠ 1 → ∀ i, isProducer i = true → σ.worker i = .reportFailure → σ.failed = true

theorem waiting_iff (worker : Worker) :
    worker.waiting = true ↔ notEmpty.waits worker = true ∨ notFull.waits worker = true := by
  cases worker with
  | push item turn => cases turn <;> simp [Worker.waiting, notEmpty, notFull]
  | pop turn => cases turn <;> simp [Worker.waiting, notEmpty, notFull]
  | _ => simp [Worker.waiting, notEmpty, notFull]

theorem not_waits {worker : Worker} (hnot : worker.waiting = false) :
    notEmpty.waits worker = false ∧ notFull.waits worker = false := by
  have hnone := (waiting_iff worker).not.mp (Bool.eq_false_iff.mp hnot)
  rw [not_or, Bool.not_eq_true, Bool.not_eq_true] at hnone
  exact hnone

theorem pop_of_waits {worker : Worker} (hwaits : notEmpty.waits worker = true) : worker = .pop .waiting := by
  simpa [notEmpty] using hwaits

theorem push_of_waits {worker : Worker} (hwaits : notFull.waits worker = true) :
    ∃ item, worker = .push item .waiting := by
  cases worker with
  | push item turn =>
      cases turn with
      | waiting => exact ⟨item, rfl⟩
      | fresh | woken => cases hwaits
  | _ => cases hwaits

theorem wake_ne_iff (worker : Worker) : worker.wake ≠ worker ↔ worker.waiting = true := by
  cases worker with
  | push item turn => cases turn <;> simp [Worker.wake, Worker.waiting]
  | pop turn => cases turn <;> simp [Worker.wake, Worker.waiting]
  | _ => simp [Worker.wake, Worker.waiting]

theorem goto_self (τ : State config.threads) (next : Worker) : (τ.goto i next).worker i = next :=
  Function.update_self _ _ _

theorem goto_of_ne (τ : State config.threads) (next : Worker) {j : Fin config.threads} (hj : j ≠ i) :
    (τ.goto i next).worker j = τ.worker j :=
  Function.update_of_ne hj _ _

/-! ### Wake-ups on the other condition -/

section Other

variable {worker worker' : Worker}

theorem notFull_of_notEmpty
    (hwoken : worker' = worker ∨ notEmpty.waits worker = true ∧ worker' = notEmpty.wake worker) :
    notFull.waits worker' = notFull.waits worker ∧ notFull.awake worker' = notFull.awake worker := by
  rcases hwoken with rfl | ⟨hwaits, rfl⟩
  · exact ⟨rfl, rfl⟩
  · rw [pop_of_waits hwaits]
    exact ⟨rfl, rfl⟩

theorem notEmpty_of_notFull
    (hwoken : worker' = worker ∨ notFull.waits worker = true ∧ worker' = notFull.wake worker) :
    notEmpty.waits worker' = notEmpty.waits worker ∧ notEmpty.awake worker' = notEmpty.awake worker := by
  rcases hwoken with rfl | ⟨hwaits, rfl⟩
  · exact ⟨rfl, rfl⟩
  · obtain ⟨item, rfl⟩ := push_of_waits hwaits
    exact ⟨rfl, rfl⟩

end Other

/-! ### Moves -/

section Moves

variable {τ : State config.threads} {next : Worker}

/-- A worker that is awake on neither condition goes on without the queue. -/
theorem Live.move (h : Live config σ) (hworker : τ.worker = Function.update σ.worker i next)
    (hqueue : τ.queue = σ.queue) (hremaining : τ.producersRemaining = σ.producersRemaining)
    (hfailed : τ.failed = σ.failed)
    (hbefore : σ.failed = false → notEmpty.awake (σ.worker i) = false ∧ notFull.awake (σ.worker i) = false)
    (hafter : next.waiting = false) (habort : σ.worker i ≠ .abortBroadcast)
    (hreported : config.threads ≠ 1 → isProducer i = true → next = .reportFailure → σ.failed = true) :
    Live config τ := by
  have hnext := not_waits hafter
  refine ⟨fun hτ => ?_, fun hτ => ?_, fun hzero j => ?_, fun hτ hwaiting => ?_, fun hsolo j hproducer hj => ?_⟩
  · rw [hfailed] at hτ
    rw [hworker, hqueue]
    refine (h.servedEmpty hτ).move hnext.1 fun hawake => ?_
    rw [(hbefore hτ).1] at hawake
    cases hawake
  · rw [hfailed] at hτ
    rw [hworker, hqueue]
    refine (h.servedFull hτ).move hnext.2 fun hawake => ?_
    rw [(hbefore hτ).2] at hawake
    cases hawake
  · rw [hworker]
    by_cases hj : j = i
    · subst hj
      rw [Function.update_self]
      exact hnext.1
    · rw [Function.update_of_ne hj]
      exact h.drained (hremaining ▸ hzero) j
  · rw [hfailed] at hτ
    obtain ⟨j, hj⟩ := hwaiting
    have hne : j ≠ i := by
      rintro rfl
      rw [hworker, Function.update_self, hafter] at hj
      cases hj
    rw [hworker, Function.update_of_ne hne] at hj
    obtain ⟨k, hk⟩ := h.aborting hτ ⟨j, hj⟩
    have hki : k ≠ i := by
      rintro rfl
      exact habort hk
    exact ⟨k, by rw [hworker, Function.update_of_ne hki, hk]⟩
  · rw [hfailed]
    rw [hworker] at hj
    by_cases hi : j = i
    · subst hi
      rw [Function.update_self] at hj
      exact hreported hsolo hproducer hj
    · rw [Function.update_of_ne hi] at hj
      exact h.reported hsolo j hproducer hj

/-- A worker goes on from outside the critical sections. -/
theorem Live.on (h : Live config σ) {worker : Worker} (hpc : σ.worker i = worker)
    (hworker : τ.worker = Function.update σ.worker i next)
    (hqueue : τ.queue = σ.queue) (hremaining : τ.producersRemaining = σ.producersRemaining)
    (hfailed : τ.failed = σ.failed)
    (hbefore : notEmpty.awake worker = false ∧ notFull.awake worker = false)
    (hafter : next.waiting = false) (habort : worker ≠ .abortBroadcast)
    (hreported : config.threads ≠ 1 → isProducer i = true → next = .reportFailure → σ.failed = true) :
    Live config τ := by
  subst hpc
  exact h.move hworker hqueue hremaining hfailed (fun _ => hbefore) hafter habort hreported

end Moves

theorem waiting_branches (threads : Nat) :
    (afterPush threads).waiting = false ∧ (afterItem threads).waiting = false ∧
      (afterDrained threads).waiting = false ∧ (afterRefusal threads).waiting = false ∧
      (afterFailure threads).waiting = false ∧ (afterClock threads).waiting = false := by
  by_cases hsolo : threads = 1 <;>
    simp [afterPush, afterItem, afterDrained, afterRefusal, afterFailure, afterClock, hsolo, Worker.waiting]

/-- Only a single worker reports a failure from within its loop. -/
theorem report_branches {threads : Nat} (hsolo : threads ≠ 1) :
    afterPush threads ≠ .reportFailure ∧ afterItem threads ≠ .reportFailure ∧
      afterDrained threads ≠ .reportFailure ∧ afterRefusal threads ≠ .reportFailure ∧
      afterFailure threads ≠ .reportFailure ∧ afterClock threads ≠ .reportFailure := by
  simp [afterPush, afterItem, afterDrained, afterRefusal, afterFailure, afterClock, hsolo]

/-- Without failures a worker that is about to report one is the last to do anything with the queue. -/
theorem Live.none_waits (h : Live config σ) (hflow : Flow config true σ) (hpossession : Possession config σ)
    (hquiet : σ.failed = false) (hpc : σ.worker i = .reportFailure) (j : Fin config.threads) :
    (σ.worker j).waiting = false := by
  by_cases hsolo : config.threads = 1
  · rw [eq_of_solo hsolo j i, hpc]
    rfl
  · have hconsumer : isProducer i = false := by
      rw [Bool.eq_false_iff]
      intro hproducer
      rw [h.reported hsolo i hproducer hpc] at hquiet
      cases hquiet
    have hzero := (hflow.drained hquiet i hconsumer (by rw [hpc]; rfl)).1
    have hempty := h.drained hzero j
    cases hj : σ.worker j with
    | push item turn =>
        have hat := hpossession.worker j
        rw [hj] at hat
        have hpos := hflow.remaining_pos (i := j) (by rw [hj, hat.1]; rfl)
        omega
    | pop turn =>
        rw [hj] at hempty
        cases turn with
        | waiting => cases hempty
        | fresh | woken => rfl
    | _ => rfl

/-- Those that wait are woken to where they do not wait, and go on there. -/
def Wakeful (W : Waiters Worker) : Prop :=
  ∀ worker, W.waits worker = true →
    worker.waiting = true ∧ (W.wake worker).waiting = false ∧ (W.wake worker).doomed = false

theorem wakeful_notEmpty : Wakeful notEmpty := fun worker hwaits =>
  ⟨(waiting_iff worker).mpr (.inl hwaits), rfl, rfl⟩

theorem wakeful_notFull : Wakeful notFull := by
  intro worker hwaits
  obtain ⟨item, rfl⟩ := push_of_waits hwaits
  exact ⟨rfl, rfl, rfl⟩

section Woken

variable {W : Waiters Worker} {worker worker' : Worker}

theorem Wakeful.eq_of_waiting (hW : Wakeful W)
    (hwoken : worker' = worker ∨ W.waits worker = true ∧ worker' = W.wake worker)
    (hwaiting : worker'.waiting = true) : worker' = worker := by
  rcases hwoken with rfl | ⟨hwaits, rfl⟩
  · rfl
  · rw [(hW worker hwaits).2.1] at hwaiting
    cases hwaiting

theorem Wakeful.eq_of_not_waiting (hW : Wakeful W)
    (hwoken : worker' = worker ∨ W.waits worker = true ∧ worker' = W.wake worker)
    (hnot : worker.waiting = false) : worker' = worker := by
  rcases hwoken with rfl | ⟨hwaits, -⟩
  · rfl
  · rw [(hW worker hwaits).1] at hnot
    cases hnot

end Woken

/-- Wake-ups leave those alone that broadcast after a failure. -/
theorem Live.aborting_of_woken (h : Live config σ) {W : Waiters Worker} (hW : Wakeful W)
    {worker : Fin config.threads → Worker} {next : Worker}
    (hwoken : ∀ j, worker j = σ.worker j ∨ W.waits (σ.worker j) = true ∧ worker j = W.wake (σ.worker j))
    (hnext : next.waiting = false) (hbefore : σ.worker i ≠ .abortBroadcast) (hfailed : σ.failed = true)
    (hwaiting : ∃ j, (Function.update worker i next j).waiting = true) :
    ∃ j, Function.update worker i next j = .abortBroadcast := by
  obtain ⟨j, hj⟩ := hwaiting
  have hne : j ≠ i := by
    rintro rfl
    rw [Function.update_self, hnext] at hj
    cases hj
  rw [Function.update_of_ne hne] at hj
  obtain ⟨k, hk⟩ := h.aborting hfailed ⟨j, hW.eq_of_waiting (hwoken j) hj ▸ hj⟩
  have hki : k ≠ i := by
    rintro rfl
    exact hbefore hk
  refine ⟨k, ?_⟩
  rw [Function.update_of_ne hki, hW.eq_of_not_waiting (hwoken k) (by rw [hk]; rfl), hk]

theorem Live.reported_of_woken (h : Live config σ) {W : Waiters Worker} (hW : Wakeful W)
    {worker : Fin config.threads → Worker} {next : Worker}
    (hwoken : ∀ j, worker j = σ.worker j ∨ W.waits (σ.worker j) = true ∧ worker j = W.wake (σ.worker j))
    (hsolo : config.threads ≠ 1) (hnext : isProducer i = true → next = .reportFailure → σ.failed = true)
    (j : Fin config.threads) (hproducer : isProducer j = true)
    (hj : Function.update worker i next j = .reportFailure) : σ.failed = true := by
  by_cases hi : j = i
  · subst hi
    rw [Function.update_self] at hj
    exact hnext hproducer hj
  · rw [Function.update_of_ne hi] at hj
    refine h.reported hsolo j hproducer ?_
    rcases hwoken j with hsame | ⟨hwaits, hwake⟩
    · exact hsame ▸ hj
    · have hsound := (hW _ hwaits).2.2
      rw [← hwake, hj] at hsound
      cases hsound

/-- Nobody waits, and nobody is about to report a failure. -/
theorem live_of_quiet (hnone : ∀ i, (σ.worker i).waiting = false) (hreport : ∀ i, σ.worker i ≠ .reportFailure) :
    Live config σ where
  servedEmpty _ := Waiters.served_of_none fun i => (not_waits (hnone i)).1
  servedFull _ := Waiters.served_of_none fun i => (not_waits (hnone i)).2
  drained _ i := (not_waits (hnone i)).1
  aborting := by
    rintro - ⟨i, hi⟩
    rw [hnone i] at hi
    cases hi
  reported _ i _ hi := absurd hi (hreport i)

theorem live_initial (config : BenchmarkConfig) : Live config (State.initial config) :=
  live_of_quiet (fun _ => rfl) fun _ => by intro hnone; cases hnone

/-! ### Steps -/

theorem Live.put_step (h : Live config σ) (hpossession : Possession config σ) (hflow : Flow config true σ)
    {item : QueueItem} {turn : Turn} (hpc : σ.worker i = .push item turn) (hturn : turn ≠ .waiting)
    (hroom : σ.queue.count ≠ σ.queue.capacity) (hquiet : σ.failed = false)
    (hwakes : notEmpty.Wakes σ.worker o.woken) :
    Live config ({ σ with queue := σ.queue.push item, worker := notEmpty.signal σ.worker o.woken }.goto i
      (afterPush config.threads)) := by
  have hnext := not_waits (waiting_branches config.threads).1
  have hwoken := notEmpty.signal_apply σ.worker o.woken
  have hlt : σ.queue.count < σ.queue.capacity := lt_of_le_of_ne hpossession.fits.count_le hroom
  have hactive : (σ.worker i).activity (isProducer i) = 1 := by
    have hat := hpossession.worker i
    rw [hpc] at hat ⊢
    rw [hat.1]
    rfl
  have hself : notEmpty.signal σ.worker o.woken i = .push item turn := by
    rw [wakeful_notEmpty.eq_of_not_waiting (hwoken i), hpc]
    rw [hpc]
    cases turn <;> first | rfl | exact absurd rfl hturn
  refine ⟨fun _ => ?_, fun _ => ?_, fun hzero => ?_, fun hfailed => ?_, fun hsolo j hproducer hj => ?_⟩
  · refine ((h.servedEmpty hquiet).signal hwakes).move hnext.1 fun hawake => ?_
    rw [hself] at hawake
    cases hawake
  · have hserved : notFull.Served (σ.queue.capacity - (σ.queue.count + 1) + 1) (notEmpty.signal σ.worker o.woken) := by
      rw [show σ.queue.capacity - (σ.queue.count + 1) + 1 = σ.queue.capacity - σ.queue.count by omega]
      exact (h.servedFull hquiet).congr (fun j => (notFull_of_notEmpty (hwoken j)).1)
        fun j => (notFull_of_notEmpty (hwoken j)).2
    exact hserved.take hnext.2
  · exact absurd hzero (hflow.remaining_pos hactive).ne'
  · rw [show σ.failed = true from hfailed] at hquiet
    cases hquiet
  · exact h.reported_of_woken wakeful_notEmpty hwoken hsolo
      (fun _ hreport => absurd hreport (report_branches hsolo).1) j hproducer hj

theorem Live.take_step (h : Live config σ) (hpossession : Possession config σ)
    {turn : Turn} (hpc : σ.worker i = .pop turn) (hturn : turn ≠ .waiting) (hcount : σ.queue.count ≠ 0)
    (hwakes : notFull.Wakes σ.worker o.woken) :
    Live config ({ σ with queue := σ.queue.pop, worker := notFull.signal σ.worker o.woken }.goto i
      (.check σ.queue.front)) := by
  have hwoken := notFull.signal_apply σ.worker o.woken
  have hle := hpossession.fits.count_le
  have hself : notFull.signal σ.worker o.woken i = .pop turn := by
    rw [wakeful_notFull.eq_of_not_waiting (hwoken i), hpc]
    rw [hpc]
    cases turn <;> first | rfl | exact absurd rfl hturn
  refine ⟨fun hquiet => ?_, fun hquiet => ?_, fun hzero j => ?_, fun hfailed => ?_, fun hsolo j hproducer hj => ?_⟩
  · have hserved : notEmpty.Served (σ.queue.count - 1 + 1) (notFull.signal σ.worker o.woken) := by
      rw [Nat.sub_add_cancel (Nat.pos_of_ne_zero hcount)]
      exact (h.servedEmpty hquiet).congr (fun j => (notEmpty_of_notFull (hwoken j)).1)
        fun j => (notEmpty_of_notFull (hwoken j)).2
    exact hserved.take rfl
  · change notFull.Served (σ.queue.capacity - (σ.queue.count - 1)) _
    rw [show σ.queue.capacity - (σ.queue.count - 1) = σ.queue.capacity - σ.queue.count + 1 by omega]
    refine ((h.servedFull hquiet).signal hwakes).move rfl fun hawake => ?_
    rw [hself] at hawake
    cases hawake
  · by_cases hj : j = i
    · subst hj
      rw [goto_self]
      rfl
    · rw [goto_of_ne _ _ hj]
      exact (notEmpty_of_notFull (hwoken j)).1.trans (h.drained hzero j)
  · exact h.aborting_of_woken wakeful_notFull hwoken rfl (by rw [hpc]; intro hnone; cases hnone) hfailed
  · exact h.reported_of_woken wakeful_notFull hwoken hsolo (fun _ hnone => by cases hnone) j hproducer hj

theorem Live.producerDone_step (h : Live config σ) (hpc : σ.worker i = .producerDone) :
    Live config (σ.queueProducerDone.goto i .finish) := by
  have hwoken := notEmpty.broadcast_apply σ.worker
  have hempty (j : Fin config.threads) :
      notEmpty.waits ((σ.queueProducerDone.goto i .finish).worker j) = false := by
    by_cases hj : j = i
    · subst hj
      rw [goto_self]
      rfl
    · rw [goto_of_ne _ _ hj]
      exact notEmpty.not_waits_broadcast σ.worker j
  refine ⟨fun _ => Waiters.served_of_none hempty, fun hquiet => ?_, fun _ => hempty, fun hfailed => ?_,
    fun hsolo j hproducer hj => ?_⟩
  · have hserved : notFull.Served (σ.queue.capacity - σ.queue.count) (notEmpty.broadcast σ.worker) :=
      (h.servedFull hquiet).congr (fun j => (notFull_of_notEmpty (hwoken j)).1)
        fun j => (notFull_of_notEmpty (hwoken j)).2
    refine hserved.move rfl fun hawake => ?_
    rw [(notFull_of_notEmpty (hwoken i)).2, hpc] at hawake
    cases hawake
  · exact h.aborting_of_woken wakeful_notEmpty hwoken rfl (by rw [hpc]; intro hnone; cases hnone) hfailed
  · exact h.reported_of_woken wakeful_notEmpty hwoken hsolo (fun _ hnone => by cases hnone) j hproducer hj

/-- After the broadcasts of a worker that has failed nobody waits. -/
theorem live_abortBroadcast (hfailed : σ.failed = true) {next : Worker} (hnext : next.waiting = false) :
    Live config (σ.queueAbort.goto i next) := by
  have hnone (j : Fin config.threads) : ((σ.queueAbort.goto i next).worker j).waiting = false := by
    by_cases hj : j = i
    · subst hj
      rw [goto_self]
      exact hnext
    · rw [goto_of_ne _ _ hj, Bool.eq_false_iff]
      intro hwaiting
      change (notFull.broadcast (notEmpty.broadcast σ.worker) j).waiting = true at hwaiting
      have hsame := wakeful_notFull.eq_of_waiting (notFull.broadcast_apply (notEmpty.broadcast σ.worker) j) hwaiting
      rcases (waiting_iff _).mp hwaiting with hempty | hfull
      · rw [hsame, notEmpty.not_waits_broadcast] at hempty
        cases hempty
      · exact absurd hfull (Bool.eq_false_iff.mp (notFull.not_waits_broadcast _ j))
  exact
    { servedEmpty := fun _ => Waiters.served_of_none fun j => (not_waits (hnone j)).1
      servedFull := fun _ => Waiters.served_of_none fun j => (not_waits (hnone j)).2
      drained := fun _ j => (not_waits (hnone j)).1
      aborting := by
        rintro - ⟨j, hj⟩
        rw [hnone j] at hj
        cases hj
      reported := fun _ _ _ _ => hfailed }

theorem Live.wait_step (h : Live config σ) {next : Worker} (hquiet : σ.failed = false)
    (hempty : notEmpty.Served σ.queue.count (Function.update σ.worker i next))
    (hfull : notFull.Served (σ.queue.capacity - σ.queue.count) (Function.update σ.worker i next))
    (hdrained : σ.producersRemaining = 0 → notEmpty.waits next = false) (hnext : next ≠ .reportFailure) :
    Live config (σ.goto i next) where
  servedEmpty _ := hempty
  servedFull _ := hfull
  drained hzero j := by
    by_cases hj : j = i
    · subst hj
      rw [goto_self]
      exact hdrained hzero
    · rw [goto_of_ne _ _ hj]
      exact h.drained hzero j
  aborting hfailed := absurd (hquiet.symm.trans hfailed) Bool.false_ne_true
  reported hsolo j hproducer hj := by
    by_cases hi : j = i
    · subst hi
      rw [goto_self] at hj
      exact absurd hj hnext
    · rw [goto_of_ne _ _ hi] at hj
      exact h.reported hsolo j hproducer hj

theorem Live.reportFailure_step (h : Live config σ) (hpossession : Possession config σ) (hflow : Flow config true σ)
    (hpc : σ.worker i = .reportFailure) : Live config ({ σ with failed := true }.goto i .idle) := by
  refine ⟨fun hnone => (by cases hnone), fun hnone => (by cases hnone), fun hzero j => ?_, fun _ hwaiting => ?_,
    fun _ _ _ _ => rfl⟩
  · by_cases hj : j = i
    · subst hj
      rw [goto_self]
      rfl
    · rw [goto_of_ne _ _ hj]
      exact h.drained hzero j
  · obtain ⟨j, hj⟩ := hwaiting
    have hne : j ≠ i := by
      rintro rfl
      rw [goto_self] at hj
      cases hj
    rw [goto_of_ne _ _ hne] at hj
    cases hfailed : σ.failed with
    | false =>
        rw [h.none_waits hflow hpossession hfailed hpc j] at hj
        cases hj
    | true =>
        obtain ⟨k, hk⟩ := h.aborting hfailed ⟨j, hj⟩
        have hki : k ≠ i := by
          rintro rfl
          rw [hpc] at hk
          cases hk
        exact ⟨k, by rw [goto_of_ne _ _ hki]; exact hk⟩

theorem Worker.wake_eq {worker : Worker} (hwaiting : worker.waiting = true) :
    notEmpty.waits worker = true ∧ worker.wake = notEmpty.wake worker ∨
      notFull.waits worker = true ∧ worker.wake = notFull.wake worker := by
  rcases (waiting_iff worker).mp hwaiting with hpop | hpush
  · exact .inl ⟨hpop, by rw [pop_of_waits hpop]; rfl⟩
  · obtain ⟨item, rfl⟩ := push_of_waits hpush
    exact .inr ⟨rfl, rfl⟩

/-- A worker is woken on one condition by nobody. -/
theorem Live.woken (h : Live config σ) {W : Waiters Worker} (hW : Wakeful W) (hwaits : W.waits (σ.worker i) = true)
    (hempty : σ.failed = false →
      notEmpty.Served σ.queue.count (Function.update σ.worker i (W.wake (σ.worker i))))
    (hfull : σ.failed = false →
      notFull.Served (σ.queue.capacity - σ.queue.count) (Function.update σ.worker i (W.wake (σ.worker i)))) :
    Live config (σ.goto i (W.wake (σ.worker i))) := by
  obtain ⟨hwaiting, hwoken, hsound⟩ := hW _ hwaits
  refine ⟨hempty, hfull, fun hzero j => ?_, fun hfailed hsome => ?_, fun hsolo j hproducer hj => ?_⟩
  · by_cases hj : j = i
    · subst hj
      rw [goto_self]
      exact (not_waits hwoken).1
    · rw [goto_of_ne _ _ hj]
      exact h.drained hzero j
  · obtain ⟨k, hk⟩ := h.aborting hfailed ⟨i, hwaiting⟩
    have hki : k ≠ i := by
      rintro rfl
      rw [hk] at hwaiting
      cases hwaiting
    exact ⟨k, by rw [goto_of_ne _ _ hki]; exact hk⟩
  · have hne : j ≠ i := by
      rintro rfl
      rw [goto_self] at hj
      rw [hj] at hsound
      cases hsound
    rw [goto_of_ne _ _ hne] at hj
    exact h.reported hsolo j hproducer hj

theorem Live.wake_step (h : Live config σ) (hwaiting : (σ.worker i).waiting = true) :
    Live config (σ.goto i (σ.worker i).wake) := by
  have hother {W : Waiters Worker} (hwaits : W.waits (σ.worker i) = true) (j : Fin config.threads) :
      Function.update σ.worker i (W.wake (σ.worker i)) j = σ.worker j ∨
        W.waits (σ.worker j) = true ∧ Function.update σ.worker i (W.wake (σ.worker i)) j = W.wake (σ.worker j) := by
    by_cases hj : j = i
    · subst hj
      exact .inr ⟨hwaits, Function.update_self _ _ _⟩
    · exact .inl (Function.update_of_ne hj _ _)
  rcases Worker.wake_eq hwaiting with ⟨hwaits, hwake⟩ | ⟨hwaits, hwake⟩
  · rw [hwake]
    refine h.woken wakeful_notEmpty hwaits (fun hquiet => (h.servedEmpty hquiet).wake hwaits) fun hquiet => ?_
    exact (h.servedFull hquiet).congr (fun j => (notFull_of_notEmpty (hother hwaits j)).1)
      fun j => (notFull_of_notEmpty (hother hwaits j)).2
  · rw [hwake]
    refine h.woken wakeful_notFull hwaits (fun hquiet => ?_) fun hquiet => (h.servedFull hquiet).wake hwaits
    exact (h.servedEmpty hquiet).congr (fun j => (notEmpty_of_notFull (hother hwaits j)).1)
      fun j => (notEmpty_of_notFull (hother hwaits j)).2

theorem Live.worker_step (h : Live config σ) (hpossession : Possession config σ) (hflow : Flow config true σ)
    {event : Event config.threads} (hlocks : event.Locks) (hreliable : event.Reliable σ)
    (hstep : Step config σ event σ') (hworker : event.ofWorker = true) : Live config σ' := by
  obtain ⟨-, hitem, hdrained, hrefusal, hfailure, hclock⟩ := waiting_branches config.threads
  cases hstep with
  | refused | prepare | stop | stopClock | openPhase | joinFails | join | conclude => cases hworker
  | fault hfault => exact absurd (hpossession.safe _) hfault
  | pushLockFails _ hlock | popLockFails _ hlock =>
      rw [Event.Locks, hlock] at hlocks
      cases hlocks
  | checkInvalid hpc haccess hcheck => exact absurd hcheck (hpossession.payloadCheck_ne_none hpc haccess)
  | @releaseInvalid i o item store hpc => cases (hpossession.known hpc).2.1
  | skip hpc | loop hpc | leave hpc | checkValid hpc | readEnd hpc | finish hpc | clockLate hpc | allocate hpc
  | plain hpc | fill hpc =>
      exact h.on hpc rfl rfl rfl rfl ⟨rfl, rfl⟩ rfl (by intro hnone; cases hnone) fun _ _ hnone => by cases hnone
  | enter hpc =>
      refine h.on hpc rfl rfl rfl rfl ⟨rfl, rfl⟩ ?_ (by intro hnone; cases hnone) fun _ _ hnone => ?_
      · split <;> rfl
      · split at hnone <;> cases hnone
  | unallocated hpc | clockFailed hpc =>
      exact h.on hpc rfl rfl rfl rfl ⟨rfl, rfl⟩ hfailure (by intro hnone; cases hnone) fun hsolo _ hreport =>
        absurd hreport (report_branches hsolo).2.2.2.2.1
  | refuse hpc =>
      exact h.on hpc rfl rfl rfl rfl ⟨rfl, rfl⟩ hrefusal (by intro hnone; cases hnone) fun hsolo _ hreport =>
        absurd hreport (report_branches hsolo).2.2.2.1
  | clockEarly hpc =>
      exact h.on hpc rfl rfl rfl rfl ⟨rfl, rfl⟩ hclock (by intro hnone; cases hnone) fun hsolo _ hreport =>
        absurd hreport (report_branches hsolo).2.2.2.2.2
  | checkPlain hpc | release hpc =>
      exact h.on hpc rfl rfl rfl rfl ⟨rfl, rfl⟩ hitem (by intro hnone; cases hnone) fun hsolo _ hreport =>
        absurd hreport (report_branches hsolo).2.1
  | @endFailed i o hpc =>
      refine h.on hpc rfl rfl rfl rfl ⟨rfl, rfl⟩ rfl (by intro hnone; cases hnone) fun _ hproducer _ => ?_
      rw [show isProducer i = false from hpossession.known hpc] at hproducer
      cases hproducer
  | finishFailed hpc hfailed =>
      exact h.on hpc rfl rfl rfl rfl ⟨rfl, rfl⟩ rfl (by intro hnone; cases hnone) fun _ _ _ => hfailed
  | @pushWait i o item turn hpc hturn hcount hquiet =>
      have hempty := (h.servedEmpty hquiet).move (u := i) (x := Worker.push item .waiting) rfl
        fun hawake => by rw [hpc] at hawake; cases hawake
      refine h.wait_step hquiet hempty ?_ (fun _ => rfl) (by intro hnone; cases hnone)
      rw [hcount, Nat.sub_self]
      exact Waiters.served_zero
  | @pushRefused i o item turn hpc hfailed =>
      refine h.move (i := i) rfl rfl rfl rfl (fun hquiet => ?_) rfl (by rw [hpc]; intro hnone; cases hnone)
        fun _ _ hnone => by cases hnone
      rw [hfailed] at hquiet
      cases hquiet
  | @put i o item turn hpc hturn hroom hquiet =>
      refine h.put_step hpossession hflow hpc hturn hroom hquiet ?_
      have hwakes : o.Reliable σ i := hreliable
      rwa [Outcome.Reliable, hpc] at hwakes
  | @abort i o hpc =>
      refine ⟨fun hnone => (by cases hnone), fun hnone => (by cases hnone), fun hzero j => ?_, fun _ _ => ⟨i, ?_⟩,
        fun _ _ _ _ => rfl⟩
      · by_cases hj : j = i
        · subst hj
          rw [goto_self]
          rfl
        · rw [goto_of_ne _ _ hj]
          exact h.drained hzero j
      · exact goto_self _ _
  | @abortBroadcast i o hpc =>
      refine live_abortBroadcast (hpossession.known hpc).2.2 ?_
      split <;> rfl
  | producerDone hpc => exact h.producerDone_step hpc
  | @popWait i o turn hpc hturn hcount hremaining hquiet =>
      refine h.wait_step hquiet ?_ ?_ (fun hzero => absurd hzero hremaining) (by intro hnone; cases hnone)
      · rw [hcount]
        exact Waiters.served_zero
      · exact (h.servedFull hquiet).move rfl fun hawake => by rw [hpc] at hawake; cases hawake
  | @popDrained i o turn hpc hcount hend =>
      by_cases hquiet : σ.failed = false
      · have hnext := not_waits hdrained
        refine h.wait_step hquiet ?_ ?_ (fun _ => hnext.1) ?_
        · rw [hcount]
          exact Waiters.served_zero
        · exact (h.servedFull hquiet).move hnext.2 fun hawake => by rw [hpc] at hawake; cases hawake
        · exact (report_branches (hflow.not_solo hpc hcount)).2.2.1
      · refine h.move (i := i) rfl rfl rfl rfl (fun hfalse => absurd hfalse hquiet) hdrained
          (by rw [hpc]; intro hnone; cases hnone) fun hsolo _ hreport => absurd hreport (report_branches hsolo).2.2.1
  | @take i o turn hpc hturn hcount =>
      refine h.take_step hpossession hpc hturn hcount ?_
      have hwakes : o.Reliable σ i := hreliable
      rwa [Outcome.Reliable, hpc] at hwakes
  | @reportFailure i o hpc => exact h.reportFailure_step hpossession hflow hpc
  | @wake i hwaits => exact h.wake_step ((wake_ne_iff _).mp hwaits)

/-- **No wake-up is lost.** -/
theorem Live.perform (h : Live config σ) (hinv : Inv config true σ) (hrunning : σ.main.running = true)
    {event : Event config.threads} (hlocks : event.Locks) (hreliable : event.Reliable σ)
    (hstep : Step config σ event σ') : Live config σ' := by
  cases hworker : event.ofWorker with
  | true => exact h.worker_step hinv.possession (hinv.flow hrunning) hlocks hreliable hstep hworker
  | false =>
      have hquiet {τ : State config.threads} (hidle : ∀ i, τ.worker i = .idle) : Live config τ :=
        live_of_quiet (fun i => by rw [hidle]; rfl) fun i => by rw [hidle]; intro hnone; cases hnone
      cases hstep with
      | refused | prepare | stop | joinFails | join | conclude =>
          exact ⟨h.servedEmpty, h.servedFull, h.drained, h.aborting, h.reported⟩
      | stopClock _ hidle => exact hquiet hidle
      | openPhase => exact live_of_quiet (fun _ => rfl) fun _ => by intro hnone; cases hnone
      | _ => cases hworker

end Hplf.Queue
