import HplfMalloc.Proof.QueueLive

/-!
# Progress of the queue benchmark

Each action of a thread uses up some of the work that is left in the two phases. Only the clock can add some: as long
as it shows a time before the deadline, a producer makes another item.
-/

namespace Hplf.Queue

open Lib Hplf.Bench
open Hplf.Ring (Timed)
open scoped BigOperators

variable {config : BenchmarkConfig} {locked : Bool} {σ σ' : State config.threads} {i : Fin config.threads}

/-! ### The work that is left -/

/-- A single worker reads the clock after each item that it has popped. -/
def soloWork (threads : Nat) : Nat :=
  if threads = 1 then 3 * threads + 6 else 0

def Worker.weight (threads : Nat) : Worker → Nat
  | .idle | .fault => 0
  | .reportFailure => 1
  | .finish => 2
  | .readEnd => 3
  | .producerDone => threads + 3
  | .abortBroadcast => 3 * threads + 4
  | .abort => 3 * threads + 5
  | .readClock | .refuse _ => 3 * threads + 6
  | .pop .waiting => soloWork threads + 4
  | .pop _ => soloWork threads + 5
  | .release _ _ => soloWork threads + 6
  | .check _ => soloWork threads + 7
  | .push _ .waiting => 3 * threads + 16
  | .push _ _ => 3 * threads + 17
  | .fill _ => 3 * threads + 18
  | .produce => 3 * threads + 19
  | .testLoop | .testFailed => 3 * threads + 20

/-- All workers at the start of a phase. -/
def phaseWork (threads : Nat) : Nat :=
  threads * (3 * threads + 20)

def Main.weight (threads : Nat) : Main → Nat
  | .prepare => 2 * phaseWork threads + threads + 4
  | .openPhase .warmup => 2 * phaseWork threads + threads + 3
  | .openPhase .measurement => phaseWork threads + threads + 2
  | .join index _ => threads - index + 1
  | .returned _ => 0

def State.potential {threads : Nat} (σ : State threads) : Nat :=
  σ.main.weight threads + (∑ i, (σ.worker i).weight threads) + 4 * σ.queue.count

/-- A clock that is read before the deadline. -/
def Event.early {threads : Nat} (σ : State threads) : Event threads → Bool
  | .worker i o => σ.worker i == .readClock && o.time.any fun now => now < σ.deadlineNs
  | .main _ | .wake _ => false

def Event.spurious {threads : Nat} : Event threads → Bool
  | .wake _ => true
  | .worker _ _ | .main _ => false

section Weights

variable (threads : Nat)

theorem weight_notEmpty (worker : Worker) (hwaits : notEmpty.waits worker = true) :
    (notEmpty.wake worker).weight threads ≤ worker.weight threads + 1 := by
  rw [pop_of_waits hwaits]
  exact Nat.le_refl _

theorem weight_notFull (worker : Worker) (hwaits : notFull.waits worker = true) :
    (notFull.wake worker).weight threads ≤ worker.weight threads + 1 := by
  obtain ⟨item, rfl⟩ := push_of_waits hwaits
  exact Nat.le_refl _

theorem weight_wake (worker : Worker) (hwaiting : worker.waiting = true) :
    worker.wake.weight threads ≤ worker.weight threads + 1 := by
  rcases Worker.wake_eq hwaiting with ⟨hwaits, hwake⟩ | ⟨hwaits, hwake⟩
  · exact hwake ▸ weight_notEmpty threads worker hwaits
  · exact hwake ▸ weight_notFull threads worker hwaits

/-- What is left after each branch that a single worker does not share with the others. -/
theorem weight_branches :
    (afterPush threads).weight threads + 5 ≤ 3 * threads + 16 ∧
      (afterItem threads).weight threads ≤ soloWork threads + 5 ∧
      (afterDrained threads).weight threads ≤ 3 ∧ (afterRefusal threads).weight threads ≤ threads + 3 ∧
      (afterFailure threads).weight threads ≤ 3 * threads + 5 ∧
      (afterClock threads).weight threads ≤ 3 * threads + 20 := by
  by_cases hsolo : threads = 1
  · subst hsolo
    decide
  · simp only [afterPush, afterItem, afterDrained, afterRefusal, afterFailure, afterClock, soloWork, if_neg hsolo,
      Worker.weight]
    omega

end Weights

theorem weight_push (threads : Nat) (item : QueueItem) {turn : Turn} (hturn : turn ≠ .waiting) :
    (Worker.push item turn).weight threads = 3 * threads + 17 := by
  cases turn with
  | waiting => exact absurd rfl hturn
  | fresh | woken => rfl

theorem weight_pop (threads : Nat) {turn : Turn} (hturn : turn ≠ .waiting) :
    (Worker.pop turn).weight threads = soloWork threads + 5 := by
  cases turn with
  | waiting => exact absurd rfl hturn
  | fresh | woken => rfl

/-- Also for a worker that waits. -/
theorem weight_section (threads : Nat) (item : QueueItem) (turn : Turn) :
    3 * threads + 16 ≤ (Worker.push item turn).weight threads ∧ 4 ≤ (Worker.pop turn).weight threads := by
  cases turn <;> simp only [Worker.weight] <;> omega

/-! ### Each action uses some of it up -/

section Moves

variable {τ : State config.threads} {w : Worker} {worker : Fin config.threads → Worker} {k c : Nat}

/-- One worker goes on, after wake-ups of others that cost `k`. -/
theorem potential_act (hworker : τ.worker = Function.update worker i w) (hself : worker i = σ.worker i)
    (hsum : ∑ j, (worker j).weight config.threads ≤ (∑ j, (σ.worker j).weight config.threads) + k)
    (hmain : τ.main = σ.main)
    (hle : w.weight config.threads + k + 4 * τ.queue.count + 1
      ≤ (σ.worker i).weight config.threads + 4 * σ.queue.count + c) : τ.potential + 1 ≤ σ.potential + c := by
  have hswap := sum_measure_swap (fun _ : Fin config.threads => Worker.weight config.threads) (f := worker) (i := i)
    (x := w)
  rw [hself] at hswap
  unfold State.potential
  rw [hmain, hworker]
  omega

/-- One worker goes on by itself. -/
theorem potential_on {before : Worker} (hpc : σ.worker i = before) (hworker : τ.worker = Function.update σ.worker i w)
    (hmain : τ.main = σ.main) (hcount : τ.queue.count = σ.queue.count)
    (hle : w.weight config.threads + 1 ≤ before.weight config.threads + c) : τ.potential + 1 ≤ σ.potential + c := by
  refine potential_act (k := 0) hworker rfl (Nat.le_refl _) hmain ?_
  rw [hcount, hpc]
  omega

end Moves

/-- A worker that has put or taken an item, and has signalled the other condition. -/
theorem potential_signal {W : Waiters Worker} (hW : Wakeful W)
    (hwake : ∀ worker, W.waits worker = true →
      (W.wake worker).weight config.threads ≤ worker.weight config.threads + 1)
    {τ : State config.threads} {w : Worker} {choice : Option (Fin config.threads)}
    (hworker : τ.worker = Function.update (W.signal σ.worker choice) i w) (hawake : (σ.worker i).waiting = false)
    (hmain : τ.main = σ.main)
    (hle : w.weight config.threads + 4 * τ.queue.count + 2
      ≤ (σ.worker i).weight config.threads + 4 * σ.queue.count) : τ.potential + 1 ≤ σ.potential := by
  have hself : W.signal σ.worker choice i = σ.worker i := hW.eq_of_not_waiting (W.signal_apply σ.worker choice i) hawake
  exact potential_act (c := 0) hworker hself (Waiters.sum_signal_le hwake σ.worker choice) hmain (by omega)

theorem abortBroadcast_descent (hpc : σ.worker i = .abortBroadcast) {w : Worker}
    (hle : w.weight config.threads ≤ config.threads + 3) :
    (σ.queueAbort.goto i w).potential + 1 ≤ σ.potential := by
  have hempty : notEmpty.broadcast σ.worker i = σ.worker i :=
    wakeful_notEmpty.eq_of_not_waiting (notEmpty.broadcast_apply σ.worker i) (by rw [hpc]; rfl)
  have hself : notFull.broadcast (notEmpty.broadcast σ.worker) i = σ.worker i := by
    rw [wakeful_notFull.eq_of_not_waiting (notFull.broadcast_apply (notEmpty.broadcast σ.worker) i), hempty]
    rw [hempty, hpc]
    rfl
  have hfirst := Waiters.sum_broadcast_le (weight_notEmpty config.threads) σ.worker
  have hsecond := Waiters.sum_broadcast_le (weight_notFull config.threads) (notEmpty.broadcast σ.worker)
  rw [Fintype.card_fin] at hfirst hsecond
  have hbefore : Worker.abortBroadcast.weight config.threads = 3 * config.threads + 4 := rfl
  have hsum : ∑ j, (notFull.broadcast (notEmpty.broadcast σ.worker) j).weight config.threads
      ≤ (∑ j, (σ.worker j).weight config.threads) + 2 * config.threads := by omega
  refine potential_act (c := 0) rfl hself hsum rfl ?_
  rw [hpc, hbefore]
  change _ + 4 * σ.queue.count + 1 ≤ _
  omega

theorem producerDone_descent (hpc : σ.worker i = .producerDone) :
    (σ.queueProducerDone.goto i .finish).potential + 1 ≤ σ.potential := by
  have hself : notEmpty.broadcast σ.worker i = σ.worker i :=
    wakeful_notEmpty.eq_of_not_waiting (notEmpty.broadcast_apply σ.worker i) (by rw [hpc]; rfl)
  have hsum := Waiters.sum_broadcast_le (weight_notEmpty config.threads) σ.worker
  rw [Fintype.card_fin] at hsum
  refine potential_act (c := 0) (k := config.threads) rfl hself hsum rfl ?_
  rw [hpc]
  change _ + 4 * σ.queue.count + 1 ≤ _
  simp only [Worker.weight]
  omega

/-- The steps of the workers. -/
theorem worker_descent (h : Inv config locked σ) {event : Event config.threads} (hstep : Step config σ event σ')
    (hworker : event.ofWorker = true) :
    σ'.potential + 1
      ≤ σ.potential + (15 * (if event.early σ then 1 else 0) + 2 * (if event.spurious then 1 else 0)) := by
  obtain ⟨hpush, hitem, hdrained, hrefusal, hfailure, hclock⟩ := weight_branches config.threads
  have hsolo : soloWork config.threads ≤ 3 * config.threads + 6 := by
    unfold soloWork
    split <;> omega
  cases hstep with
  | refused | prepare | stop | stopClock | openPhase | joinFails | join | conclude => cases hworker
  | fault hfault => exact absurd (h.possession.safe _) hfault
  | checkInvalid hpc haccess hcheck => exact absurd hcheck (h.possession.payloadCheck_ne_none hpc haccess)
  | @releaseInvalid i o item store hpc => cases (h.possession.known hpc).2.1
  | popLockFails hpc | pushLockFails hpc | skip hpc | leave hpc | loop hpc | abort hpc | fill hpc | clockLate hpc | endFailed hpc | readEnd hpc | finish hpc
  | finishFailed hpc | reportFailure hpc | allocate hpc | plain hpc | checkValid hpc =>
      exact potential_on hpc rfl rfl rfl (by simp only [Worker.weight]; omega)
  | unallocated hpc =>
      have hbefore : Worker.produce.weight config.threads = 3 * config.threads + 19 := rfl
      exact potential_on hpc rfl rfl rfl (by omega)
  | clockFailed hpc =>
      have hbefore : Worker.readClock.weight config.threads = 3 * config.threads + 6 := rfl
      exact potential_on hpc rfl rfl rfl (by omega)
  | @refuse i o item store hpc =>
      have hbefore : (Worker.refuse item).weight config.threads = 3 * config.threads + 6 := rfl
      exact potential_on hpc rfl rfl rfl (by omega)
  | @checkPlain i o item hpc =>
      have hbefore : (Worker.check item).weight config.threads = soloWork config.threads + 7 := rfl
      exact potential_on hpc rfl rfl rfl (by omega)
  | @release i o item store hpc =>
      have hbefore : (Worker.release item true).weight config.threads = soloWork config.threads + 6 := rfl
      exact potential_on hpc rfl rfl rfl (by omega)
  | enter hpc => exact potential_on hpc rfl rfl rfl (by split <;> simp only [Worker.weight] <;> omega)
  | @clockEarly i o now hpc htime hbefore hearly =>
      have hcounted : (Event.worker i o).early σ = true := by
        rw [Event.early, hpc, htime]
        simpa using hearly
      have hbefore : Worker.readClock.weight config.threads = 3 * config.threads + 6 := rfl
      rw [if_pos hcounted]
      exact potential_on hpc rfl rfl rfl (by omega)
  | @pushWait i o item turn hpc hturn =>
      exact potential_on hpc rfl rfl rfl (by rw [weight_push _ _ hturn]; simp only [Worker.weight]; omega)
  | @pushRefused i o item turn hpc =>
      have hleast := (weight_section config.threads item turn).1
      exact potential_on hpc rfl rfl rfl (by simp only [Worker.weight] at hleast ⊢; omega)
  | @put i o item turn hpc hturn =>
      refine Nat.le_trans (potential_signal wakeful_notEmpty (weight_notEmpty _) rfl ?_ rfl ?_) (Nat.le_add_right _ _)
      · rw [hpc]
        cases turn <;> first | rfl | exact absurd rfl hturn
      · rw [hpc, weight_push _ _ hturn]
        change _ + 4 * (σ.queue.count + 1) + 2 ≤ _
        omega
  | @popWait i o turn hpc hturn =>
      exact potential_on hpc rfl rfl rfl (by rw [weight_pop _ hturn]; simp only [Worker.weight]; omega)
  | @popDrained i o turn hpc =>
      have hleast := (weight_section config.threads ⟨none, 0, 0⟩ turn).2
      exact potential_on hpc rfl rfl rfl (by omega)
  | @take i o turn hpc hturn hcount =>
      refine Nat.le_trans (potential_signal wakeful_notFull (weight_notFull _) rfl ?_ rfl ?_) (Nat.le_add_right _ _)
      · rw [hpc]
        cases turn <;> first | rfl | exact absurd rfl hturn
      · rw [hpc, weight_pop _ hturn]
        change _ + 4 * (σ.queue.count - 1) + 2 ≤ _
        simp only [Worker.weight]
        omega
  | abortBroadcast hpc =>
      exact (abortBroadcast_descent hpc (by split <;> simp only [Worker.weight] <;> omega)).trans (Nat.le_add_right _ _)
  | producerDone hpc => exact (producerDone_descent hpc).trans (Nat.le_add_right _ _)
  | @wake i hwaits =>
      have hweight := weight_wake config.threads _ ((wake_ne_iff _).mp hwaits)
      exact potential_on rfl rfl rfl rfl (by simp only [Event.spurious, if_true]; omega)

/-- The steps of the main thread. -/
theorem main_descent {event : Event config.threads} (hstep : Step config σ event σ')
    (hworker : event.ofWorker = false) : σ'.potential + 1 ≤ σ.potential := by
  have hphase : ∑ _i : Fin config.threads, Worker.testFailed.weight config.threads = phaseWork config.threads := by
    rw [Finset.sum_const, Finset.card_univ, Fintype.card_fin, smul_eq_mul]
    rfl
  cases hstep with
  | refused hpc | prepare hpc | joinFails hpc | join hpc | conclude hpc =>
      unfold State.potential
      rw [hpc]
      simp only [State.fail, Main.weight]
      omega
  | @stop o phase hpc =>
      unfold State.potential
      rw [hpc]
      cases phase <;> simp only [State.fail, Main.weight] <;> omega
  | @stopClock o phase hpc =>
      unfold State.potential
      rw [hpc]
      cases phase <;> simp only [State.fail, State.resetPhaseState, Main.weight] <;> omega
  | @openPhase o phase start hpc =>
      change (State.afterPhase phase).weight config.threads
          + (∑ _i : Fin config.threads, Worker.testFailed.weight config.threads) + 4 * 0 + 1 ≤ _
      rw [hphase]
      unfold State.potential
      rw [hpc]
      cases phase <;> simp only [State.afterPhase, Main.weight] <;> omega
  | _ => cases hworker

theorem descent (h : Inv config locked σ) {event : Event config.threads} (hstep : Step config σ event σ') :
    σ'.potential + 1
      ≤ σ.potential + (15 * (if event.early σ then 1 else 0) + 2 * (if event.spurious then 1 else 0)) := by
  cases hworker : event.ofWorker with
  | true => exact worker_descent h hstep hworker
  | false => exact (main_descent hstep hworker).trans (Nat.le_add_right _ _)

theorem potential_initial (config : BenchmarkConfig) :
    (State.initial config).potential = 2 * phaseWork config.threads + config.threads + 4 := by
  have hidle : ∑ _i : Fin config.threads, Worker.idle.weight config.threads = 0 := Finset.sum_const_zero
  change 2 * phaseWork config.threads + config.threads + 4 + (∑ _i : Fin config.threads, Worker.idle.weight config.threads) + 4 * 0 = _
  rw [hidle]

end Hplf.Queue
