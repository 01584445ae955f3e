import HplfMalloc.Proof.QueueBooks
import Mathlib.Algebra.BigOperators.Group.Finset.Piecewise
import Mathlib.Data.Fintype.Fin

/-!
# The invariant of the queue benchmark

Three parts: who holds what, which workers may still push, and, as long as nothing has failed, the books and the
times. A state is doomed if something has failed that will be reported, so that no result comes of the run. The failure
of a lock need not be: the last part, and some of the second, are about the runs in which no lock has failed.
-/

namespace Hplf.Queue

open Lib Hplf.Bench
open Hplf.Ring (Timed)
open scoped BigOperators

variable {config : BenchmarkConfig}

/-! ### Who may still push -/

/-- A producer counts until it has told the consumers that it is done. -/
def Worker.activity (producer : Bool) (worker : Worker) : Nat :=
  if producer then
    match worker with
    | .idle | .finish | .reportFailure => 0
    | _ => 1
  else
    0

/-- A consumer that has left its loop; where a lock may have failed it can do so early, to report that. -/
def Worker.past (locked : Bool) : Worker → Bool
  | .idle | .finish | .readEnd => true
  | .reportFailure => locked
  | _ => false

/-- A single worker that may have left behind what it has pushed. -/
def Worker.lost (failed : Bool) : Worker → Bool
  | .reportFailure => true
  | .idle => failed
  | _ => false

def Worker.popping : Worker → Nat
  | .pop _ => 1
  | _ => 0

structure Flow (config : BenchmarkConfig) (locked : Bool) (σ : State config.threads) : Prop where
  remaining_ge : ∑ i, (σ.worker i).activity (isProducer i) ≤ σ.producersRemaining
  remaining_eq : config.threads ≠ 1 → σ.failed = false →
    σ.producersRemaining = ∑ i, (σ.worker i).activity (isProducer i)
  drained : σ.failed = false → ∀ i, isProducer i = false → (σ.worker i).past locked = true →
    σ.producersRemaining = 0 ∧ σ.queue.count = 0
  /-- A single worker pops what it has just pushed. -/
  solo : config.threads = 1 → ∀ i, (σ.worker i).lost σ.failed = false → σ.queue.count = (σ.worker i).popping

/-! ### Failures -/

/-- About to set `failed`. -/
def Worker.doomed : Worker → Bool
  | .abort | .reportFailure => true
  | _ => false

def State.Doomed {threads : Nat} (σ : State threads) : Prop :=
  σ.failed = true ∨ ∃ i, (σ.worker i).doomed = true

/-! ### Times -/

/-- The time read last is the end of the phase. -/
def Worker.ended : Worker → Bool
  | .producerDone | .finish | .idle => true
  | _ => false

/-- A producer that has begun an item in this phase. -/
def Worker.begun : Worker → Bool
  | .idle | .testFailed | .produce => false
  | _ => true

/-- After the warmup was opened. -/
def Main.opened : Main → Bool
  | .openPhase .measurement | .join _ _ => true
  | _ => false

structure Times (σ : State config.threads) : Prop where
  late : ∀ i, (σ.worker i).ended = true → σ.deadlineNs ≤ σ.now i
  stamped : ∀ i, σ.worker i = .idle → (σ.stats i).endNs = σ.now i
  begun : ∀ i, isProducer i = true → (σ.worker i).begun = true → σ.sequence i ≠ 0
  rested : σ.main.opened = true → ∀ i, isProducer i = true → σ.worker i = .idle → σ.sequence i ≠ 0

/-! ### The result -/

/-- The result of a run: each producer has pushed its first entries, at least one; each of them was consumed once, by
a worker that has counted it, no block is left, and the measurement took its time. -/
structure Completed (config : BenchmarkConfig) (σ : State config.threads) (result : BenchmarkResult) : Prop where
  produced : ∀ i, σ.sequence i ≠ 0 ↔ isProducer i = true
  consumed : ∃ done : Fin config.threads → Multiset Tag,
    ∑ i, done i = ∑ i, pushedTags config i.val (σ.sequence i) ∧
      ∀ i, (σ.stats i).completed = UInt64.ofNat (Multiset.card (done i)) ∧
        (σ.stats i).checksum = ((done i).map (itemChecksum config)).sum
  completed : result.completedOperations = UInt64.ofNat (∑ i, σ.sequence i)
  malloc : result.mallocCalls = if config.workload = .handoff then UInt64.ofNat (∑ i, σ.sequence i) else 0
  checksum : result.payloadChecksum
    = ((∑ i, pushedTags config i.val (σ.sequence i)).map (itemChecksum config)).sum
  free : result.freeCalls = result.mallocCalls
  calloc : result.callocCalls = 0
  realloc : result.reallocCalls = 0
  elapsed : config.durationNs ≤ result.elapsedNs
  drained : σ.queue.count = 0
  released : ∀ pointer, σ.store pointer = none

def Main.At (config : BenchmarkConfig) (σ : State config.threads) : Main → Prop
  | .prepare | .openPhase .warmup => ∀ i, σ.worker i = .idle
  | .openPhase .measurement | .returned _ => True
  | .join index success =>
      (success = true → ∀ i, i.val < index → σ.worker i = .idle) ∧
        σ.deadlineNs = σ.measurementStartNs + config.durationNs ∧
        config.durationNs ≤ 18446744073709551615 - σ.measurementStartNs

def Main.Sound (config : BenchmarkConfig) (σ : State config.threads) : Main → Prop
  | .returned (.error error) => error ≠ State.invalidTimer
  | .returned (.ok result) => Completed config σ result
  | _ => True

def State.Balanced (σ : State config.threads) : Prop :=
  Books config σ.queue.contents σ.sequence σ.stats fun i => (σ.worker i).stage

/-- What no failure but that of a lock changes. -/
structure Exact (config : BenchmarkConfig) (σ : State config.threads) : Prop where
  refused : ∀ i item, σ.worker i = .refuse item → σ.failed = true
  books : ¬ σ.Doomed → σ.Balanced
  times : ¬ σ.Doomed → Times σ
  main : σ.main.Sound config σ

/-- The invariant; `locked` if no lock has failed. -/
structure Inv (config : BenchmarkConfig) (locked : Bool) (σ : State config.threads) : Prop where
  possession : Possession config σ
  flow : σ.main.running = true → Flow config locked σ
  clocked : ∀ i, σ.now i ≤ σ.clock
  unproduced : ∀ i, isProducer i = false → σ.sequence i = 0
  main : σ.main.At config σ
  exact : locked = true → Exact config σ

/-! ### Workers -/

section Roles

variable {threads : Nat}

theorem isProducer_solo (hsolo : threads = 1) (i : Fin threads) : isProducer i = true := by
  subst hsolo
  exact decide_eq_true i.isLt

theorem eq_of_solo (hsolo : threads = 1) (i j : Fin threads) : i = j := by
  subst hsolo
  exact Subsingleton.elim i j

theorem producerCount_le : producerCount threads ≤ threads := by
  unfold producerCount
  split
  · omega
  · exact Nat.div_le_self _ _

theorem producerCount_pos (hpos : 0 < threads) : 0 < producerCount threads := by
  unfold producerCount
  split
  · exact Nat.one_pos
  · omega

/-- With more than one worker the last one is a consumer. -/
theorem exists_consumer (hpos : 0 < threads) (hsolo : threads ≠ 1) : ∃ i : Fin threads, isProducer i = false := by
  refine ⟨⟨threads - 1, by omega⟩, decide_eq_false ?_⟩
  unfold producerCount
  rw [if_neg hsolo, not_lt]
  simp only
  omega

/-- All producers are at work when a phase begins. -/
theorem sum_activity_testFailed :
    ∑ i : Fin threads, Worker.testFailed.activity (isProducer i) = producerCount threads := by
  have hactivity (i : Fin threads) :
      Worker.testFailed.activity (isProducer i) = if i.val < producerCount threads then 1 else 0 := by
    by_cases hlt : i.val < producerCount threads <;> simp [Worker.activity, isProducer, hlt]
  simp only [hactivity]
  rw [← Finset.card_filter, Fin.card_filter_val_lt, Nat.min_eq_right producerCount_le]

theorem Worker.activity_le_one (producer : Bool) (worker : Worker) : worker.activity producer ≤ 1 := by
  cases producer <;> cases worker <;> simp [Worker.activity]

theorem Worker.activity_calm (producer : Bool) (worker : Worker) :
    worker.calm.activity producer = worker.activity producer := by
  cases worker <;> rfl

theorem Worker.past_calm (locked : Bool) (worker : Worker) : worker.calm.past locked = worker.past locked := by
  cases worker <;> rfl

theorem Worker.lost_calm (failed : Bool) (worker : Worker) : worker.calm.lost failed = worker.lost failed := by
  cases worker <;> rfl

theorem Worker.popping_calm (worker : Worker) : worker.calm.popping = worker.popping := by
  cases worker <;> rfl

theorem Worker.doomed_calm (worker : Worker) : worker.calm.doomed = worker.doomed := by
  cases worker <;> rfl

theorem Worker.ended_calm (worker : Worker) : worker.calm.ended = worker.ended := by
  cases worker <;> rfl

theorem Worker.begun_calm (worker : Worker) : worker.calm.begun = worker.begun := by
  cases worker <;> rfl

theorem Worker.calm_eq_idle {worker : Worker} : worker.calm = .idle ↔ worker = .idle := by
  cases worker <;> simp [Worker.calm]

/-- A wake-up changes nothing but a wait. -/
theorem Worker.calm_wake (worker : Worker) : worker.wake.calm = worker.calm := by
  cases worker with
  | push item turn => cases turn <;> rfl
  | pop turn => cases turn <;> rfl
  | _ => rfl

theorem calm_notEmpty {worker worker' : Worker}
    (hwoken : worker' = worker ∨ notEmpty.waits worker = true ∧ worker' = notEmpty.wake worker) :
    worker'.calm = worker.calm := by
  rcases hwoken with rfl | ⟨hwaits, rfl⟩
  · rfl
  · have hwait : worker = .pop .waiting := by simpa [notEmpty] using hwaits
    rw [hwait]
    rfl

theorem calm_notFull {worker worker' : Worker}
    (hwoken : worker' = worker ∨ notFull.waits worker = true ∧ worker' = notFull.wake worker) :
    worker'.calm = worker.calm := by
  rcases hwoken with rfl | ⟨-, rfl⟩
  · rfl
  · cases worker <;> rfl

variable {f g : Fin threads → Worker} {i j : Fin threads}

theorem calm_update (hcalm : ∀ j, (f j).calm = (g j).calm) (next : Worker) (j : Fin threads) :
    (Function.update f i next j).calm = (Function.update g i next j).calm := by
  by_cases hj : j = i
  · subst hj
    rw [Function.update_self, Function.update_self]
  · rw [Function.update_of_ne hj, Function.update_of_ne hj]
    exact hcalm j

theorem calm_signal_notEmpty (choice : Option (Fin threads)) (next : Worker) (j : Fin threads) :
    (Function.update (notEmpty.signal f choice) i next j).calm = (Function.update f i next j).calm :=
  calm_update (fun j => calm_notEmpty (notEmpty.signal_apply f choice j)) next j

theorem calm_signal_notFull (choice : Option (Fin threads)) (next : Worker) (j : Fin threads) :
    (Function.update (notFull.signal f choice) i next j).calm = (Function.update f i next j).calm :=
  calm_update (fun j => calm_notFull (notFull.signal_apply f choice j)) next j

theorem calm_broadcast_notEmpty (next : Worker) (j : Fin threads) :
    (Function.update (notEmpty.broadcast f) i next j).calm = (Function.update f i next j).calm :=
  calm_update (fun j => calm_notEmpty (notEmpty.broadcast_apply f j)) next j

theorem calm_broadcast_both (next : Worker) (j : Fin threads) :
    (Function.update (notFull.broadcast (notEmpty.broadcast f)) i next j).calm = (Function.update f i next j).calm :=
  calm_update (fun j => (calm_notFull (notFull.broadcast_apply (notEmpty.broadcast f) j)).trans
    (calm_notEmpty (notEmpty.broadcast_apply f j))) next j

/-- What does not depend on waits is the same after a move that differs from an update by waits only. -/
theorem apply_of_calm {β : Type*} {m : Worker → β} (hm : ∀ worker, m worker.calm = m worker) {next : Worker}
    (hworker : ∀ j, (f j).calm = (Function.update g i next j).calm) (j : Fin threads) :
    m (f j) = m (Function.update g i next j) := by
  rw [← hm, hworker, hm]

end Roles

/-! ### The initial state -/

theorem not_producer_idle {σ : State config.threads} (hidle : ∀ i, σ.worker i = .idle) :
    ∑ i, (σ.worker i).activity (isProducer i) = 0 := by
  apply Finset.sum_eq_zero
  intro i _
  rw [hidle i]
  cases isProducer i <;> rfl

theorem owned_idle {threads : Nat} {worker : Fin threads → Worker} (hblock : ∀ i, (worker i).block = 0) :
    owned [] worker = 0 := by
  rw [owned, List.map_nil, List.sum_nil, zero_add]
  exact Finset.sum_eq_zero fun i _ => hblock i

theorem inv_initial (hrange : State.InRange config) (locked : Bool) : Inv config locked (State.initial config) where
  possession :=
    { fits := ⟨hrange.2.2.1, Nat.zero_le _⟩
      custody := by
        have hnone : owned (State.initial config).queue.contents (State.initial config).worker = 0 :=
          owned_idle fun _ => rfl
        refine ⟨hnone ▸ Multiset.nodup_zero, fun pointer => ?_⟩
        rw [hnone]
        simp [State.initial]
      queued := fun _ hitem => absurd hitem List.not_mem_nil
      worker := fun _ => trivial }
  flow _ :=
    { remaining_ge := Nat.le_of_eq (not_producer_idle fun _ => rfl)
      remaining_eq := fun _ _ => (not_producer_idle (σ := State.initial config) fun _ => rfl).symm
      drained := fun _ _ _ _ => ⟨rfl, rfl⟩
      solo := fun _ _ _ => rfl }
  clocked _ := UInt64.le_refl _
  unproduced _ _ := rfl
  main _ := rfl
  exact _ :=
    { refused := fun _ _ hnone => by cases hnone
      books := fun _ => books_zero config config.threads
      times := fun _ =>
        { late := fun _ _ => UInt64.le_refl _
          stamped := fun _ _ => rfl
          begun := fun _ _ hbegun => absurd hbegun Bool.false_ne_true
          rested := fun hopened => absurd hopened Bool.false_ne_true }
      main := trivial }

end Hplf.Queue
