import HplfMalloc.RingBenchmark

/-!
# The invariant of the ring benchmark

Every thread is in the part of the program that belongs to the published phase. In a timed phase all workers are
on one beat: after `cycles` completed waits of the phase, where a worker can be is determined by `cycles` modulo
three, by `ring_stop`, and by whether the worker has arrived at the barrier again.
-/

namespace Hplf.Ring

open Lib

variable {threads : Nat} {run run' : RunContext threads} {cycles : Timed → Nat} {phase : Timed}
variable {index : Fin threads} {outcome : Bool} {w w' : Worker}

/-! ### Positions -/

def Timed.offset : Timed → Nat
  | .warmup => 0
  | .measurement => 8

/-- How far a worker has come. -/
def Worker.stage : Worker → Nat
  | .absent => 0
  | .signalReady => 1
  | .awaitPrepare p => p.offset + 2
  | .signalPrepared p => p.offset + 3
  | .awaitPhase p => p.offset + 4
  | .testFailed p => p.offset + 5
  | .allocate p | .sendOutgoing p _ | .arrive p _ | .blocked p _ _ | .receive p | .checkIncoming p _
  | .decideStop p | .raiseStop p | .testStop p => p.offset + 6
  | .finish p => p.offset + 7
  | .reportFailure p => p.offset + 8
  | .cleanup p => p.offset + 9
  | .flush => 18
  | .exited => 19

/-- The generation of the barrier in which a worker waits. -/
def Worker.blockedAt : Worker → Option Nat
  | .blocked _ _ generation => some generation
  | _ => none

/-- The worker waits at the barrier, in a phase, and has not been released. -/
def Worker.WaitsIn (phase : Timed) (generation : Nat) : Worker → Prop
  | .blocked p _ g => p = phase ∧ g = generation
  | _ => False

instance (phase : Timed) (generation : Nat) (w : Worker) : Decidable (w.WaitsIn phase generation) :=
  match w with
  | .blocked p _ g => inferInstanceAs (Decidable (p = phase ∧ g = generation))
  | .absent | .signalReady | .awaitPrepare _ | .signalPrepared _ | .awaitPhase _ | .testFailed _ | .allocate _
  | .sendOutgoing _ _ | .arrive _ _ | .receive _ | .checkIncoming _ _ | .decideStop _ | .raiseStop _
  | .testStop _ | .finish _ | .reportFailure _ | .cleanup _ | .flush | .exited => .isFalse id

/-- The arrivals of a worker that have not been followed by a release. -/
def Worker.pending (phase : Timed) (generation : Nat) : Worker → Nat
  | .blocked p _ g => if p = phase ∧ g = generation then 1 else 0
  | _ => 0

/-- The worker has left the rounds of a phase, or has skipped it. -/
def Worker.HasLeft (phase : Timed) (w : Worker) : Prop := (Worker.finish phase).stage ≤ w.stage

instance (phase : Timed) (w : Worker) : Decidable (w.HasLeft phase) := inferInstanceAs (Decidable (_ ≤ _))

theorem Worker.WaitsIn.eq {generation : Nat} (hwaits : w.WaitsIn phase generation) :
    ∃ wait, w = .blocked phase wait generation := by
  cases w with
  | blocked p wait g =>
      obtain ⟨rfl, rfl⟩ := hwaits
      exact ⟨wait, rfl⟩
  | _ => exact hwaits.elim

theorem Worker.pending_blocked (p : Timed) (wait : RingWait) (g : Nat) (generation : Nat) :
    (Worker.blocked p wait g).pending phase generation = if p = phase ∧ g = generation then 1 else 0 := rfl

theorem Worker.pending_of_free {generation : Nat} (hfree : w.blockedAt ≠ some generation) :
    w.pending phase generation = 0 := by
  cases w with
  | blocked p wait g =>
      rw [Worker.pending_blocked, if_neg]
      rintro ⟨-, rfl⟩
      exact hfree rfl
  | _ => rfl

/-! ### The counters -/

def Worker.Past (stage : Nat) (w : Worker) : Prop := stage ≤ w.stage

instance (stage : Nat) (w : Worker) : Decidable (w.Past stage) := inferInstanceAs (Decidable (_ ≤ _))

/-- Each counter is the number of workers past its signal. -/
structure Counted (run : RunContext threads) : Prop where
  ready : run.ready = headcount (Worker.Past 2) run.worker
  prepared : ∀ p, run.prepared p = headcount (Worker.Past (p.offset + 4)) run.worker
  warmupDone : run.warmupDone = headcount (Worker.Past 10) run.worker

/-- A worker moves on without passing a signal. -/
theorem Counted.move (hcounted : Counted run) (hworker : run'.worker = Function.update run.worker index w')
    (hready : run'.ready = run.ready) (hprepared : run'.prepared = run.prepared)
    (hdone : run'.warmupDone = run.warmupDone)
    (hsame : ∀ n ∈ [2, 4, 10, 12], n ≤ w'.stage ↔ n ≤ (run.worker index).stage) : Counted run' where
  ready := by
    rw [hready, hworker, hcounted.ready, headcount_update_same (P := Worker.Past 2) (hsame 2 (by simp))]
  prepared p := by
    rw [hprepared, hworker, hcounted.prepared]
    cases p with
    | warmup => exact (headcount_update_same (P := Worker.Past 4) (hsame 4 (by simp))).symm
    | measurement => exact (headcount_update_same (P := Worker.Past 12) (hsame 12 (by simp))).symm
  warmupDone := by
    rw [hdone, hworker, hcounted.warmupDone,
      headcount_update_same (P := Worker.Past 10) (hsame 10 (by simp))]

/-! ### The barrier -/

/-- The completed waits of each phase, and what the barrier and the counters are then. -/
structure Synced (run : RunContext threads) (cycles : Timed → Nat) : Prop where
  balanced : run.ringBarrier.Balanced fun u => (run.worker u).blockedAt
  waits : ∀ p u, run.waits p u = cycles p + (run.worker u).pending p run.ringBarrier.generation
  counted : run.phase ≠ .stop → Counted run

/-- A worker that is not waiting has completed all its waits. -/
theorem Synced.waits_of_free (hsynced : Synced run cycles)
    (hfree : (run.worker index).blockedAt ≠ some run.ringBarrier.generation) (p : Timed) :
    run.waits p index = cycles p := by
  rw [hsynced.waits, Worker.pending_of_free hfree, Nat.add_zero]

theorem blockedAt_update (run : RunContext threads) (index : Fin threads) (w' : Worker) :
    (fun u => (Function.update run.worker index w' u).blockedAt)
      = Function.update (fun u => (run.worker u).blockedAt) index w'.blockedAt := by
  funext u
  by_cases hu : u = index
  · subst hu
    simp
  · simp [hu]

/-- A worker that is not waiting moves on, and is not waiting afterwards. -/
theorem Synced.move (hsynced : Synced run cycles) (hworker : run'.worker = Function.update run.worker index w')
    (hbarrier : run'.ringBarrier = run.ringBarrier) (hwaits : run'.waits = run.waits)
    (hfree : (run.worker index).blockedAt ≠ some run.ringBarrier.generation) (hfree' : w'.blockedAt = none)
    (hcounted : run'.phase ≠ .stop → Counted run') : Synced run' cycles where
  balanced := by
    rw [hbarrier, hworker, blockedAt_update]
    exact hsynced.balanced.move hfree (by rw [hfree']; simp)
  waits p u := by
    rw [hwaits, hsynced.waits p u, hbarrier, hworker]
    by_cases hu : u = index
    · subst hu
      rw [Function.update_self, Worker.pending_of_free hfree, Worker.pending_of_free (by rw [hfree']; simp)]
    · rw [Function.update_of_ne hu]
  counted := hcounted

/-! ### Running phases -/

/-- The worker has not tested `failed` in this phase yet. -/
def Worker.Untested (phase : Timed) (w : Worker) : Prop := w = .awaitPhase phase ∨ w = .testFailed phase

instance (phase : Timed) (w : Worker) : Decidable (w.Untested phase) := inferInstanceAs (Decidable (_ ∨ _))

/-- Where a worker that does not wait at the barrier may be in a running phase after `cycles` completed waits;
`lead` says that it is the first worker. -/
def Worker.AtBeat (phase : Timed) (cycles : Nat) (failed stop : Bool) (lead : Prop) : Worker → Prop
  | .awaitPhase p | .testFailed p => p = phase ∧ cycles = 0 ∧ failed = false ∧ stop = false
  | .allocate p | .sendOutgoing p _ | .arrive p .entries => p = phase ∧ cycles % 3 = 0 ∧ stop = false
  | .receive p | .checkIncoming p _ | .arrive p .reads => p = phase ∧ cycles % 3 = 1 ∧ stop = false
  | .decideStop p => p = phase ∧ cycles % 3 = 2 ∧ (lead → stop = false)
  | .raiseStop p => p = phase ∧ cycles % 3 = 2 ∧ lead
  | .arrive p .choice => p = phase ∧ cycles % 3 = 2
  | .testStop p => p = phase ∧ cycles % 3 = 0 ∧ 0 < cycles
  | .finish p | .reportFailure p | .cleanup p => p = phase ∧ cycles % 3 = 0 ∧ 0 < cycles ∧ stop = true
  | .awaitPrepare p => p = .measurement ∧ phase = .warmup ∧ cycles % 3 = 0 ∧ 0 < cycles ∧ stop = true
  | .flush | .exited => phase = .measurement ∧ cycles % 3 = 0 ∧ 0 < cycles ∧ stop = true
  | _ => False

/-- A worker that waits is where it arrived until the generation ends, and then where the wait leads. -/
def Worker.position (generation : Nat) : Worker → Worker
  | .blocked p wait g => if g = generation then .arrive p wait else RunContext.afterWait p wait
  | w => w

def RunContext.OnBeat (run : RunContext threads) (phase : Timed) (cycles : Nat) (index : Fin threads) : Prop :=
  ((run.worker index).position run.ringBarrier.generation).AtBeat phase cycles run.failed run.ringStop
    (index.val = 0)

section Beat

variable {generation beats : Nat} {failed failed' stop stop' : Bool} {lead : Prop}

theorem Worker.position_of_free (hfree : w.blockedAt = none) : w.position generation = w := by
  cases w with
  | blocked p wait g => simp [Worker.blockedAt] at hfree
  | _ => rfl

theorem Worker.position_blocked (p : Timed) (wait : RingWait) (g : Nat) :
    (Worker.blocked p wait g).position generation
      = if g = generation then .arrive p wait else RunContext.afterWait p wait := rfl

theorem Worker.untested_position : (w.position generation).Untested phase ↔ w.Untested phase := by
  cases w with
  | blocked p wait g =>
      refine iff_of_false ?_ (by simp [Worker.Untested])
      rw [Worker.position_blocked]
      split
      · simp [Worker.Untested]
      · cases wait <;> simp [RunContext.afterWait, Worker.Untested]
  | _ => rfl

/-- A worker at a wait is in the running phase, before the wait and after it. -/
theorem Worker.AtBeat.arrive_phase {q : Timed} {wait : RingWait}
    (hbeat : (Worker.arrive q wait).AtBeat phase beats failed stop lead) : q = phase := by
  cases wait with
  | entries => exact hbeat.1
  | reads => exact hbeat.1
  | choice => exact hbeat.1

theorem Worker.AtBeat.after_phase {q : Timed} {wait : RingWait}
    (hbeat : (RunContext.afterWait q wait).AtBeat phase beats failed stop lead) : q = phase := by
  cases wait with
  | entries => exact hbeat.1
  | reads => exact hbeat.1
  | choice => exact hbeat.1

theorem Worker.AtBeat.blocked_phase {q : Timed} {wait : RingWait} {g : Nat}
    (hbeat : ((Worker.blocked q wait g).position generation).AtBeat phase beats failed stop lead) : q = phase := by
  rw [Worker.position_blocked] at hbeat
  split at hbeat
  · exact hbeat.arrive_phase
  · exact hbeat.after_phase

/-- Completing a wait. -/
theorem Worker.AtBeat.released {p : Timed} {wait : RingWait}
    (hbeat : (Worker.arrive p wait).AtBeat phase beats failed stop lead) :
    (RunContext.afterWait p wait).AtBeat phase (beats + 1) failed stop lead := by
  cases wait with
  | entries =>
      obtain ⟨hp, hbeats, hstop⟩ := hbeat
      exact ⟨hp, by omega, hstop⟩
  | reads =>
      obtain ⟨hp, hbeats, hstop⟩ := hbeat
      exact ⟨hp, by omega, fun _ => hstop⟩
  | choice =>
      obtain ⟨hp, hbeats⟩ := hbeat
      exact ⟨hp, by omega, by omega⟩

/-- A store to `failed` disturbs only workers that have not tested it, and a store to `ring_stop` between the
second and the third wait only the first worker. -/
theorem Worker.AtBeat.congr (hbeat : w.AtBeat phase beats failed stop lead)
    (hfailed : failed' = failed ∨ ¬ w.Untested phase) (hstop : stop' = stop ∨ beats % 3 = 2 ∧ ¬ lead) :
    w.AtBeat phase beats failed' stop' lead := by
  have huntested : w.Untested phase → failed' = failed := fun h => hfailed.resolve_right (not_not_intro h)
  rcases hstop with rfl | ⟨hthird, hlead⟩
  · cases w with
    | awaitPhase p =>
        obtain ⟨rfl, hbeats, hfailed, hstop⟩ := hbeat
        exact ⟨rfl, hbeats, (huntested (Or.inl rfl)).trans hfailed, hstop⟩
    | testFailed p =>
        obtain ⟨rfl, hbeats, hfailed, hstop⟩ := hbeat
        exact ⟨rfl, hbeats, (huntested (Or.inr rfl)).trans hfailed, hstop⟩
    | arrive p wait => cases wait <;> exact hbeat
    | _ => exact hbeat
  · cases w with
    | decideStop p => exact ⟨hbeat.1, hbeat.2.1, fun h => absurd h hlead⟩
    | raiseStop p => exact absurd hbeat.2.2 hlead
    | arrive p wait =>
        cases wait with
        | choice => exact hbeat
        | entries => exact absurd hbeat.2.1 (by omega)
        | reads => exact absurd hbeat.2.1 (by omega)
    | absent | signalReady | signalPrepared p | blocked p wait g => exact hbeat.elim
    | awaitPrepare p => exact absurd hbeat.2.2.1 (by omega)
    | _ => exact absurd hbeat.2.1 (by omega)

/-- Whoever waits in the generation that ends is released into the next beat. -/
theorem Worker.AtBeat.next (hbeat : (w.position generation).AtBeat phase beats failed stop lead)
    (hblocked : w.blockedAt = some generation) :
    (w.position (generation + 1)).AtBeat phase (beats + 1) failed stop lead := by
  cases w with
  | blocked p wait g =>
      obtain rfl := Option.some.inj hblocked
      rw [Worker.position_blocked, if_pos rfl] at hbeat
      rw [Worker.position_blocked, if_neg (by omega)]
      exact hbeat.released
  | _ => simp [Worker.blockedAt] at hblocked

/-- Whoever is past the end of the warmup waits for the next phase. -/
theorem Worker.AtBeat.eq_awaitPrepare (hbeat : (w.position generation).AtBeat .warmup beats failed stop lead)
    (hpast : 10 ≤ w.stage) : w = .awaitPrepare .measurement := by
  cases w with
  | awaitPrepare p =>
      obtain ⟨rfl, -⟩ := hbeat
      rfl
  | flush | exited => exact absurd hbeat.1 (by simp)
  | blocked p wait g =>
      obtain rfl := hbeat.blocked_phase
      simp [Worker.stage, Timed.offset] at hpast
  | arrive p wait =>
      obtain rfl := Worker.AtBeat.arrive_phase hbeat
      simp [Worker.stage, Timed.offset] at hpast
  | absent | signalReady | signalPrepared p => exact hbeat.elim
  | _ =>
      obtain ⟨rfl, -⟩ := hbeat
      simp [Worker.stage, Timed.offset] at hpast

end Beat

/-! ### The parts of a run -/

/-- The first workers have exited, as far as they have been joined. -/
def Joins (run : RunContext threads) (success : Bool) (created : Nat) : Prop :=
  match run.main with
  | .join s c joined => (s = true → success = true) ∧ c = created ∧ ∀ u, u.val < joined → run.worker u = .exited
  | .judge s => (s = true → success = true) ∧ ∀ u, u.val < created → run.worker u = .exited
  | .returned s =>
      (s = true → success = true ∧ run.failed = false) ∧ ∀ u, u.val < created → run.worker u = .exited
  | _ => False

/-- No wait of the phase, or of a later one, has been completed. -/
structure Fresh (phase : Timed) (cycles : Timed → Nat) : Prop where
  measurement : cycles .measurement = 0
  warmup : phase = .warmup → cycles .warmup = 0

/-- A worker before the first phase is prepared. -/
def Worker.Opening (w : Worker) : Prop := w = .signalReady ∨ w = .awaitPrepare .warmup

/-- A worker while a phase is prepared. -/
def Worker.Preparing (phase : Timed) (w : Worker) : Prop :=
  w = .awaitPrepare phase ∨ w = .signalPrepared phase ∨ w = .awaitPhase phase

/-- A worker when the run is being stopped: it waits for a phase that is not the published one, or it leaves. -/
def Worker.Parked (phase : RunPhase) : Worker → Prop
  | .signalReady => phase ≠ .prepare .warmup
  | .awaitPrepare p => phase ≠ .prepare p
  | .awaitPhase p => phase ≠ .timed p
  | .flush | .exited => True
  | _ => False

/-- A timed phase has been published and not ended yet. -/
structure Running (run : RunContext threads) (cycles : Timed → Nat) (p : Timed) : Prop where
  main : match p with
    | .warmup => run.main = .awaitWarmupDone
    | .measurement => Joins run true threads
  phase : run.phase = .timed p
  fresh : p = .warmup → cycles .measurement = 0
  workers : ∀ u, run.OnBeat p (cycles p) u

/-- The part of the program all threads are in. -/
inductive Stage (run : RunContext threads) (cycles : Timed → Nat) : Prop
  | creating (created : Nat) (main : run.main = .create created) (phase : run.phase = .waiting)
      (failed : run.failed = false) (fresh : Fresh .warmup cycles)
      (workers : ∀ u, (u.val < created → (run.worker u).Opening) ∧ (created ≤ u.val → run.worker u = .absent))
  | opening (main : run.main = .awaitReady) (phase : run.phase = .waiting) (failed : run.failed = false)
      (fresh : Fresh .warmup cycles) (workers : ∀ u, (run.worker u).Opening)
  | assembled (p : Timed) (main : run.main = .openPrepare p) (phase : run.phase ≠ .stop ∧ run.phase ≠ .prepare p)
      (failed : run.failed = false) (fresh : Fresh p cycles) (workers : ∀ u, run.worker u = .awaitPrepare p)
  | preparing (p : Timed) (main : run.main = .awaitPrepared p) (phase : run.phase = .prepare p)
      (failed : run.failed = false) (fresh : Fresh p cycles) (workers : ∀ u, (run.worker u).Preparing p)
  | prepared (p : Timed) (main : run.main = .resetPhaseState p ∨
        run.ringStop = false ∧ (run.main = .testFailed p ∨ run.main = .openPhase p))
      (phase : run.phase = .prepare p) (failed : run.failed = false) (fresh : Fresh p cycles)
      (workers : ∀ u, run.worker u = .awaitPhase p)
  | running (p : Timed) (running : Running run cycles p)
  | warm (main : run.main = .testWarmup) (phase : run.phase = .timed .warmup)
      (fresh : cycles .measurement = 0) (workers : ∀ u, run.worker u = .awaitPrepare .measurement)
  | stopping (created : Nat) (main : run.main = .stop created ∨ run.phase = .stop ∧ Joins run false created)
      (workers : ∀ u, (u.val < created → (run.worker u).Parked run.phase) ∧
        (created ≤ u.val → run.worker u = .absent))

/-- **The invariant.** -/
structure Coherent (run : RunContext threads) (cycles : Timed → Nat) : Prop where
  synced : Synced run cycles
  stage : Stage run cycles

end Hplf.Ring
