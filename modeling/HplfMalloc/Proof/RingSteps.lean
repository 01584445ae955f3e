import HplfMalloc.Proof.RingInvariant

/-!
# The steps of the ring benchmark

A step of a worker keeps the invariant, unless an allocation fails before all workers have tested `failed`; a
step of the main thread keeps it always.
-/

namespace Hplf.Ring

open Lib

variable {threads : Nat} {run run' : RunContext threads} {cycles : Timed → Nat} {phase : Timed}
variable {index : Fin threads} {outcome : Bool} {w w' : Worker}

/-! ### Frames -/

/-- One worker goes to `w'`; the phase, the main thread, the barrier and the waits stay. -/
structure Moves (run run' : RunContext threads) (index : Fin threads) (w' : Worker) : Prop where
  phase : run'.phase = run.phase
  main : run'.main = run.main
  ringBarrier : run'.ringBarrier = run.ringBarrier
  waits : run'.waits = run.waits
  worker : run'.worker = Function.update run.worker index w'

theorem Moves.other (hmoves : Moves run run' index w') {u : Fin threads} (hu : u ≠ index) :
    run'.worker u = run.worker u := by
  rw [hmoves.worker, Function.update_of_ne hu]

theorem Moves.self (hmoves : Moves run run' index w') : run'.worker index = w' := by
  rw [hmoves.worker, Function.update_self]

/-- What is required of each worker is required of the one that moves and of the others. -/
theorem Moves.forall_worker (hmoves : Moves run run' index w') {Q : Fin threads → Worker → Prop}
    (hall : ∀ u, Q u (run.worker u)) (hself : Q index w') : ∀ u, Q u (run'.worker u) := by
  intro u
  by_cases hu : u = index
  · subst hu
    rw [hmoves.self]
    exact hself
  · rw [hmoves.other hu]
    exact hall u

/-- A worker that has not exited moves on. -/
theorem Joins.of_worker {success : Bool} {created : Nat} (hjoins : Joins run success created)
    (hmain : run'.main = run.main) (hworker : run'.worker = Function.update run.worker index w')
    (hnot : run.worker index ≠ .exited) (hindex : index.val < created) : Joins run' success created := by
  unfold Joins at hjoins ⊢
  rw [hmain]
  cases hpart : run.main with
  | join s c joined =>
      rw [hpart] at hjoins
      obtain ⟨hs, hc, hexited⟩ := hjoins
      refine ⟨hs, hc, fun u hu => ?_⟩
      have hne : u ≠ index := by
        rintro rfl
        exact hnot (hexited u hu)
      rw [hworker, Function.update_of_ne hne]
      exact hexited u hu
  | judge s =>
      rw [hpart] at hjoins
      exact absurd (hjoins.2 index hindex) hnot
  | returned s =>
      rw [hpart] at hjoins
      exact absurd (hjoins.2 index hindex) hnot
  | _ =>
      rw [hpart] at hjoins
      exact hjoins.elim

theorem waitForPhase_eq_some {awaited : RunPhase} {opened stopped : Worker}
    (hwait : run.waitForPhase index awaited opened stopped = some run') :
    (run.phase = .stop ∧ run' = run.goto index stopped) ∨
      (run.phase ≠ .stop ∧ run.phase = awaited ∧ run' = run.goto index opened) := by
  unfold RunContext.waitForPhase at hwait
  split at hwait
  · rename_i hstop
    exact Or.inl ⟨hstop, (Option.some.inj hwait).symm⟩
  · rename_i hstop
    split at hwait
    · rename_i hphase
      exact Or.inr ⟨hstop, hphase, (Option.some.inj hwait).symm⟩
    · simp at hwait

theorem moves_goto (run : RunContext threads) (index : Fin threads) (w' : Worker) :
    Moves run (run.goto index w') index w' := ⟨rfl, rfl, rfl, rfl, rfl⟩

/-! ### Signals -/

theorem Counted.signalReady (hcounted : Counted run) (hworker : run.worker index = .signalReady) :
    Counted ({ run with ready := run.ready + 1 }.goto index (.awaitPrepare .warmup)) where
  ready := by
    have hgain := headcount_update_gain (P := Worker.Past 2) (f := run.worker) (u := index)
      (x := .awaitPrepare .warmup) (by rw [hworker]; decide) (by decide)
    exact (congrArg (· + 1) hcounted.ready).trans hgain.symm
  prepared p := by
    have hsame := headcount_update_same (P := Worker.Past (p.offset + 4)) (f := run.worker) (u := index)
      (x := .awaitPrepare .warmup) (by rw [hworker]; cases p <;> decide)
    exact (hcounted.prepared p).trans hsame.symm
  warmupDone := by
    have hsame := headcount_update_same (P := Worker.Past 10) (f := run.worker) (u := index)
      (x := .awaitPrepare .warmup) (by rw [hworker]; decide)
    exact hcounted.warmupDone.trans hsame.symm

theorem Counted.signalPrepared (hcounted : Counted run) (hworker : run.worker index = .signalPrepared phase) :
    Counted ({ run with prepared := Function.update run.prepared phase (run.prepared phase + 1) }.goto index
      (.awaitPhase phase)) where
  ready := by
    have hsame := headcount_update_same (P := Worker.Past 2) (f := run.worker) (u := index)
      (x := .awaitPhase phase) (by rw [hworker]; cases phase <;> decide)
    exact hcounted.ready.trans hsame.symm
  prepared p := by
    change Function.update run.prepared phase _ p = headcount _ (Function.update run.worker index _)
    by_cases hp : p = phase
    · subst hp
      rw [Function.update_self, hcounted.prepared p]
      exact (headcount_update_gain (P := Worker.Past (p.offset + 4))
        (by rw [hworker]; cases p <;> decide) (by cases p <;> decide)).symm
    · rw [Function.update_of_ne hp, hcounted.prepared p]
      refine (headcount_update_same (P := Worker.Past (p.offset + 4)) ?_).symm
      rw [hworker]
      revert hp
      cases p <;> cases phase <;> decide
  warmupDone := by
    have hsame := headcount_update_same (P := Worker.Past 10) (f := run.worker) (u := index)
      (x := .awaitPhase phase) (by rw [hworker]; cases phase <;> decide)
    exact hcounted.warmupDone.trans hsame.symm

theorem Counted.signalDone (hcounted : Counted run) (hworker : run.worker index = .cleanup .warmup) :
    Counted ({ run with warmupDone := run.warmupDone + 1 }.goto index (.awaitPrepare .measurement)) where
  ready := by
    have hsame := headcount_update_same (P := Worker.Past 2) (f := run.worker) (u := index)
      (x := .awaitPrepare .measurement) (by rw [hworker]; decide)
    exact hcounted.ready.trans hsame.symm
  prepared p := by
    have hsame := headcount_update_same (P := Worker.Past (p.offset + 4)) (f := run.worker) (u := index)
      (x := .awaitPrepare .measurement) (by rw [hworker]; cases p <;> decide)
    exact (hcounted.prepared p).trans hsame.symm
  warmupDone := by
    have hgain := headcount_update_gain (P := Worker.Past 10) (f := run.worker) (u := index)
      (x := .awaitPrepare .measurement) (by rw [hworker]; decide) (by decide)
    exact (congrArg (· + 1) hcounted.warmupDone).trans hgain.symm

/-! ### Workers outside a running phase -/

/-- A worker that is not in the rounds moves on. -/
theorem Synced.moves (hsynced : Synced run cycles) (hmoves : Moves run run' index w')
    (hfree : (run.worker index).blockedAt ≠ some run.ringBarrier.generation) (hfree' : w'.blockedAt = none)
    (hcounted : run.phase ≠ .stop → Counted run → Counted run') : Synced run' cycles := by
  apply hsynced.move hmoves.worker hmoves.ringBarrier hmoves.waits hfree hfree'
  intro hphase
  rw [hmoves.phase] at hphase
  exact hcounted hphase (hsynced.counted hphase)

/-- A worker cannot act while another phase than the one it waits for is announced. -/
theorem not_step_awaitPrepare (hworker : run.worker index = .awaitPrepare p) (hstop : run.phase ≠ .stop)
    (hother : run.phase ≠ .prepare p) : run.stepWorker index outcome ≠ some run' := by
  intro hstep
  unfold RunContext.stepWorker at hstep
  rw [hworker] at hstep
  rcases waitForPhase_eq_some hstep with ⟨hphase, -⟩ | ⟨-, hphase, -⟩
  · exact hstop hphase
  · exact hother hphase

theorem not_step_awaitPhase (hworker : run.worker index = .awaitPhase p) (hstop : run.phase ≠ .stop)
    (hother : run.phase ≠ .timed p) : run.stepWorker index outcome ≠ some run' := by
  intro hstep
  unfold RunContext.stepWorker at hstep
  rw [hworker] at hstep
  rcases waitForPhase_eq_some hstep with ⟨hphase, -⟩ | ⟨-, hphase, -⟩
  · exact hstop hphase
  · exact hother hphase

theorem not_step_absent (hworker : run.worker index = .absent) :
    run.stepWorker index outcome ≠ some run' := by
  intro hstep
  unfold RunContext.stepWorker at hstep
  rw [hworker] at hstep
  cases hstep

/-- Before the first phase is prepared a worker can only report that it is ready. -/
theorem Worker.Opening.step (hopening : (run.worker index).Opening) (hphase : run.phase = .waiting)
    (hstep : run.stepWorker index outcome = some run') :
    run.worker index = .signalReady ∧
      run' = { run with ready := run.ready + 1 }.goto index (.awaitPrepare .warmup) := by
  rcases hopening with hworker | hworker
  · unfold RunContext.stepWorker at hstep
    rw [hworker] at hstep
    exact ⟨hworker, (Option.some.inj hstep).symm⟩
  · exact absurd hstep (not_step_awaitPrepare hworker (by simp [hphase]) (by simp [hphase]))

theorem Synced.signalReady (hsynced : Synced run cycles) (hworker : run.worker index = .signalReady) :
    Synced ({ run with ready := run.ready + 1 }.goto index (.awaitPrepare .warmup)) cycles :=
  hsynced.moves (show Moves run _ index (.awaitPrepare .warmup) from ⟨rfl, rfl, rfl, rfl, rfl⟩)
    (by rw [hworker]; simp [Worker.blockedAt]) rfl fun _ hcounted => hcounted.signalReady hworker

/-- While a phase is prepared a worker can only prepare. -/
theorem Worker.Preparing.step {p : Timed} (hpreparing : (run.worker index).Preparing p)
    (hphase : run.phase = .prepare p) (hstep : run.stepWorker index outcome = some run') :
    (run.worker index = .awaitPrepare p ∧ run' = run.goto index (.signalPrepared p)) ∨
      (run.worker index = .signalPrepared p ∧
        run' = { run with prepared := Function.update run.prepared p (run.prepared p + 1) }.goto index
          (.awaitPhase p)) := by
  rcases hpreparing with hworker | hworker | hworker
  · unfold RunContext.stepWorker at hstep
    rw [hworker] at hstep
    rcases waitForPhase_eq_some hstep with ⟨hstop, -⟩ | ⟨-, -, hrun⟩
    · rw [hphase] at hstop
      simp at hstop
    · exact Or.inl ⟨hworker, hrun⟩
  · unfold RunContext.stepWorker at hstep
    rw [hworker] at hstep
    exact Or.inr ⟨hworker, (Option.some.inj hstep).symm⟩
  · exact absurd hstep (not_step_awaitPhase hworker (by simp [hphase]) (by simp [hphase]))

/-- When the run is being stopped a worker can only move towards its end. -/
theorem Worker.Parked.step (hparked : (run.worker index).Parked run.phase)
    (hstep : run.stepWorker index outcome = some run') :
    (run.worker index = .signalReady ∧
        run' = { run with ready := run.ready + 1 }.goto index (.awaitPrepare .warmup)) ∨
      (run.phase = .stop ∧ run' = run.goto index .flush ∧
        ((∃ p, run.worker index = .awaitPrepare p) ∨ ∃ p, run.worker index = .awaitPhase p)) ∨
      (run.worker index = .flush ∧ run' = run.goto index .exited) := by
  unfold RunContext.stepWorker at hstep
  cases hworker : run.worker index with
  | signalReady =>
      rw [hworker] at hstep
      exact Or.inl ⟨rfl, (Option.some.inj hstep).symm⟩
  | awaitPrepare p =>
      rw [hworker] at hstep hparked
      rcases waitForPhase_eq_some hstep with ⟨hstop, hrun⟩ | ⟨-, hopened, -⟩
      · exact Or.inr (Or.inl ⟨hstop, hrun, Or.inl ⟨p, rfl⟩⟩)
      · exact absurd hopened hparked
  | awaitPhase p =>
      rw [hworker] at hstep hparked
      rcases waitForPhase_eq_some hstep with ⟨hstop, hrun⟩ | ⟨-, hopened, -⟩
      · exact Or.inr (Or.inl ⟨hstop, hrun, Or.inr ⟨p, rfl⟩⟩)
      · exact absurd hopened hparked
  | flush =>
      rw [hworker] at hstep
      exact Or.inr (Or.inr ⟨rfl, (Option.some.inj hstep).symm⟩)
  | exited =>
      rw [hworker] at hstep
      simp at hstep
  | _ =>
      rw [hworker] at hparked
      exact hparked.elim

/-! ### Workers in a running phase -/

/-- A bound for the steps a worker has left, from the waits that are left to it in each phase. -/
def Worker.rank (left : Timed → Nat) : Worker → Nat
  | .blocked p _ _ => 8 * left p + 11
  | .testStop p | .receive p | .decideStop p => 8 * left p + 10
  | .allocate p | .checkIncoming p _ | .raiseStop p => 8 * left p + 9
  | .sendOutgoing p _ => 8 * left p + 8
  | .arrive p wait => if wait = .entries then 8 * left p + 7 else 8 * left p + 8
  | .finish _ => 5
  | .reportFailure _ => 4
  | .cleanup _ | .signalReady => 3
  | .awaitPrepare _ | .awaitPhase _ => 2
  | .flush => 1
  | _ => 0

section Running

variable {p : Timed}

/-- What a worker at `w` that does not arrive at the barrier does in a running phase: it goes to `w'`, sets `failed`
only when all have tested it, and `ring_stop` only as the first worker between the second and the third wait. If it
has tested `failed` itself, it comes closer to its end, and as the first worker it does not choose to go round again
after a failure. -/
structure Turn (run run' : RunContext threads) (index : Fin threads) (p : Timed) (beats : Nat) (w w' : Worker) :
    Prop where
  worker : run.worker index = w
  busy : w ≠ .exited ∧ ∀ wait, w ≠ .arrive p wait
  free : w.blockedAt ≠ some run.ringBarrier.generation
  moves : Moves run run' index w'
  counted : Counted run → Counted run'
  failed : run'.failed = run.failed ∨ ∀ v, ¬ (run.worker v).Untested p
  stop : run'.ringStop = run.ringStop ∨
    run'.ringStop = true ∧ beats % 3 = 2 ∧ index.val = 0
  beat : w'.AtBeat p beats run'.failed run'.ringStop (index.val = 0)
  choice : w' = .arrive p .choice → run'.ringStop = true ∨ ¬ (index.val = 0 ∧ run.failed = true)
  rank : w.Untested p ∨ ∀ left left' : Timed → Nat, left' p = left p → w'.rank left' < w.rank left

/-- A worker moves without passing a signal, and leaves `ring_stop` alone. -/
theorem Turn.quiet {beats : Nat} (hworker : run.worker index = w) (hmoves : Moves run run' index w')
    (hready : run'.ready = run.ready) (hprepared : run'.prepared = run.prepared)
    (hdone : run'.warmupDone = run.warmupDone) (hstop : run'.ringStop = run.ringStop)
    (hfree : w.blockedAt ≠ some run.ringBarrier.generation) (hbusy : w ≠ .exited ∧ ∀ wait, w ≠ .arrive p wait)
    (hfailed : run'.failed = run.failed ∨ ∀ v, ¬ (run.worker v).Untested p)
    (hbeat : w'.AtBeat p beats run'.failed run'.ringStop (index.val = 0))
    (hsame : ∀ n ∈ [2, 4, 10, 12], n ≤ w'.stage ↔ n ≤ w.stage)
    (hchoice : w' = .arrive p .choice → ¬ (index.val = 0 ∧ run.failed = true))
    (hrank : w.Untested p ∨ ∀ left left' : Timed → Nat, left' p = left p → w'.rank left' < w.rank left) :
    Turn run run' index p beats w w' where
  worker := hworker
  busy := hbusy
  free := hfree
  moves := hmoves
  counted hcounted := hcounted.move hmoves.worker hready hprepared hdone (by rwa [hworker])
  failed := hfailed
  stop := Or.inl hstop
  beat := hbeat
  choice hw' := Or.inr (hchoice hw')
  rank := hrank

/-- Once a wait has been completed, or `failed` is set, every worker has tested `failed`. -/
theorem Running.tested (hrunning : Running run cycles p) (hlate : cycles p ≠ 0 ∨ run.failed = true)
    (u : Fin threads) : ¬ (run.worker u).Untested p := by
  intro huntested
  have hbeat : cycles p = 0 ∧ run.failed = false := by
    have hbeat := hrunning.workers u
    unfold RunContext.OnBeat at hbeat
    rcases huntested with hworker | hworker
    · rw [hworker] at hbeat
      exact ⟨hbeat.2.1, hbeat.2.2.1⟩
    · rw [hworker] at hbeat
      exact ⟨hbeat.2.1, hbeat.2.2.1⟩
  rcases hlate with hcycles | hfailed
  · exact hcycles hbeat.1
  · rw [hbeat.2] at hfailed
    simp at hfailed

/-- **What a worker can do in a running phase.** It arrives at the barrier, or it takes a turn. -/
theorem Running.step_cases (hrunning : Running run cycles p)
    (htimely : outcome = false → run.worker index = .allocate p → ∀ v, ¬ (run.worker v).Untested p)
    (hstep : run.stepWorker index outcome = some run') :
    (∃ wait, run.worker index = .arrive p wait ∧ run' = run.barrierWait index p wait) ∨
      ∃ w w', Turn run run' index p (cycles p) w w' := by
  have hbeat := hrunning.workers index
  unfold RunContext.OnBeat at hbeat
  unfold RunContext.stepWorker at hstep
  cases hworker : run.worker index with
  | absent | signalReady | signalPrepared q =>
      rw [hworker] at hbeat
      exact hbeat.elim
  | exited =>
      rw [hworker] at hstep
      simp at hstep
  | awaitPrepare q =>
      -- The measurement is not prepared before the warmup is over.
      rw [hworker] at hstep
      rcases waitForPhase_eq_some hstep with ⟨hstop, -⟩ | ⟨-, hphase, -⟩
      · rw [hrunning.phase] at hstop
        simp at hstop
      · rw [hrunning.phase] at hphase
        simp at hphase
  | awaitPhase q =>
      rw [hworker] at hstep hbeat
      obtain ⟨rfl, hcycles, hfailed, hstop⟩ := hbeat
      rcases waitForPhase_eq_some hstep with ⟨hphase, -⟩ | ⟨-, -, rfl⟩
      · rw [hrunning.phase] at hphase
        simp at hphase
      · refine Or.inr ⟨_, _, .quiet hworker (moves_goto _ _ _) rfl rfl rfl rfl (by simp [Worker.blockedAt])
          (by simp) (Or.inl rfl) ⟨rfl, hcycles, hfailed, hstop⟩ ?_ (by simp) (Or.inl (Or.inl rfl))⟩
        cases q <;> decide
  | testFailed q =>
      rw [hworker] at hstep hbeat
      obtain ⟨rfl, hcycles, hfailed, hstop⟩ := hbeat
      dsimp only at hstep
      rw [hfailed, if_neg (by simp)] at hstep
      obtain rfl := Option.some.inj hstep
      refine Or.inr ⟨_, _, .quiet hworker (moves_goto _ _ _) rfl rfl rfl rfl (by simp [Worker.blockedAt])
        (by simp) (Or.inl rfl) ⟨rfl, by rw [hcycles], hstop⟩ ?_ (by simp) (Or.inl (Or.inr rfl))⟩
      cases q <;> decide
  | allocate q =>
      rw [hworker] at hstep hbeat
      obtain ⟨rfl, hcycles, hstop⟩ := hbeat
      obtain rfl := Option.some.inj hstep
      refine Or.inr ⟨_, _, .quiet hworker ⟨rfl, rfl, rfl, rfl, rfl⟩ rfl rfl rfl rfl (by simp [Worker.blockedAt])
        (by simp) ?_ ⟨rfl, hcycles, hstop⟩ (fun _ _ => Iff.rfl) (by simp)
        (Or.inr fun left left' hleft => by simp [Worker.rank, hleft])⟩
      cases outcome with
      | true => exact Or.inl (Bool.or_false _)
      | false => exact Or.inr (htimely rfl hworker)
  | sendOutgoing q outgoing =>
      rw [hworker] at hstep hbeat
      obtain ⟨rfl, hcycles, hstop⟩ := hbeat
      obtain rfl := Option.some.inj hstep
      exact Or.inr ⟨_, _, .quiet hworker ⟨rfl, rfl, rfl, rfl, rfl⟩ rfl rfl rfl rfl (by simp [Worker.blockedAt])
        (by simp) (Or.inl rfl) ⟨rfl, hcycles, hstop⟩ (fun _ _ => Iff.rfl) (by simp)
        (Or.inr fun left left' hleft => by simp [Worker.rank, hleft])⟩
  | arrive q wait =>
      rw [hworker] at hstep hbeat
      obtain rfl := Worker.AtBeat.arrive_phase hbeat
      exact Or.inl ⟨wait, rfl, (Option.some.inj hstep).symm⟩
  | blocked q wait g =>
      rw [hworker] at hstep hbeat
      obtain rfl := hbeat.blocked_phase
      dsimp only at hstep
      split at hstep
      · simp at hstep
      · rename_i hpast
        obtain rfl := Option.some.inj hstep
        rw [Worker.position_blocked, if_neg (Ne.symm hpast)] at hbeat
        refine Or.inr ⟨_, _, .quiet hworker (moves_goto _ _ _) rfl rfl rfl rfl
          (fun h => hpast (Option.some.inj h).symm) (by simp) (Or.inl rfl) hbeat (fun _ _ => ?_) ?_
          (Or.inr fun left left' hleft => ?_)⟩
        · cases wait <;> rfl
        · cases wait <;> simp [RunContext.afterWait]
        · cases wait <;> simp [RunContext.afterWait, Worker.rank, hleft]
  | receive q =>
      rw [hworker] at hstep hbeat
      obtain ⟨rfl, hcycles, hstop⟩ := hbeat
      obtain rfl := Option.some.inj hstep
      exact Or.inr ⟨_, _, .quiet hworker (moves_goto _ _ _) rfl rfl rfl rfl (by simp [Worker.blockedAt])
        (by simp) (Or.inl rfl) ⟨rfl, hcycles, hstop⟩ (fun _ _ => Iff.rfl) (by simp)
        (Or.inr fun left left' hleft => by simp [Worker.rank, hleft])⟩
  | checkIncoming q incoming =>
      rw [hworker] at hstep hbeat
      obtain ⟨rfl, hcycles, hstop⟩ := hbeat
      obtain rfl := Option.some.inj hstep
      exact Or.inr ⟨_, _, .quiet hworker ⟨rfl, rfl, rfl, rfl, rfl⟩ rfl rfl rfl rfl (by simp [Worker.blockedAt])
        (by simp) (Or.inr (hrunning.tested (Or.inl (by omega)))) ⟨rfl, hcycles, hstop⟩ (fun _ _ => Iff.rfl) (by simp)
        (Or.inr fun left left' hleft => by simp [Worker.rank, hleft])⟩
  | decideStop q =>
      rw [hworker] at hstep hbeat
      obtain ⟨rfl, hcycles, hstop⟩ := hbeat
      obtain rfl := Option.some.inj hstep
      by_cases hraise : index.val = 0 ∧ (outcome = false ∨ run.failed = true)
      · rw [if_pos hraise]
        exact Or.inr ⟨_, _, .quiet hworker (moves_goto _ _ _) rfl rfl rfl rfl (by simp [Worker.blockedAt])
          (by simp) (Or.inl rfl) ⟨rfl, hcycles, hraise.1⟩ (fun _ _ => Iff.rfl) (by simp)
          (Or.inr fun left left' hleft => by simp [Worker.rank, hleft])⟩
      · rw [if_neg hraise]
        exact Or.inr ⟨_, _, .quiet hworker (moves_goto _ _ _) rfl rfl rfl rfl (by simp [Worker.blockedAt])
          (by simp) (Or.inl rfl) ⟨rfl, hcycles⟩ (fun _ _ => Iff.rfl) (fun _ h => hraise ⟨h.1, Or.inr h.2⟩)
          (Or.inr fun left left' hleft => by simp [Worker.rank, hleft])⟩
  | raiseStop q =>
      rw [hworker] at hstep hbeat
      obtain ⟨rfl, hcycles, hlead⟩ := hbeat
      obtain rfl := Option.some.inj hstep
      refine Or.inr ⟨_, .arrive q .choice, hworker, by simp, by simp [Worker.blockedAt], ⟨rfl, rfl, rfl, rfl, rfl⟩,
        fun hcounted => ?_, Or.inl rfl, Or.inr ⟨rfl, hcycles, hlead⟩, ⟨rfl, hcycles⟩, fun _ => Or.inl rfl,
        Or.inr fun left left' hleft => by simp [Worker.rank, hleft]⟩
      exact hcounted.move rfl rfl rfl rfl fun _ _ => by rw [hworker]; rfl
  | testStop q =>
      rw [hworker] at hstep hbeat
      obtain ⟨rfl, hcycles, hpos⟩ := hbeat
      obtain rfl := Option.some.inj hstep
      by_cases hstop : run.ringStop = true
      · rw [if_pos hstop]
        refine Or.inr ⟨_, _, .quiet hworker (moves_goto _ _ _) rfl rfl rfl rfl (by simp [Worker.blockedAt])
          (by simp) (Or.inl rfl) ⟨rfl, hcycles, hpos, hstop⟩ ?_ (by simp)
          (Or.inr fun left left' hleft => by simp [Worker.rank])⟩
        cases q <;> decide
      · rw [if_neg hstop]
        exact Or.inr ⟨_, _, .quiet hworker (moves_goto _ _ _) rfl rfl rfl rfl (by simp [Worker.blockedAt])
          (by simp) (Or.inl rfl) ⟨rfl, hcycles, Bool.eq_false_iff.mpr hstop⟩ (fun _ _ => Iff.rfl) (by simp)
          (Or.inr fun left left' hleft => by simp [Worker.rank, hleft])⟩
  | finish q =>
      rw [hworker] at hstep hbeat
      obtain ⟨rfl, hended⟩ := hbeat
      obtain rfl := Option.some.inj hstep
      refine Or.inr ⟨_, _, .quiet hworker (moves_goto _ _ _) rfl rfl rfl rfl (by simp [Worker.blockedAt])
        (by simp) (Or.inl rfl) ?_ ?_ ?_ (Or.inr fun left left' hleft => ?_)⟩
      · split
        · exact ⟨rfl, hended⟩
        · exact ⟨rfl, hended⟩
      · split <;> cases q <;> decide
      · split <;> simp
      · split <;> simp [Worker.rank]
  | reportFailure q =>
      rw [hworker] at hstep hbeat
      obtain ⟨rfl, hcycles, hpos, hstop⟩ := hbeat
      obtain rfl := Option.some.inj hstep
      refine Or.inr ⟨_, _, .quiet hworker ⟨rfl, rfl, rfl, rfl, rfl⟩ rfl rfl rfl rfl (by simp [Worker.blockedAt])
        (by simp) (Or.inr (hrunning.tested (Or.inl (by omega)))) ⟨rfl, hcycles, hpos, hstop⟩ ?_ (by simp)
        (Or.inr fun left left' hleft => by simp [Worker.rank])⟩
      cases q <;> decide
  | cleanup q =>
      rw [hworker] at hstep hbeat
      obtain ⟨rfl, hended⟩ := hbeat
      cases q with
      | warmup =>
          obtain rfl := Option.some.inj hstep
          exact Or.inr ⟨_, .awaitPrepare .measurement, hworker, by simp, by simp [Worker.blockedAt],
            ⟨rfl, rfl, rfl, rfl, rfl⟩, fun hcounted => hcounted.signalDone hworker, Or.inl rfl, Or.inl rfl,
            ⟨rfl, rfl, hended⟩, by simp, Or.inr fun left left' hleft => by simp [Worker.rank]⟩
      | measurement =>
          obtain rfl := Option.some.inj hstep
          exact Or.inr ⟨_, _, .quiet hworker (moves_goto _ _ _) rfl rfl rfl rfl (by simp [Worker.blockedAt])
            (by simp) (Or.inl rfl) ⟨rfl, hended⟩ (by decide) (by simp)
            (Or.inr fun left left' hleft => by simp [Worker.rank])⟩
  | flush =>
      rw [hworker] at hstep hbeat
      obtain rfl := Option.some.inj hstep
      exact Or.inr ⟨_, _, .quiet hworker (moves_goto _ _ _) rfl rfl rfl rfl (by simp [Worker.blockedAt])
        (by simp) (Or.inl rfl) hbeat (by decide) (by simp)
        (Or.inr fun left left' hleft => by simp [Worker.rank])⟩

/-- A worker that can be at a beat does not wait. -/
theorem Worker.AtBeat.blockedAt {beats : Nat} {failed stop : Bool} {lead : Prop}
    (hbeat : w.AtBeat p beats failed stop lead) : w.blockedAt = none := by
  cases w with
  | blocked q wait g => exact hbeat.elim
  | _ => rfl

/-- **A turn of one worker.** The others stay on the beat. -/
theorem Running.turn (hsynced : Synced run cycles) (hrunning : Running run cycles p)
    (hturn : Turn run run' index p (cycles p) w w') : Coherent run' cycles := by
  have hfree : (run.worker index).blockedAt ≠ some run.ringBarrier.generation := by
    rw [hturn.worker]
    exact hturn.free
  have hfree' := hturn.beat.blockedAt
  refine ⟨hsynced.moves hturn.moves hfree hfree' fun _ => hturn.counted,
    .running p ⟨?_, ?_, hrunning.fresh, fun u => ?_⟩⟩
  · have hmain := hrunning.main
    cases p with
    | warmup => exact hturn.moves.main.trans hmain
    | measurement =>
        refine Joins.of_worker hmain hturn.moves.main hturn.moves.worker ?_ index.isLt
        rw [hturn.worker]
        exact hturn.busy.1
  · rw [hturn.moves.phase, hrunning.phase]
  · unfold RunContext.OnBeat
    rw [hturn.moves.ringBarrier]
    by_cases hu : u = index
    · subst hu
      rw [hturn.moves.self, Worker.position_of_free hfree']
      exact hturn.beat
    · rw [hturn.moves.other hu]
      apply (hrunning.workers u).congr
      · rw [Worker.untested_position]
        exact hturn.failed.imp_right fun h => h u
      · rcases hturn.stop with hstop | ⟨-, hthird, hlead⟩
        · exact Or.inl hstop
        · exact Or.inr ⟨hthird, fun hzero => hu (Fin.ext (hzero.trans hlead.symm))⟩

/-- A worker that waits in the current generation waits in the running phase. -/
theorem Worker.eq_blocked {generation beats : Nat} {failed stop : Bool} {lead : Prop}
    (hbeat : (w.position generation).AtBeat p beats failed stop lead) (hblocked : w.blockedAt = some generation) :
    ∃ wait, w = .blocked p wait generation := by
  cases w with
  | blocked q wait g =>
      obtain rfl := Option.some.inj hblocked
      rw [Worker.position_blocked, if_pos rfl] at hbeat
      exact ⟨wait, by rw [Worker.AtBeat.arrive_phase hbeat]⟩
  | _ => simp [Worker.blockedAt] at hblocked

theorem Running.arriving (hrunning : Running run cycles p) {wait : RingWait}
    (hworker : run.worker index = .arrive p wait) :
    (Worker.arrive p wait).AtBeat p (cycles p) run.failed run.ringStop (index.val = 0) := by
  have hbeat := hrunning.workers index
  unfold RunContext.OnBeat at hbeat
  rwa [hworker] at hbeat

theorem Counted.arrive (hcounted : Counted run) {wait : RingWait} (hworker : run.worker index = .arrive p wait)
    (hw' : w'.stage = (Worker.arrive p wait).stage) (hmoved : run'.worker = Function.update run.worker index w')
    (hready : run'.ready = run.ready) (hprepared : run'.prepared = run.prepared)
    (hdone : run'.warmupDone = run.warmupDone) : Counted run' :=
  hcounted.move hmoved hready hprepared hdone fun n _ => by rw [hw', hworker]

/-- A worker that arrives before others joins those that wait. -/
theorem Running.joinWaiting (hsynced : Synced run cycles) (hrunning : Running run cycles p) {wait : RingWait}
    (hworker : run.worker index = .arrive p wait) (hnotLast : run.ringBarrier.arrived + 1 ≠ threads) :
    Coherent (run.barrierWait index p wait) cycles := by
  have hrun : run.barrierWait index p wait = { run with
      ringBarrier := ⟨run.ringBarrier.arrived + 1, run.ringBarrier.generation⟩
      waits := Function.update run.waits p (Function.update (run.waits p) index (run.waits p index + 1))
      worker := Function.update run.worker index (.blocked p wait run.ringBarrier.generation) } := by
    simp only [RunContext.barrierWait, Barrier.arrive, if_neg hnotLast]
    rfl
  have hfree : (run.worker index).blockedAt ≠ some run.ringBarrier.generation := by
    rw [hworker]
    simp [Worker.blockedAt]
  rw [hrun]
  refine ⟨⟨?_, fun q u => ?_, fun hphase => ?_⟩, .running p ⟨?_, hrunning.phase, hrunning.fresh, fun u => ?_⟩⟩
  · dsimp only
    rw [blockedAt_update]
    exact hsynced.balanced.block hfree (by rwa [Fintype.card_fin])
  · dsimp only
    have hwaits := hsynced.waits q u
    by_cases hu : u = index
    · subst hu
      rw [Function.update_self, Worker.pending_blocked]
      rw [Worker.pending_of_free hfree] at hwaits
      by_cases hq : q = p
      · subst hq
        rw [Function.update_self, Function.update_self, hwaits, if_pos ⟨rfl, rfl⟩]
      · rw [Function.update_of_ne hq, hwaits, if_neg fun h => hq h.1.symm]
    · rw [Function.update_of_ne hu, ← hwaits]
      by_cases hq : q = p
      · subst hq
        rw [Function.update_self, Function.update_of_ne hu]
      · rw [Function.update_of_ne hq]
  · have hstage : (Worker.blocked p wait run.ringBarrier.generation).stage = (Worker.arrive p wait).stage := rfl
    exact (hsynced.counted hphase).arrive hworker hstage rfl rfl rfl rfl
  · have hmain := hrunning.main
    cases p with
    | warmup => exact hmain
    | measurement => exact Joins.of_worker hmain rfl rfl (by rw [hworker]; simp) index.isLt
  · unfold RunContext.OnBeat
    dsimp only
    by_cases hu : u = index
    · subst hu
      rw [Function.update_self, Worker.position_blocked, if_pos rfl]
      exact hrunning.arriving hworker
    · rw [Function.update_of_ne hu]
      exact hrunning.workers u

/-- The last worker to arrive completes the wait for all. -/
theorem Running.completeWait (hsynced : Synced run cycles) (hrunning : Running run cycles p) {wait : RingWait}
    (hworker : run.worker index = .arrive p wait) (hlast : run.ringBarrier.arrived + 1 = threads) :
    Coherent (run.barrierWait index p wait) (Function.update cycles p (cycles p + 1)) := by
  have hrun : run.barrierWait index p wait = { run with
      ringBarrier := ⟨0, run.ringBarrier.generation + 1⟩
      waits := Function.update run.waits p (Function.update (run.waits p) index (run.waits p index + 1))
      worker := Function.update run.worker index (RunContext.afterWait p wait) } := by
    simp only [RunContext.barrierWait, Barrier.arrive, if_pos hlast]
    rfl
  have hfree : (run.worker index).blockedAt ≠ some run.ringBarrier.generation := by
    rw [hworker]
    simp [Worker.blockedAt]
  have hblocked : ∀ u, u ≠ index → (run.worker u).blockedAt = some run.ringBarrier.generation := fun u hu =>
    hsynced.balanced.release hfree (by rwa [Fintype.card_fin]) u hu
  have hafter : (RunContext.afterWait p wait).blockedAt = none := by cases wait <;> rfl
  rw [hrun]
  refine ⟨⟨?_, fun q u => ?_, fun hphase => ?_⟩, .running p ⟨?_, hrunning.phase, fun hp => ?_, fun u => ?_⟩⟩
  · dsimp only
    apply Barrier.balanced_next
    intro u
    by_cases hu : u = index
    · subst hu
      rw [Function.update_self, hafter]
      simp
    · rw [Function.update_of_ne hu, hblocked u hu]
      simp
  · dsimp only
    have hwaits := hsynced.waits q u
    by_cases hu : u = index
    · subst hu
      rw [Function.update_self, Worker.pending_of_free (by rw [hafter]; simp)]
      rw [Worker.pending_of_free hfree] at hwaits
      by_cases hq : q = p
      · subst hq
        rw [Function.update_self, Function.update_self, Function.update_self, hwaits]
      · rw [Function.update_of_ne hq, Function.update_of_ne hq, hwaits]
    · obtain ⟨wait', hwait'⟩ := Worker.eq_blocked (hrunning.workers u) (hblocked u hu)
      rw [Function.update_of_ne hu, hwait', Worker.pending_blocked, if_neg (by omega)]
      rw [hwait', Worker.pending_blocked] at hwaits
      by_cases hq : q = p
      · subst hq
        rw [Function.update_self, Function.update_self, Function.update_of_ne hu, hwaits, if_pos ⟨rfl, rfl⟩]
      · rw [Function.update_of_ne hq, Function.update_of_ne hq, hwaits, if_neg fun h => hq h.1.symm]
  · have hstage : (RunContext.afterWait p wait).stage = (Worker.arrive p wait).stage := by cases wait <;> rfl
    exact (hsynced.counted hphase).arrive hworker hstage rfl rfl rfl rfl
  · have hmain := hrunning.main
    cases p with
    | warmup => exact hmain
    | measurement => exact Joins.of_worker hmain rfl rfl (by rw [hworker]; simp) index.isLt
  · subst hp
    rw [Function.update_of_ne (by simp)]
    exact hrunning.fresh rfl
  · unfold RunContext.OnBeat
    dsimp only
    rw [Function.update_self]
    by_cases hu : u = index
    · subst hu
      rw [Function.update_self, Worker.position_of_free hafter]
      exact (hrunning.arriving hworker).released
    · rw [Function.update_of_ne hu]
      exact Worker.AtBeat.next (hrunning.workers u) (hblocked u hu)

/-- **A wait.** Whoever arrives either joins those that wait, or completes the wait for all. -/
theorem Running.barrierWait (hsynced : Synced run cycles) (hrunning : Running run cycles p) {wait : RingWait}
    (hworker : run.worker index = .arrive p wait) :
    ∃ cycles', Coherent (run.barrierWait index p wait) cycles' := by
  by_cases hlast : run.ringBarrier.arrived + 1 = threads
  · exact ⟨_, hrunning.completeWait hsynced hworker hlast⟩
  · exact ⟨_, hrunning.joinWaiting hsynced hworker hlast⟩

/-- **A running phase.** Whatever a worker does, the phase is still running afterwards. -/
theorem Running.stepWorker (hsynced : Synced run cycles) (hrunning : Running run cycles p)
    (htimely : outcome = false → run.worker index = .allocate p → ∀ v, ¬ (run.worker v).Untested p)
    (hstep : run.stepWorker index outcome = some run') : ∃ cycles', Coherent run' cycles' := by
  rcases hrunning.step_cases htimely hstep with ⟨wait, hworker, rfl⟩ | ⟨w, w', hturn⟩
  · exact hrunning.barrierWait hsynced hworker
  · exact ⟨cycles, hrunning.turn hsynced hturn⟩

end Running

/-! ### The step of a worker -/

/-- **A worker acts.** The invariant is kept, unless an allocation fails before all workers have tested
`failed`. -/
theorem Coherent.stepWorker (hcoherent : Coherent run cycles)
    (htimely : outcome = false → ∀ q, run.worker index = .allocate q → ∀ v, ¬ (run.worker v).Untested q)
    (hstep : run.stepWorker index outcome = some run') : ∃ cycles', Coherent run' cycles' := by
  obtain ⟨hsynced, hstage⟩ := hcoherent
  cases hstage with
  | creating created main phase failed fresh workers =>
      by_cases hcreated : index.val < created
      · obtain ⟨hworker, rfl⟩ := ((workers index).1 hcreated).step phase hstep
        have hmoves : Moves run ({ run with ready := run.ready + 1 }.goto index (.awaitPrepare .warmup)) index
          (.awaitPrepare .warmup) := ⟨rfl, rfl, rfl, rfl, rfl⟩
        exact ⟨cycles, hsynced.signalReady hworker, .creating created main phase failed fresh
          (hmoves.forall_worker (Q := fun u w => (u.val < created → w.Opening) ∧ (created ≤ u.val → w = .absent))
            workers ⟨fun _ => Or.inr rfl, fun h => absurd hcreated (by omega)⟩)⟩
      · exact absurd hstep (not_step_absent ((workers index).2 (by omega)))
  | opening main phase failed fresh workers =>
      obtain ⟨hworker, rfl⟩ := (workers index).step phase hstep
      have hmoves : Moves run ({ run with ready := run.ready + 1 }.goto index (.awaitPrepare .warmup)) index
        (.awaitPrepare .warmup) := ⟨rfl, rfl, rfl, rfl, rfl⟩
      exact ⟨cycles, hsynced.signalReady hworker, .opening main phase failed fresh
        (hmoves.forall_worker (Q := fun _ w => w.Opening) workers (Or.inr rfl))⟩
  | assembled p main phase failed fresh workers =>
      exact absurd hstep (not_step_awaitPrepare (workers index) phase.1 phase.2)
  | preparing p main phase failed fresh workers =>
      rcases (workers index).step phase hstep with ⟨hworker, rfl⟩ | ⟨hworker, rfl⟩
      · have hmoves := moves_goto run index (.signalPrepared p)
        refine ⟨cycles, hsynced.moves hmoves (by rw [hworker]; simp [Worker.blockedAt]) rfl
          fun _ hcounted => ?_, .preparing p main phase failed fresh
          (hmoves.forall_worker (Q := fun _ w => w.Preparing p) workers (Or.inr (Or.inl rfl)))⟩
        exact hcounted.move rfl rfl rfl rfl (by rw [hworker]; cases p <;> decide)
      · have hmoves : Moves run ({ run with
            prepared := Function.update run.prepared p (run.prepared p + 1) }.goto index (.awaitPhase p)) index
          (.awaitPhase p) := ⟨rfl, rfl, rfl, rfl, rfl⟩
        exact ⟨cycles, hsynced.moves hmoves (by rw [hworker]; simp [Worker.blockedAt]) rfl
          fun _ hcounted => hcounted.signalPrepared hworker, .preparing p main phase failed fresh
          (hmoves.forall_worker (Q := fun _ w => w.Preparing p) workers (Or.inr (Or.inr rfl)))⟩
  | prepared p main phase failed fresh workers =>
      exact absurd hstep (not_step_awaitPhase (workers index) (by simp [phase]) (by simp [phase]))
  | running p running => exact running.stepWorker hsynced (fun hfails => htimely hfails p) hstep
  | warm main phase fresh workers =>
      exact absurd hstep (not_step_awaitPrepare (workers index) (by simp [phase]) (by simp [phase]))
  | stopping created main workers =>
      by_cases hcreated : index.val < created
      · have hparked := (workers index).1 hcreated
        have hkeep : ∀ {w' : Worker} {run' : RunContext threads}, Moves run run' index w' →
            run.worker index ≠ .exited → w'.Parked run.phase → Synced run' cycles → Coherent run' cycles := by
          intro w' run' hmoves hbusy hpark hsynced'
          refine ⟨hsynced', .stopping created ?_ ?_⟩
          · rw [hmoves.main, hmoves.phase]
            exact main.imp_right (And.imp_right fun hjoins =>
              hjoins.of_worker hmoves.main hmoves.worker hbusy hcreated)
          · rw [hmoves.phase]
            exact hmoves.forall_worker
              (Q := fun u w => (u.val < created → w.Parked run.phase) ∧ (created ≤ u.val → w = .absent)) workers
              ⟨fun _ => hpark, fun h => absurd hcreated (by omega)⟩
        rcases hparked.step hstep with ⟨hworker, rfl⟩ | ⟨hphase, rfl, hworker⟩ | ⟨hworker, rfl⟩
        · rw [hworker] at hparked
          exact ⟨cycles, hkeep ⟨rfl, rfl, rfl, rfl, rfl⟩ (by rw [hworker]; simp) hparked
            (hsynced.signalReady hworker)⟩
        · refine ⟨cycles, hkeep (moves_goto _ _ _) ?_ trivial
            (hsynced.moves (moves_goto _ _ _) ?_ rfl fun hnot => absurd hphase hnot)⟩
          · rcases hworker with ⟨p, hworker⟩ | ⟨p, hworker⟩ <;> rw [hworker] <;> simp
          · rcases hworker with ⟨p, hworker⟩ | ⟨p, hworker⟩ <;> rw [hworker] <;> simp [Worker.blockedAt]
        · refine ⟨cycles, hkeep (moves_goto _ _ _) (by rw [hworker]; simp) trivial
            (hsynced.moves (moves_goto _ _ _) (by rw [hworker]; simp [Worker.blockedAt]) rfl
              fun _ hcounted => ?_)⟩
          exact hcounted.move rfl rfl rfl rfl (by rw [hworker]; decide)
      · exact absurd hstep (not_step_absent ((workers index).2 (by omega)))

/-! ### The step of the main thread -/

/-- The main thread moves on; the workers, the barrier and the counters stay. -/
theorem Synced.of_main (hsynced : Synced run cycles) (hworker : run'.worker = run.worker)
    (hbarrier : run'.ringBarrier = run.ringBarrier) (hwaits : run'.waits = run.waits)
    (hready : run'.ready = run.ready) (hprepared : run'.prepared = run.prepared)
    (hdone : run'.warmupDone = run.warmupDone) (hphase : run'.phase ≠ .stop → run.phase ≠ .stop) :
    Synced run' cycles where
  balanced := by
    rw [hbarrier, hworker]
    exact hsynced.balanced
  waits p u := by
    rw [hwaits, hbarrier, hworker]
    exact hsynced.waits p u
  counted hnot := by
    have hcounted := hsynced.counted (hphase hnot)
    refine ⟨?_, fun p => ?_, ?_⟩
    · rw [hready, hworker]
      exact hcounted.ready
    · rw [hprepared, hworker]
      exact hcounted.prepared p
    · rw [hdone, hworker]
      exact hcounted.warmupDone

/-- Nothing but the place of the main thread changes. -/
theorem Synced.withMain (hsynced : Synced run cycles) (main : Main) :
    Synced { run with main := main } cycles :=
  hsynced.of_main rfl rfl rfl rfl rfl rfl id

/-- The main thread turns to stopping when all workers have been created. -/
theorem Synced.stopAll (hsynced : Synced run cycles) (hmain : run.main = .stop threads)
    (hparked : ∀ u, (run.worker u).Parked run.phase) : Coherent run cycles := by
  refine ⟨hsynced, .stopping threads (Or.inl hmain) fun u => ⟨fun _ => hparked u, fun hu => ?_⟩⟩
  exact absurd u.isLt (Nat.not_lt.mpr hu)

/-- Joining the workers, one after the other, and the judgement at the end. -/
theorem Joins.step {success : Bool} {created : Nat} (hjoins : Joins run success created)
    (hstep : run.stepMain outcome = some run') :
    ∃ main, run' = { run with main := main } ∧ Joins run' success created := by
  unfold Joins at hjoins
  unfold RunContext.stepMain at hstep
  cases hmain : run.main with
  | join s c joined =>
      rw [hmain] at hjoins hstep
      obtain ⟨hs, rfl, hexited⟩ := hjoins
      dsimp only at hstep
      split at hstep
      · rename_i hjoined
        split at hstep
        · rename_i hworker
          obtain rfl := Option.some.inj hstep
          refine ⟨_, rfl, fun h => hs (Bool.and_eq_true_iff.mp h).1, rfl, fun u hu => ?_⟩
          by_cases heq : u.val = joined
          · subst heq
            exact hworker
          · exact hexited u (by omega)
        · simp at hstep
      · rename_i hjoined
        obtain rfl := Option.some.inj hstep
        refine ⟨_, rfl, hs, fun u hu => hexited u ?_⟩
        have hlt := u.isLt
        omega
  | judge s =>
      rw [hmain] at hjoins hstep
      obtain rfl := Option.some.inj hstep
      refine ⟨_, rfl, fun h => ?_, hjoins.2⟩
      rw [Bool.and_eq_true, Bool.not_eq_true'] at h
      exact ⟨hjoins.1 h.1, h.2⟩
  | returned s =>
      rw [hmain] at hstep
      simp at hstep
  | _ =>
      rw [hmain] at hjoins
      exact hjoins.elim

theorem Worker.Parked.stop (hparked : w.Parked run.phase) : w.Parked .stop := by
  cases w with
  | signalReady => exact RunPhase.noConfusion
  | awaitPrepare p => exact RunPhase.noConfusion
  | awaitPhase p => exact RunPhase.noConfusion
  | _ => exact hparked

/-- A counter that has reached the number of workers says that all of them are past its signal. -/
theorem all_past {n : Nat} (hcount : headcount (Worker.Past n) run.worker = threads) (u : Fin threads) :
    n ≤ (run.worker u).stage :=
  headcount_eq_card_iff.mp (hcount.trans (Fintype.card_fin threads).symm) u

/-- **The main thread acts.** -/
theorem Coherent.stepMain (hcoherent : Coherent run cycles) (hstep : run.stepMain outcome = some run') :
    ∃ cycles', Coherent run' cycles' := by
  obtain ⟨hsynced, hstage⟩ := hcoherent
  cases hstage with
  | creating created main phase failed fresh workers =>
      unfold RunContext.stepMain at hstep
      rw [main] at hstep
      dsimp only at hstep
      split at hstep
      · rename_i hcreated
        cases outcome with
        | true =>
            obtain rfl := Option.some.inj hstep
            have habsent := (workers ⟨created, hcreated⟩).2 (Nat.le_refl _)
            refine ⟨cycles, hsynced.move rfl rfl rfl (by rw [habsent]; simp [Worker.blockedAt]) rfl fun hphase => ?_,
              .creating (created + 1) rfl phase failed fresh fun u => ?_⟩
            · exact (hsynced.counted hphase).move rfl rfl rfl rfl (by rw [habsent]; decide)
            · change (_ → (Function.update run.worker ⟨created, hcreated⟩ .signalReady u).Opening) ∧
                (_ → Function.update run.worker ⟨created, hcreated⟩ .signalReady u = .absent)
              by_cases hu : u = ⟨created, hcreated⟩
              · subst hu
                rw [Function.update_self]
                exact ⟨fun _ => Or.inl rfl, fun h => absurd h (by simp)⟩
              · have hne : u.val ≠ created := fun h => hu (Fin.ext h)
                rw [Function.update_of_ne hu]
                exact ⟨fun h => (workers u).1 (by omega), fun h => (workers u).2 (by omega)⟩
        | false =>
            obtain rfl := Option.some.inj hstep
            refine ⟨cycles, hsynced.withMain _, .stopping created (Or.inl rfl) fun u => ?_⟩
            refine ⟨fun hu => ?_, (workers u).2⟩
            dsimp only
            rw [phase]
            rcases (workers u).1 hu with hworker | hworker <;> rw [hworker] <;> exact RunPhase.noConfusion
      · obtain rfl := Option.some.inj hstep
        refine ⟨cycles, hsynced.withMain _, .opening rfl phase failed fresh fun u => ?_⟩
        have hlt := u.isLt
        exact (workers u).1 (by omega)
  | opening main phase failed fresh workers =>
      unfold RunContext.stepMain at hstep
      rw [main] at hstep
      dsimp only at hstep
      split at hstep
      · rename_i hready
        obtain rfl := Option.some.inj hstep
        have hcounted := hsynced.counted (by rw [phase]; simp)
        refine ⟨cycles, hsynced.withMain _,
          .assembled .warmup rfl ⟨?_, ?_⟩ failed fresh fun u => ?_⟩
        · simp [phase]
        · simp [phase]
        · have hpast := all_past (hcounted.ready.symm.trans hready) u
          rcases workers u with hworker | hworker
          · rw [hworker] at hpast
            simp [Worker.stage] at hpast
          · exact hworker
      · simp at hstep
  | assembled p main phase failed fresh workers =>
      unfold RunContext.stepMain at hstep
      rw [main] at hstep
      obtain rfl := Option.some.inj hstep
      exact ⟨cycles, hsynced.of_main rfl rfl rfl rfl rfl rfl fun _ => phase.1,
        .preparing p rfl rfl failed fresh fun u => Or.inl (workers u)⟩
  | preparing p main phase failed fresh workers =>
      unfold RunContext.stepMain at hstep
      rw [main] at hstep
      dsimp only at hstep
      split at hstep
      · rename_i hprepared
        obtain rfl := Option.some.inj hstep
        have hcounted := hsynced.counted (by rw [phase]; simp)
        refine ⟨cycles, hsynced.withMain _,
          .prepared p (Or.inl rfl) phase failed fresh fun u => ?_⟩
        have hpast := all_past ((hcounted.prepared p).symm.trans hprepared) u
        rcases workers u with hworker | hworker | hworker
        · rw [hworker] at hpast
          simp [Worker.stage] at hpast
        · rw [hworker] at hpast
          simp [Worker.stage] at hpast
        · exact hworker
      · simp at hstep
  | prepared p main phase failed fresh workers =>
      unfold RunContext.stepMain at hstep
      rcases main with main | ⟨hstop, main | main⟩
      · rw [main] at hstep
        obtain rfl := Option.some.inj hstep
        exact ⟨cycles, hsynced.of_main rfl rfl rfl rfl rfl rfl id,
          .prepared p (Or.inr ⟨rfl, Or.inl rfl⟩) phase failed fresh workers⟩
      · rw [main] at hstep
        obtain rfl := Option.some.inj hstep
        cases outcome with
        | false =>
            refine ⟨cycles, (hsynced.withMain _).stopAll (by simp) fun u => ?_⟩
            dsimp only
            rw [phase, workers u]
            exact RunPhase.noConfusion
        | true =>
            refine ⟨cycles, hsynced.withMain _,
              .prepared p (Or.inr ⟨hstop, Or.inr ?_⟩) phase failed fresh workers⟩
            simp [failed]
      · rw [main] at hstep
        have hbeat : ∀ u, run.OnBeat p 0 u := by
          intro u
          unfold RunContext.OnBeat
          rw [workers u]
          exact ⟨rfl, rfl, failed, hstop⟩
        cases p with
        | warmup =>
            obtain rfl := Option.some.inj hstep
            refine ⟨cycles, hsynced.of_main rfl rfl rfl rfl rfl rfl fun _ => by rw [phase]; simp,
              .running .warmup ⟨rfl, rfl, fun _ => fresh.measurement, ?_⟩⟩
            rw [fresh.warmup rfl]
            exact hbeat
        | measurement =>
            obtain rfl := Option.some.inj hstep
            refine ⟨cycles, hsynced.of_main rfl rfl rfl rfl rfl rfl fun _ => by rw [phase]; simp,
              .running .measurement ⟨⟨id, rfl, fun u hu => absurd hu (by omega)⟩, rfl, by simp, ?_⟩⟩
            rw [fresh.measurement]
            exact hbeat
  | running p running =>
      cases p with
      | warmup =>
          unfold RunContext.stepMain at hstep
          rw [running.main] at hstep
          dsimp only at hstep
          split at hstep
          · rename_i hdone
            obtain rfl := Option.some.inj hstep
            have hcounted := hsynced.counted (by rw [running.phase]; simp)
            refine ⟨cycles, hsynced.withMain _,
              .warm rfl running.phase (running.fresh rfl) fun u => ?_⟩
            have hpast := all_past (hcounted.warmupDone.symm.trans hdone) u
            exact (running.workers u).eq_awaitPrepare hpast
          · simp at hstep
      | measurement =>
          obtain ⟨main, rfl, hjoins⟩ := Joins.step running.main hstep
          exact ⟨cycles, hsynced.withMain _,
            .running .measurement ⟨hjoins, running.phase, running.fresh, running.workers⟩⟩
  | warm main phase fresh workers =>
      unfold RunContext.stepMain at hstep
      rw [main] at hstep
      obtain rfl := Option.some.inj hstep
      by_cases hfailed : run.failed = true
      · refine ⟨cycles, (hsynced.withMain _).stopAll (if_pos hfailed) fun u => ?_⟩
        dsimp only
        rw [phase, workers u]
        exact RunPhase.noConfusion
      · refine ⟨cycles, hsynced.withMain _, .assembled .measurement (if_neg hfailed) ⟨?_, ?_⟩
          (Bool.eq_false_iff.mpr hfailed) ⟨fresh, by simp⟩ workers⟩
        · simp [phase]
        · simp [phase]
  | stopping created main workers =>
      rcases main with main | ⟨hphase, hjoins⟩
      · unfold RunContext.stepMain at hstep
        rw [main] at hstep
        obtain rfl := Option.some.inj hstep
        refine ⟨cycles, hsynced.of_main rfl rfl rfl rfl rfl rfl fun h => absurd rfl h,
          .stopping created (Or.inr ⟨rfl, by simp, rfl, fun u hu => absurd hu (by omega)⟩) fun u => ?_⟩
        exact ⟨fun hu => ((workers u).1 hu).stop, (workers u).2⟩
      · obtain ⟨main, rfl, hjoins'⟩ := hjoins.step hstep
        exact ⟨cycles, hsynced.withMain _,
          .stopping created (Or.inr ⟨hphase, hjoins'⟩) workers⟩

end Hplf.Ring
