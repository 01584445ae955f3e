import HplfMalloc.Proof.RingSteps

/-!
# Agreement at the ring barrier

Whether the workers of the ring benchmark agree on the waits of a phase. They do as long as no allocation fails
before all workers have tested `failed` at the start of the phase; a failure before that makes some workers skip
the phase while others wait for them.
-/

namespace Hplf.Ring

open Lib

variable {threads : Nat} {run run' : RunContext threads} {cycles : Timed → Nat} {index : Fin threads}
variable {outcome : Bool} {w : Worker}

/-- No worker waits at the barrier in a phase that another one has left or skipped, and workers that have left a
phase have waited equally often in it. -/
structure Agreement (run : RunContext threads) : Prop where
  waiting : ∀ u v p, (run.worker u).WaitsIn p run.ringBarrier.generation → ¬ (run.worker v).HasLeft p
  waits : ∀ u v p, (run.worker u).HasLeft p → (run.worker v).HasLeft p → run.waits p u = run.waits p v

/-- The benchmark has returned, and no worker is left behind. -/
def Finished (run : RunContext threads) : Prop :=
  ∃ success, run.main = .returned success ∧ ∀ u, run.worker u = .exited ∨ run.worker u = .absent

/-- The event makes an allocation of a phase fail. -/
def FailsAllocation (run : RunContext threads) (event : Event threads) (p : Timed) : Prop :=
  ∃ u, event = .worker u false ∧ run.worker u = .allocate p

/-- An allocation fails only after all workers have tested `failed` in its phase. -/
def Timely (run : RunContext threads) (event : Event threads) : Prop :=
  ∀ p, FailsAllocation run event p → ∀ v, ¬ (run.worker v).Untested p

/-- The runs of the benchmark whose failures are timely. -/
def timelyBenchmark (threads : Nat) : System (RunContext threads) (Event threads) where
  init run := run = .initial threads
  step run e run' := ∃ event, e = some event ∧ run.perform event = some run' ∧ Timely run event

/-! ### The invariant holds -/

theorem coherent_initial (threads : Nat) : Coherent (RunContext.initial threads) fun _ => 0 where
  synced := by
    refine ⟨⟨?_, fun hpos => hpos⟩, fun _ _ => rfl, fun _ => ⟨?_, fun p => ?_, ?_⟩⟩
    · exact (headcount_eq_zero fun u => by simp [RunContext.initial, Worker.blockedAt]).symm
    · exact (headcount_eq_zero fun u => by simp [RunContext.initial, Worker.Past, Worker.stage]).symm
    · exact (headcount_eq_zero fun u => by simp [RunContext.initial, Worker.Past, Worker.stage]).symm
    · exact (headcount_eq_zero fun u => by simp [RunContext.initial, Worker.Past, Worker.stage]).symm
  stage := .creating 0 rfl rfl rfl ⟨rfl, fun _ => rfl⟩ fun _ => ⟨fun h => absurd h (by omega), fun _ => rfl⟩

theorem Coherent.perform (hcoherent : Coherent run cycles) {event : Event threads}
    (hperform : run.perform event = some run') (htimely : Timely run event) :
    ∃ cycles', Coherent run' cycles' := by
  cases event with
  | worker index outcome =>
      refine hcoherent.stepWorker (fun hfails p hworker => ?_) hperform
      exact htimely p ⟨index, by rw [hfails], hworker⟩
  | main outcome => exact hcoherent.stepMain hperform

theorem coherent_of_reachable (hreach : (timelyBenchmark threads).Reachable run) :
    ∃ cycles, Coherent run cycles := by
  refine hreach.invariant (I := fun run => ∃ cycles, Coherent run cycles) ?_ ?_
  · rintro run rfl
    exact ⟨_, coherent_initial threads⟩
  · rintro run e run' ⟨cycles, hcoherent⟩ ⟨event, rfl, hperform, htimely⟩
    exact hcoherent.perform hperform htimely

/-! ### Agreement -/

/-- A worker that has left a phase does not wait in it. -/
theorem Worker.HasLeft.pending {p : Timed} (hleft : w.HasLeft p) (generation : Nat) :
    w.pending p generation = 0 := by
  cases w with
  | blocked q wait g =>
      rw [Worker.pending_blocked, if_neg]
      rintro ⟨rfl, -⟩
      simp [Worker.HasLeft, Worker.stage] at hleft
  | _ => rfl

/-- Only in a running phase is a worker in the rounds. -/
theorem Stage.running_of_round {p : Timed} (hstage : Stage run cycles) {u : Fin threads}
    (hround : (run.worker u).stage = p.offset + 6) : ∃ q, Running run cycles q := by
  have hnot : ∀ {w : Worker}, run.worker u = w → w.stage ≠ p.offset + 6 → ∃ q, Running run cycles q :=
    fun hworker hother => absurd hround (by rwa [hworker])
  cases hstage with
  | creating created main phase failed fresh workers =>
      by_cases hu : u.val < created
      · rcases (workers u).1 hu with hworker | hworker
        · exact hnot hworker (by cases p <;> decide)
        · exact hnot hworker (by cases p <;> decide)
      · exact hnot ((workers u).2 (by omega)) (by cases p <;> decide)
  | opening main phase failed fresh workers =>
      rcases workers u with hworker | hworker
      · exact hnot hworker (by cases p <;> decide)
      · exact hnot hworker (by cases p <;> decide)
  | preparing q main phase failed fresh workers =>
      rcases workers u with hworker | hworker | hworker
      · exact hnot hworker (by cases p <;> cases q <;> decide)
      · exact hnot hworker (by cases p <;> cases q <;> decide)
      · exact hnot hworker (by cases p <;> cases q <;> decide)
  | running q running => exact ⟨q, running⟩
  | stopping created main workers =>
      by_cases hu : u.val < created
      · have hparked := (workers u).1 hu
        cases hworker : run.worker u with
        | awaitPrepare q | awaitPhase q => exact hnot hworker (by cases p <;> cases q <;> decide)
        | signalReady | flush | exited => exact hnot hworker (by cases p <;> decide)
        | _ =>
            rw [hworker] at hparked
            exact hparked.elim
      · exact hnot ((workers u).2 (by omega)) (by cases p <;> decide)
  | assembled q main phase failed fresh workers | prepared q main phase failed fresh workers =>
      exact hnot (workers u) (by cases p <;> cases q <;> decide)
  | warm main phase fresh workers => exact hnot (workers u) (by cases p <;> decide)

/-- Whoever has left a running phase has seen `ring_stop` after a third wait. -/
theorem Worker.HasLeft.stopped {p : Timed} {generation beats : Nat} {failed stop : Bool} {lead : Prop}
    (hleft : w.HasLeft p) (hbeat : (w.position generation).AtBeat p beats failed stop lead) :
    beats % 3 = 0 ∧ stop = true := by
  cases w with
  | blocked q wait g =>
      obtain rfl := hbeat.blocked_phase
      simp [Worker.HasLeft, Worker.stage] at hleft
  | arrive q wait =>
      obtain rfl := Worker.AtBeat.arrive_phase hbeat
      simp [Worker.HasLeft, Worker.stage] at hleft
  | absent | signalReady | signalPrepared q => exact hbeat.elim
  | finish q | reportFailure q | cleanup q => exact ⟨hbeat.2.1, hbeat.2.2.2⟩
  | awaitPrepare q => exact ⟨hbeat.2.2.1, hbeat.2.2.2.2⟩
  | flush | exited => exact ⟨hbeat.2.1, hbeat.2.2.2⟩
  | _ =>
      obtain ⟨rfl, -⟩ := hbeat
      simp [Worker.HasLeft, Worker.stage] at hleft

/-- Whoever waits in the current generation does so before `ring_stop` can have been seen. -/
theorem Worker.WaitsIn.early {p q : Timed} {generation beats : Nat} {failed stop : Bool} {lead : Prop}
    (hwaits : w.WaitsIn p generation) (hbeat : (w.position generation).AtBeat q beats failed stop lead) :
    p = q ∧ ¬ (beats % 3 = 0 ∧ stop = true) := by
  obtain ⟨wait, rfl⟩ := hwaits.eq
  rw [Worker.position_blocked, if_pos rfl] at hbeat
  cases wait with
  | entries => exact ⟨hbeat.1, fun h => by rw [hbeat.2.2] at h; simp at h⟩
  | reads =>
      have hsecond := hbeat.2.1
      exact ⟨hbeat.1, fun h => by omega⟩
  | choice =>
      have hthird := hbeat.2
      exact ⟨hbeat.1, fun h => by omega⟩

theorem Coherent.agreement (hcoherent : Coherent run cycles) : Agreement run where
  waiting u v p hwaits hleft := by
    obtain ⟨wait, hworker⟩ := hwaits.eq
    obtain ⟨q, hrunning⟩ := hcoherent.stage.running_of_round (p := p) (u := u) (by rw [hworker]; rfl)
    obtain ⟨rfl, hearly⟩ := hwaits.early (hrunning.workers u)
    exact hearly (hleft.stopped (hrunning.workers v))
  waits u v p hu hv := by
    rw [hcoherent.synced.waits p u, hcoherent.synced.waits p v, hu.pending, hv.pending]

/-! ### Progress -/

/-- What a worker needs to act. -/
def Worker.CanAct (phase : RunPhase) (generation : Nat) : Worker → Prop
  | .absent | .exited => False
  | .awaitPrepare p => phase = .stop ∨ phase = .prepare p
  | .awaitPhase p => phase = .stop ∨ phase = .timed p
  | .blocked _ _ g => generation ≠ g
  | _ => True

theorem waitForPhase_isSome {awaited : RunPhase} {opened stopped : Worker}
    (hphase : run.phase = .stop ∨ run.phase = awaited) :
    (run.waitForPhase index awaited opened stopped).isSome = true := by
  unfold RunContext.waitForPhase
  by_cases hstop : run.phase = .stop
  · rw [if_pos hstop]
    rfl
  · rw [if_neg hstop, if_pos (hphase.resolve_left hstop)]
    rfl

theorem Worker.CanAct.step (hact : (run.worker index).CanAct run.phase run.ringBarrier.generation)
    (outcome : Bool) : (run.stepWorker index outcome).isSome = true := by
  unfold RunContext.stepWorker
  cases hworker : run.worker index with
  | absent | exited =>
      rw [hworker] at hact
      exact hact.elim
  | awaitPrepare p | awaitPhase p =>
      rw [hworker] at hact
      exact waitForPhase_isSome hact
  | blocked p wait g =>
      rw [hworker] at hact
      dsimp only
      rw [if_neg hact]
      rfl
  | cleanup p => cases p <;> rfl
  | _ => rfl

/-- Some thread can act without an untimely failure. -/
def CanStep (run : RunContext threads) : Prop :=
  ∃ event run', run.perform event = some run' ∧ Timely run event

theorem CanStep.of_worker (index : Fin threads)
    (hact : (run.worker index).CanAct run.phase run.ringBarrier.generation) : CanStep run := by
  obtain ⟨run', hstep⟩ := Option.isSome_iff_exists.mp (hact.step true)
  refine ⟨.worker index true, run', hstep, ?_⟩
  rintro p ⟨u, hevent, -⟩
  simp at hevent

theorem CanStep.of_main (hmain : (run.stepMain true).isSome = true) : CanStep run := by
  obtain ⟨run', hstep⟩ := Option.isSome_iff_exists.mp hmain
  refine ⟨.main true, run', hstep, ?_⟩
  rintro p ⟨u, hevent, -⟩
  simp at hevent

/-- When all created workers have exited, the main thread joins the next one, judges, or has returned. -/
theorem Joins.progress {success : Bool} {created : Nat} (hjoins : Joins run success created)
    (hexited : ∀ u : Fin threads, u.val < created → run.worker u = .exited) :
    (run.stepMain true).isSome = true ∨ ∃ s, run.main = .returned s := by
  unfold Joins at hjoins
  unfold RunContext.stepMain
  cases hmain : run.main with
  | join s c joined =>
      rw [hmain] at hjoins
      obtain ⟨-, rfl, -⟩ := hjoins
      apply Or.inl
      dsimp only
      split
      · rename_i hjoined
        rw [if_pos (hexited _ hjoined.2)]
        rfl
      · rfl
  | judge s => exact Or.inl rfl
  | returned s => exact Or.inr ⟨s, rfl⟩
  | _ =>
      rw [hmain] at hjoins
      exact hjoins.elim

/-- In a running phase a worker that cannot act waits, or it has left the phase for good. -/
theorem Running.idle {p : Timed} (hrunning : Running run cycles p)
    (hidle : ¬ (run.worker index).CanAct run.phase run.ringBarrier.generation) :
    (run.worker index).WaitsIn p run.ringBarrier.generation ∨
      (p = .warmup ∧ run.worker index = .awaitPrepare .measurement) ∨
        p = .measurement ∧ run.worker index = .exited := by
  have hbeat := hrunning.workers index
  unfold RunContext.OnBeat at hbeat
  cases hworker : run.worker index with
  | blocked q wait g =>
      rw [hworker] at hidle hbeat
      obtain rfl : run.ringBarrier.generation = g := not_not.mp hidle
      obtain ⟨wait', hblocked⟩ := Worker.eq_blocked hbeat rfl
      rw [hblocked]
      exact Or.inl ⟨rfl, rfl⟩
  | awaitPrepare q =>
      rw [hworker] at hbeat
      obtain ⟨rfl, hp, -⟩ := hbeat
      exact Or.inr (Or.inl ⟨hp, rfl⟩)
  | awaitPhase q =>
      rw [hworker] at hidle hbeat
      obtain ⟨rfl, -⟩ := hbeat
      exact absurd (Or.inr hrunning.phase) hidle
  | exited =>
      rw [hworker] at hbeat
      exact Or.inr (Or.inr ⟨hbeat.1, rfl⟩)
  | absent | signalReady | signalPrepared q =>
      rw [hworker] at hbeat
      exact hbeat.elim
  | _ =>
      rw [hworker] at hidle
      exact absurd trivial hidle

/-- **Progress.** As long as the benchmark has not finished, some thread can act. -/
theorem Coherent.progress (hcoherent : Coherent run cycles) : Finished run ∨ CanStep run := by
  obtain ⟨hsynced, hstage⟩ := id hcoherent
  cases hstage with
  | creating created main phase failed fresh workers =>
      refine Or.inr (.of_main ?_)
      unfold RunContext.stepMain
      rw [main]
      dsimp only
      split <;> rfl
  | opening main phase failed fresh workers =>
      apply Or.inr
      by_cases hall : ∀ u, run.worker u = .awaitPrepare .warmup
      · have hcounted := hsynced.counted (by rw [phase]; simp)
        refine .of_main ?_
        unfold RunContext.stepMain
        rw [main]
        dsimp only
        rw [if_pos]
        · rfl
        · rw [hcounted.ready, headcount_eq_card_iff.mpr, Fintype.card_fin]
          intro u
          rw [hall u]
          decide
      · obtain ⟨u, hu⟩ := not_forall.mp hall
        refine .of_worker u ?_
        rw [(workers u).resolve_right hu]
        trivial
  | assembled p main phase failed fresh workers =>
      refine Or.inr (.of_main ?_)
      unfold RunContext.stepMain
      rw [main]
      rfl
  | preparing p main phase failed fresh workers =>
      apply Or.inr
      by_cases hall : ∀ u, run.worker u = .awaitPhase p
      · have hcounted := hsynced.counted (by rw [phase]; simp)
        refine .of_main ?_
        unfold RunContext.stepMain
        rw [main]
        dsimp only
        rw [if_pos]
        · rfl
        · rw [hcounted.prepared, headcount_eq_card_iff.mpr, Fintype.card_fin]
          intro u
          rw [hall u]
          exact Nat.le_refl _
      · obtain ⟨u, hu⟩ := not_forall.mp hall
        refine .of_worker u ?_
        rcases workers u with hworker | hworker | hworker
        · rw [hworker]
          exact Or.inr phase
        · rw [hworker]
          trivial
        · exact absurd hworker hu
  | prepared p main phase failed fresh workers =>
      refine Or.inr (.of_main ?_)
      unfold RunContext.stepMain
      rcases main with main | ⟨-, main | main⟩
      · rw [main]
        rfl
      · rw [main]
        rfl
      · rw [main]
        cases p <;> rfl
  | running p running =>
      by_cases hbusy : ∃ u, (run.worker u).CanAct run.phase run.ringBarrier.generation
      · obtain ⟨u, hu⟩ := hbusy
        exact Or.inr (.of_worker u hu)
      · have hleft : ∀ u, ¬ (run.worker u).WaitsIn p run.ringBarrier.generation := by
          -- Not everyone waits, and whoever does not has left the phase.
          intro u hwaits
          obtain ⟨v, hv⟩ := hsynced.balanced.exists_free u
          apply hcoherent.agreement.waiting u v p hwaits
          rcases running.idle (not_exists.mp hbusy v) with hwaits' | ⟨rfl, hworker⟩ | ⟨rfl, hworker⟩
          · obtain ⟨wait, hblocked⟩ := hwaits'.eq
            rw [hblocked] at hv
            exact absurd rfl hv
          · rw [hworker]
            decide
          · rw [hworker]
            decide
        cases p with
        | warmup =>
            have hcounted := hsynced.counted (by rw [running.phase]; simp)
            refine Or.inr (.of_main ?_)
            unfold RunContext.stepMain
            rw [running.main]
            dsimp only
            rw [if_pos]
            · rfl
            · rw [hcounted.warmupDone, headcount_eq_card_iff.mpr, Fintype.card_fin]
              intro u
              rcases running.idle (not_exists.mp hbusy u) with hwaits | ⟨-, hworker⟩ | ⟨h, -⟩
              · exact absurd hwaits (hleft u)
              · rw [hworker]
                decide
              · simp at h
        | measurement =>
            have hexited : ∀ u, run.worker u = .exited := by
              intro u
              rcases running.idle (not_exists.mp hbusy u) with hwaits | ⟨h, -⟩ | ⟨-, hworker⟩
              · exact absurd hwaits (hleft u)
              · simp at h
              · exact hworker
            rcases Joins.progress running.main fun u _ => hexited u with hmain | ⟨success, hmain⟩
            · exact Or.inr (.of_main hmain)
            · exact Or.inl ⟨success, hmain, fun u => Or.inl (hexited u)⟩
  | warm main phase fresh workers =>
      refine Or.inr (.of_main ?_)
      unfold RunContext.stepMain
      rw [main]
      rfl
  | stopping created main workers =>
      rcases main with main | ⟨hphase, hjoins⟩
      · refine Or.inr (.of_main ?_)
        unfold RunContext.stepMain
        rw [main]
        rfl
      · by_cases hexited : ∀ u : Fin threads, u.val < created → run.worker u = .exited
        · rcases hjoins.progress hexited with hmain | ⟨success, hmain⟩
          · exact Or.inr (.of_main hmain)
          · refine Or.inl ⟨success, hmain, fun u => ?_⟩
            by_cases hu : u.val < created
            · exact Or.inl (hexited u hu)
            · exact Or.inr ((workers u).2 (by omega))
        · obtain ⟨u, hu⟩ := not_forall.mp hexited
          obtain ⟨hcreated, hnot⟩ := Classical.not_imp.mp hu
          refine Or.inr (.of_worker u ?_)
          have hparked := (workers u).1 hcreated
          cases hworker : run.worker u with
          | awaitPrepare p | awaitPhase p => exact Or.inl hphase
          | signalReady | flush => trivial
          | exited => exact absurd hworker hnot
          | _ =>
              rw [hworker] at hparked
              exact hparked.elim

end Hplf.Ring
