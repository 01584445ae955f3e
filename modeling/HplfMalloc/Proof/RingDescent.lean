import HplfMalloc.RingAgreement
import Mathlib.Algebra.Order.BigOperators.Group.Finset
import Mathlib.Algebra.BigOperators.Fin

/-!
# The ring benchmark after a failure

Once `failed` is set the run comes to its end: the first worker raises `ring_stop` when it chooses the next time,
so the number of the last wait of the phase is known. Every step then lowers a rank, which counts the steps each
thread has left.
-/

namespace Hplf.Ring

open Lib

variable {threads : Nat} {run run' : RunContext threads} {cycles : Timed → Nat} {p : Timed}
variable {index : Fin threads} {outcome : Bool} {w w' : Worker} {event : Event threads} {lead : Prop}

/-! ### Failure is permanent -/

theorem stepWorker_failed (hstep : run.stepWorker index outcome = some run') (hfailed : run.failed = true) :
    run'.failed = true := by
  unfold RunContext.stepWorker at hstep
  cases hworker : run.worker index with
  | absent | exited =>
      rw [hworker] at hstep
      simp at hstep
  | awaitPrepare q | awaitPhase q =>
      rw [hworker] at hstep
      rcases waitForPhase_eq_some hstep with ⟨-, rfl⟩ | ⟨-, -, rfl⟩
      · exact hfailed
      · exact hfailed
  | allocate q =>
      rw [hworker] at hstep
      obtain rfl := Option.some.inj hstep
      exact (congrArg (· || !outcome) hfailed).trans (Bool.true_or _)
  | checkIncoming q incoming =>
      rw [hworker] at hstep
      obtain rfl := Option.some.inj hstep
      exact (congrArg (· || incoming && !outcome) hfailed).trans (Bool.true_or _)
  | blocked q wait g =>
      rw [hworker] at hstep
      dsimp only at hstep
      split at hstep
      · simp at hstep
      · obtain rfl := Option.some.inj hstep
        exact hfailed
  | reportFailure q =>
      rw [hworker] at hstep
      obtain rfl := Option.some.inj hstep
      rfl
  | cleanup q =>
      rw [hworker] at hstep
      cases q with
      | warmup =>
          obtain rfl := Option.some.inj hstep
          exact hfailed
      | measurement =>
          obtain rfl := Option.some.inj hstep
          exact hfailed
  | _ =>
      rw [hworker] at hstep
      obtain rfl := Option.some.inj hstep
      exact hfailed

theorem stepMain_failed (hstep : run.stepMain outcome = some run') (hfailed : run.failed = true) :
    run'.failed = true := by
  unfold RunContext.stepMain at hstep
  cases hmain : run.main with
  | returned s =>
      rw [hmain] at hstep
      simp at hstep
  | openPhase q =>
      rw [hmain] at hstep
      cases q with
      | warmup =>
          obtain rfl := Option.some.inj hstep
          exact hfailed
      | measurement =>
          obtain rfl := Option.some.inj hstep
          exact hfailed
  | _ =>
      rw [hmain] at hstep
      dsimp only at hstep
      repeat' split at hstep
      all_goals first
        | (obtain rfl := Option.some.inj hstep; exact hfailed)
        | simp at hstep

theorem perform_failed (hperform : run.perform event = some run') (hfailed : run.failed = true) :
    run'.failed = true := by
  cases event with
  | worker index outcome => exact stepWorker_failed hperform hfailed
  | main outcome => exact stepMain_failed hperform hfailed

/-! ### Ranks -/

/-- The number of the wait after which a phase ends once `failed` is set: the first worker is at `w`, after
`waits` waits of its own. It goes round once more only if it has already chosen not to stop. -/
def lastWait (stop : Bool) (w : Worker) (p : Timed) (waits : Nat) : Nat :=
  if stop then 3 * ((waits + 2) / 3) else if w = .arrive p .choice then 3 * (waits / 3) + 6 else 3 * (waits / 3) + 3

/-- The waits that are left to a worker in each phase. -/
def RunContext.waitsLeft (run : RunContext threads) (index : Fin threads) (p : Timed) : Nat :=
  lastWait run.ringStop (run.worker ⟨0, index.pos⟩) p (run.waits p ⟨0, index.pos⟩) - run.waits p index

/-- A bound for the steps the main thread has left. -/
def Main.rank (threads : Nat) : Main → Nat
  | .awaitWarmupDone => threads + 5
  | .testWarmup => threads + 4
  | .stop _ => threads + 3
  | .join _ _ joined => threads - joined + 2
  | .judge _ => 1
  | _ => 0

def RunContext.rank (run : RunContext threads) : Nat :=
  run.main.rank threads + ∑ u, (run.worker u).rank (run.waitsLeft u)

/-- One worker comes closer to its end, and the others keep their ranks. -/
theorem rank_lt_of_worker (index : Fin threads) (hmain : run'.main = run.main)
    (hself : (run'.worker index).rank (run'.waitsLeft index) < (run.worker index).rank (run.waitsLeft index))
    (hother : ∀ u, u ≠ index → (run'.worker u).rank (run'.waitsLeft u) = (run.worker u).rank (run.waitsLeft u)) :
    run'.rank < run.rank := by
  unfold RunContext.rank
  rw [hmain]
  refine Nat.add_lt_add_left (Finset.sum_lt_sum (fun u _ => ?_) ⟨index, Finset.mem_univ index, hself⟩) _
  by_cases hu : u = index
  · subst hu
    exact Nat.le_of_lt hself
  · exact Nat.le_of_eq (hother u hu)

/-- The main thread comes closer to its end. -/
theorem rank_lt_of_main (hrank : run'.main.rank threads < run.main.rank threads)
    (hworker : run'.worker = run.worker) (hwaits : run'.waits = run.waits) (hstop : run'.ringStop = run.ringStop) :
    run'.rank < run.rank := by
  unfold RunContext.rank
  have hsame : ∀ u, (run'.worker u).rank (run'.waitsLeft u) = (run.worker u).rank (run.waitsLeft u) := by
    intro u
    unfold RunContext.waitsLeft
    rw [hworker, hwaits, hstop]
  rw [Finset.sum_congr rfl fun u _ => hsame u]
  exact Nat.add_lt_add_right hrank _

/-- The rank of a worker that has left the rounds, or has not entered them, does not depend on the waits. -/
theorem Worker.Parked.rank_congr {phase : RunPhase} (hparked : w.Parked phase) (left left' : Timed → Nat) :
    w.rank left = w.rank left' := by
  cases w with
  | signalReady | awaitPrepare q | awaitPhase q | flush | exited => rfl
  | _ => exact hparked.elim

/-- In a running phase only the waits of that phase matter. -/
theorem Worker.AtBeat.rank_congr {generation beats : Nat} {failed stop : Bool} {lead : Prop}
    {left left' : Timed → Nat} (hbeat : (w.position generation).AtBeat p beats failed stop lead)
    (hleft : left p = left' p) : w.rank left = w.rank left' := by
  cases w with
  | blocked q wait g =>
      obtain rfl := hbeat.blocked_phase
      simp only [Worker.rank, hleft]
  | arrive q wait =>
      obtain rfl := Worker.AtBeat.arrive_phase hbeat
      simp only [Worker.rank, hleft]
  | testStop q | receive q | decideStop q | allocate q | checkIncoming q incoming | raiseStop q
  | sendOutgoing q outgoing =>
      obtain ⟨rfl, -⟩ := hbeat
      simp only [Worker.rank, hleft]
  | _ => rfl

/-! ### A worker in a running phase -/

/-- What a step of one worker does to the ranks: nothing to those of the others, and its own becomes lower, if it
does not arrive after the last wait. -/
structure Advances (run run' : RunContext threads) (index : Fin threads) (p : Timed) : Prop where
  main : run'.main = run.main
  worker : ∀ u, u ≠ index → run'.worker u = run.worker u
  waits : ∀ u, u ≠ index → run'.waits p u = run.waits p u
  stop : index.val ≠ 0 → run'.ringStop = run.ringStop
  last : index.val = 0 → lastWait run'.ringStop (run'.worker index) p (run'.waits p index)
    = lastWait run.ringStop (run.worker index) p (run.waits p index)
  rank : ∀ (last : Nat) (left left' : Timed → Nat), left p = last - run.waits p index →
    left' p = last - run'.waits p index → (∀ wait, run.worker index = .arrive p wait → run.waits p index < last) →
      (run'.worker index).rank left' < (run.worker index).rank left

/-- A turn after a failure. -/
theorem Turn.advances {beats : Nat} (hturn : Turn run run' index p beats w w') (hfailed : run.failed = true)
    (htested : ¬ w.Untested p) (hcount : run.waits p index = beats) :
    Advances run run' index p where
  main := hturn.moves.main
  worker u hu := hturn.moves.other hu
  waits u _ := by rw [hturn.moves.waits]
  stop hnot := hturn.stop.resolve_right fun h => hnot h.2.2
  last hlead := by
    rw [hturn.moves.self, hturn.moves.waits, hturn.worker, hcount]
    unfold lastWait
    rw [if_neg (hturn.busy.2 .choice)]
    rcases hturn.stop with hstop | ⟨hstop, hthird, -⟩
    · by_cases hw' : w' = .arrive p .choice
      · have hraised := (hturn.choice hw').resolve_right fun hnot => hnot ⟨hlead, hfailed⟩
        rw [← hstop, if_pos hraised, if_pos hraised]
      · rw [hstop, if_neg hw']
    · rw [if_pos hstop]
      split <;> omega
  rank last left left' hleft hleft' _ := by
    rw [hturn.moves.self, hturn.worker]
    apply hturn.rank.resolve_left htested left left'
    rw [hleft', hleft, hturn.moves.waits]

theorem Advances.rank_lt (hadvances : Advances run run' index p) (hrunning : Running run cycles p)
    (hroom : ∀ wait, run.worker index = .arrive p wait →
      run.waits p index < lastWait run.ringStop (run.worker ⟨0, index.pos⟩) p (run.waits p ⟨0, index.pos⟩)) :
    run'.rank < run.rank := by
  have hlast : lastWait run'.ringStop (run'.worker ⟨0, index.pos⟩) p (run'.waits p ⟨0, index.pos⟩)
      = lastWait run.ringStop (run.worker ⟨0, index.pos⟩) p (run.waits p ⟨0, index.pos⟩) := by
    by_cases hlead : index.val = 0
    · have hindex : (⟨0, index.pos⟩ : Fin threads) = index := Fin.ext hlead.symm
      rw [hindex]
      exact hadvances.last hlead
    · have hindex : (⟨0, index.pos⟩ : Fin threads) ≠ index := fun h => hlead (congrArg Fin.val h).symm
      rw [hadvances.stop hlead, hadvances.worker _ hindex, hadvances.waits _ hindex]
  refine rank_lt_of_worker index hadvances.main ?_ fun u hu => ?_
  · refine hadvances.rank _ _ _ rfl ?_ hroom
    unfold RunContext.waitsLeft
    rw [hlast]
  · rw [hadvances.worker u hu]
    refine ((hrunning.workers u).rank_congr ?_).symm
    unfold RunContext.waitsLeft
    rw [hlast, hadvances.waits u hu]

/-- The first worker's arrival does not change the number of the last wait. -/
theorem lastWait_arrive {beats : Nat} {failed stop : Bool} {wait : RingWait}
    (hbeat : (Worker.arrive p wait).AtBeat p beats failed stop lead) (hw' : w' ≠ .arrive p .choice) :
    lastWait stop w' p (beats + 1) = lastWait stop (.arrive p wait) p beats := by
  unfold lastWait
  rw [if_neg hw']
  cases wait with
  | entries =>
      obtain ⟨-, hbeats, rfl⟩ := hbeat
      rw [if_neg (by simp), if_neg (by simp), if_neg (by simp)]
      omega
  | reads =>
      obtain ⟨-, hbeats, rfl⟩ := hbeat
      rw [if_neg (by simp), if_neg (by simp), if_neg (by simp)]
      omega
  | choice =>
      obtain ⟨-, hbeats⟩ := hbeat
      rw [if_pos rfl]
      split <;> omega

/-- Whoever arrives has not made the last wait yet. -/
theorem lt_lastWait {beats waits : Nat} {failed stop : Bool} {wait : RingWait}
    (hbeat : (Worker.arrive p wait).AtBeat p beats failed stop lead) (hwaits : beats ≤ waits) :
    beats < lastWait stop w p waits := by
  unfold lastWait
  cases stop with
  | false =>
      rw [if_neg (by simp)]
      split <;> omega
  | true =>
      rw [if_pos rfl]
      cases wait with
      | entries => exact absurd hbeat.2.2 (by simp)
      | reads => exact absurd hbeat.2.2 (by simp)
      | choice =>
          have hbeats := hbeat.2
          omega

/-- A wait: the worker arrives, and is at `w'` afterwards. -/
theorem Running.advances_arrive (hsynced : Synced run cycles) (hrunning : Running run cycles p) {wait : RingWait}
    (hworker : run.worker index = .arrive p wait) : Advances run (run.barrierWait index p wait) index p := by
  have hcount : run.waits p index = cycles p :=
    hsynced.waits_of_free (by rw [hworker]; simp [Worker.blockedAt]) p
  obtain ⟨w', hw', hself⟩ : ∃ w', (w' = RunContext.afterWait p wait ∨
      w' = .blocked p wait run.ringBarrier.generation) ∧
      (run.barrierWait index p wait).worker = Function.update run.worker index w' := by
    refine ⟨_, ?_, rfl⟩
    split
    · exact Or.inl rfl
    · exact Or.inr rfl
  have hwaits : (run.barrierWait index p wait).waits p index = cycles p + 1 := by
    change Function.update run.waits p (Function.update (run.waits p) index (run.waits p index + 1)) p index = _
    rw [Function.update_self, Function.update_self, hcount]
  have hchoice : w' ≠ .arrive p .choice := by
    rcases hw' with rfl | rfl
    · cases wait <;> simp [RunContext.afterWait]
    · simp
  refine ⟨rfl, fun u hu => ?_, fun u hu => ?_, fun _ => rfl, fun _ => ?_, fun last left left' hleft hleft' hroom => ?_⟩
  · rw [hself, Function.update_of_ne hu]
  · change Function.update run.waits p (Function.update (run.waits p) index (run.waits p index + 1)) p u = _
    rw [Function.update_self, Function.update_of_ne hu]
  · rw [hwaits, hself, Function.update_self, hcount, hworker]
    exact lastWait_arrive (hrunning.arriving hworker) hchoice
  · have hlast := hroom wait hworker
    rw [hwaits] at hleft'
    rw [hcount] at hleft hlast
    rw [hself, Function.update_self, hworker]
    rcases hw' with rfl | rfl
    · cases wait <;> simp [RunContext.afterWait, Worker.rank] <;> omega
    · simp only [Worker.rank]
      split <;> omega

/-- After a failure every step of a worker in a running phase brings the end closer. -/
theorem Running.advances (hsynced : Synced run cycles) (hrunning : Running run cycles p)
    (hfailed : run.failed = true) (hstep : run.stepWorker index outcome = some run') :
    Advances run run' index p := by
  have htested := hrunning.tested (Or.inr hfailed)
  rcases hrunning.step_cases (fun _ _ => htested) hstep with ⟨wait, hworker, rfl⟩ | ⟨w, w', hturn⟩
  · exact hrunning.advances_arrive hsynced hworker
  · have hfree := hturn.free
    rw [← hturn.worker] at hfree
    exact hturn.advances hfailed (hturn.worker ▸ htested index) (hsynced.waits_of_free hfree p)

/-! ### The way to the end -/

/-- Once `failed` is set, all workers of the phase have tested it. -/
theorem Coherent.timely_of_failed (hcoherent : Coherent run cycles) (hfailed : run.failed = true) :
    Timely run event := by
  rintro q ⟨u, -, hworker⟩ v huntested
  obtain ⟨p, hrunning⟩ := hcoherent.stage.running_of_round (p := q) (u := u) (by rw [hworker]; rfl)
  have hbeat := hrunning.workers u
  unfold RunContext.OnBeat at hbeat
  rw [hworker] at hbeat
  obtain ⟨rfl, -⟩ := hbeat
  exact hrunning.tested (Or.inr hfailed) v huntested

theorem Joins.rank_lt {success : Bool} {created : Nat} (hjoins : Joins run success created)
    (hstep : run.stepMain outcome = some run') : run'.main.rank threads < run.main.rank threads := by
  unfold Joins at hjoins
  unfold RunContext.stepMain at hstep
  cases hmain : run.main with
  | join s c joined =>
      rw [hmain] at hstep
      dsimp only at hstep
      split at hstep
      · rename_i hjoined
        split at hstep
        · obtain rfl := Option.some.inj hstep
          simp only [Main.rank]
          omega
        · simp at hstep
      · obtain rfl := Option.some.inj hstep
        simp only [Main.rank]
        omega
  | judge s =>
      rw [hmain] at hstep
      obtain rfl := Option.some.inj hstep
      exact Nat.zero_lt_one
  | returned s =>
      rw [hmain] at hstep
      simp at hstep
  | _ =>
      rw [hmain] at hjoins
      exact hjoins.elim

/-- A worker moves when the run is being stopped. -/
theorem Worker.Parked.rank_lt {created : Nat} (hindex : index.val < created)
    (workers : ∀ u : Fin threads, (u.val < created → (run.worker u).Parked run.phase) ∧
      (created ≤ u.val → run.worker u = .absent))
    (hstep : run.stepWorker index outcome = some run') : run'.rank < run.rank := by
  have hmoves : ∀ w' : Worker, Moves run run' index w' →
      (∀ left left', w'.rank left' < (run.worker index).rank left) → run'.rank < run.rank := by
    intro w' hmoves hrank
    refine rank_lt_of_worker index hmoves.main ?_ fun u hu => ?_
    · rw [hmoves.self]
      exact hrank _ _
    · rw [hmoves.other hu]
      by_cases hu' : u.val < created
      · exact ((workers u).1 hu').rank_congr _ _
      · rw [(workers u).2 (by omega)]
        rfl
  rcases ((workers index).1 hindex).step hstep with ⟨hworker, rfl⟩ | ⟨-, rfl, hworker⟩ | ⟨hworker, rfl⟩
  · refine hmoves (.awaitPrepare .warmup) ⟨rfl, rfl, rfl, rfl, rfl⟩ fun left left' => ?_
    rw [hworker]
    simp [Worker.rank]
  · apply hmoves _ (moves_goto _ _ _)
    intro left left'
    rcases hworker with ⟨p, hworker⟩ | ⟨p, hworker⟩
    · rw [hworker]
      simp [Worker.rank]
    · rw [hworker]
      simp [Worker.rank]
  · apply hmoves _ (moves_goto _ _ _)
    intro left left'
    rw [hworker]
    simp [Worker.rank]

/-- After a failure every step of a worker lowers the rank. -/
theorem Coherent.rank_lt_worker (hcoherent : Coherent run cycles) (hfailed : run.failed = true)
    (hstep : run.stepWorker index outcome = some run') : run'.rank < run.rank := by
  have hnot : run.failed = false → run'.rank < run.rank := fun h => by
    rw [hfailed] at h
    simp at h
  obtain ⟨hsynced, hstage⟩ := hcoherent
  cases hstage with
  | creating created main phase failed fresh workers => exact hnot failed
  | opening main phase failed fresh workers => exact hnot failed
  | assembled p main phase failed fresh workers => exact hnot failed
  | preparing p main phase failed fresh workers => exact hnot failed
  | prepared p main phase failed fresh workers => exact hnot failed
  | running p running =>
      apply (running.advances hsynced hfailed hstep).rank_lt running
      intro wait hworker
      rw [hsynced.waits_of_free (by rw [hworker]; simp [Worker.blockedAt]) p]
      apply lt_lastWait (running.arriving hworker)
      rw [hsynced.waits]
      exact Nat.le_add_right _ _
  | warm main phase fresh workers =>
      exact absurd hstep (not_step_awaitPrepare (workers index) (by simp [phase]) (by simp [phase]))
  | stopping created main workers =>
      by_cases hindex : index.val < created
      · exact Worker.Parked.rank_lt hindex workers hstep
      · exact absurd hstep (not_step_absent ((workers index).2 (by omega)))

/-- After a failure every step of the main thread lowers the rank. -/
theorem Coherent.rank_lt_main (hcoherent : Coherent run cycles) (hfailed : run.failed = true)
    (hstep : run.stepMain outcome = some run') : run'.rank < run.rank := by
  have hnot : run.failed = false → run'.rank < run.rank := fun h => by
    rw [hfailed] at h
    simp at h
  have hjoin : ∀ {success created}, Joins run success created → run'.rank < run.rank := by
    intro success created hjoins
    have hrank := hjoins.rank_lt hstep
    obtain ⟨main, rfl, -⟩ := hjoins.step hstep
    exact rank_lt_of_main hrank rfl rfl rfl
  obtain ⟨hsynced, hstage⟩ := hcoherent
  cases hstage with
  | creating created main phase failed fresh workers => exact hnot failed
  | opening main phase failed fresh workers => exact hnot failed
  | assembled p main phase failed fresh workers => exact hnot failed
  | preparing p main phase failed fresh workers => exact hnot failed
  | prepared p main phase failed fresh workers => exact hnot failed
  | running p running =>
      cases p with
      | warmup =>
          have hmain := running.main
          unfold RunContext.stepMain at hstep
          rw [hmain] at hstep
          dsimp only at hstep
          split at hstep
          · obtain rfl := Option.some.inj hstep
            refine rank_lt_of_main ?_ rfl rfl rfl
            rw [hmain]
            exact Nat.lt_succ_self _
          · simp at hstep
      | measurement => exact hjoin running.main
  | warm main phase fresh workers =>
      unfold RunContext.stepMain at hstep
      rw [main] at hstep
      obtain rfl := Option.some.inj hstep
      refine rank_lt_of_main ?_ rfl rfl rfl
      rw [if_pos hfailed, main]
      exact Nat.lt_succ_self _
  | stopping created main workers =>
      rcases main with main | ⟨-, hjoins⟩
      · unfold RunContext.stepMain at hstep
        rw [main] at hstep
        obtain rfl := Option.some.inj hstep
        refine rank_lt_of_main ?_ rfl rfl rfl
        rw [main]
        simp only [Main.rank]
        omega
      · exact hjoin hjoins

/-- **One step after a failure.** -/
theorem Coherent.perform_of_failed (hcoherent : Coherent run cycles) (hfailed : run.failed = true)
    (hperform : run.perform event = some run') : (∃ cycles', Coherent run' cycles') ∧ run'.rank < run.rank := by
  refine ⟨hcoherent.perform hperform (hcoherent.timely_of_failed hfailed), ?_⟩
  cases event with
  | worker index outcome => exact hcoherent.rank_lt_worker hfailed hperform
  | main outcome => exact hcoherent.rank_lt_main hfailed hperform

/-- **All steps after a failure.** There are at most as many as the rank says. -/
theorem Coherent.run_of_failed (hcoherent : Coherent run cycles) (hfailed : run.failed = true)
    {trace : List (Event threads)} (hrun : (benchmark threads).Run run trace run') :
    (∃ cycles', Coherent run' cycles') ∧ run'.failed = true ∧ trace.length + run'.rank ≤ run.rank := by
  induction hrun with
  | refl => exact ⟨⟨cycles, hcoherent⟩, hfailed, Nat.le_of_eq (Nat.zero_add _)⟩
  | internal _ hstep _ =>
      obtain ⟨event, hnone, -⟩ := hstep
      simp at hnone
  | @observe trace run₁ run₂ event _ hstep ih =>
      obtain ⟨⟨cycles', hcoherent'⟩, hfailed', hrank⟩ := ih
      obtain ⟨event, hevent, hperform⟩ := hstep
      obtain rfl := Option.some.inj hevent
      obtain ⟨hcoherent'', hlower⟩ := hcoherent'.perform_of_failed hfailed' hperform
      refine ⟨hcoherent'', perform_failed hperform hfailed', ?_⟩
      rw [List.length_append, List.length_singleton]
      omega

/-- A run with a failure does not return success. -/
theorem Coherent.not_success (hcoherent : Coherent run cycles) (hfailed : run.failed = true) :
    run.main ≠ .returned true := by
  intro hmain
  have hjoin : ∀ {success created}, ¬ Joins run success created := by
    intro success created hjoins
    unfold Joins at hjoins
    rw [hmain] at hjoins
    have hnot := (hjoins.1 rfl).2
    rw [hfailed] at hnot
    simp at hnot
  have hmain' : ∀ {main}, run.main = main → main = .returned true := fun h => h.symm.trans hmain
  cases hcoherent.stage with
  | creating created main phase failed fresh workers => exact absurd (hmain' main) (by simp)
  | opening main phase failed fresh workers => exact absurd (hmain' main) (by simp)
  | assembled p main phase failed fresh workers => exact absurd (hmain' main) (by simp)
  | preparing p main phase failed fresh workers => exact absurd (hmain' main) (by simp)
  | prepared p main phase failed fresh workers =>
      rw [failed] at hfailed
      simp at hfailed
  | running p running =>
      cases p with
      | warmup => exact absurd (hmain' running.main) (by simp)
      | measurement => exact hjoin running.main
  | warm main phase fresh workers => exact absurd (hmain' main) (by simp)
  | stopping created main workers =>
      rcases main with main | ⟨-, hjoins⟩
      · exact absurd (hmain' main) (by simp)
      · exact hjoin hjoins

end Hplf.Ring
