import HplfMalloc.Proof.PoolDescent
import HplfMalloc.WorkerPoolSafety

/-!
# Progress and outcome of the worker pool

The runs in which no call fails. They end, however the threads are scheduled, and the configuration decides how.
-/

namespace Hplf.Pool

open Lib
open scoped BigOperators

/-- The runs of the worker pool in which no call fails. -/
def reliablePool (config : Configuration) : System (State config.workers) (Event config.workers) where
  init σ := σ = .initial config
  step σ e σ' := ∃ event, e = some event ∧ event.Reliable σ ∧ σ.perform config event = some σ'

variable {config : Configuration} {σ : State config.workers}

/-- The report of a run without failures: all jobs produced are consumed, with the right checksum. -/
structure Delivered {config : Configuration} (σ : State config.workers) : Prop where
  exited : σ.main = .exited (statusExitCode σ.status)
  ended : σ.Ended
  consumed : σ.totals.jobsConsumed = σ.jobsProduced
  abandoned : σ.totals.abandonedJobs = 0
  missing : σ.totals.missingJobs = 0
  duplicate : σ.totals.duplicateJobs = 0
  invalid : σ.totals.invalidJobs = 0
  observed : σ.totals.observedChecksum = ((Multiset.range σ.jobsProduced).map (taskChecksum config)).sum
  expected : σ.expectedChecksum = σ.totals.observedChecksum
  released : ∀ job, σ.store job = none

theorem Live.delivered (h : Live config σ) (hinv : Inv config σ) (haccepted : config.Accepted)
    (hreturned : σ.main.returned = true) : Delivered σ := by
  have hmain := hinv.main
  have hverdict := h.verdict
  cases hpc : σ.main with
  | exited code =>
      rw [hpc] at hmain hverdict
      obtain ⟨rfl, haccounted⟩ := hmain
      have haccounted := haccounted h.allJoined
      have hnone : σ.totals.abandonedJobs = 0 := by
        by_contra hne
        have herror := (haccounted.abandoned hne).2 ⟨0, haccepted.workers_pos⟩
        exact absurd ((h.errorless _).symm.trans herror) Bool.false_ne_true
      have hconsumed : σ.totals.jobsConsumed = σ.jobsProduced := by
        rw [← haccounted.consumed_add_abandoned, hnone, Nat.add_zero]
      exact
        { exited := hpc
          ended := hverdict
          consumed := hconsumed
          abandoned := hnone
          missing := haccounted.missing.trans hnone
          duplicate := haccounted.duplicate
          invalid := haccounted.invalid
          observed := by rw [haccounted.observed, hconsumed]
          expected := by rw [haccounted.expected, haccounted.observed, hconsumed]
          released := haccounted.released }
  | refused =>
      rw [hpc] at hverdict
      exact hverdict.elim
  | _ =>
      rw [hpc] at hreturned
      cases hreturned

theorem Live.of_run (haccepted : config.Accepted) {trace : List (Event config.workers)}
    (hrun : (reliablePool config).Run (.initial config) trace σ) :
    Inv config σ ∧ Live config σ ∧
      σ.potential + trace.length
        ≤ (State.initial config).potential + 2 * trace.countP Event.spurious := by
  induction hrun with
  | refl => exact ⟨inv_initial config haccepted.capacity_pos, live_initial config, Nat.le_refl _⟩
  | internal _ hstep _ =>
      obtain ⟨event, hnone, -⟩ := hstep
      cases hnone
  | @observe trace y z e _ hstep ih =>
      obtain ⟨event, hevent, hreliable, hperform⟩ := hstep
      cases hevent
      obtain ⟨hinv, hlive, hbound⟩ := ih
      have hdescent := hlive.descent hinv hreliable hperform
      refine ⟨hinv.perform hperform, hlive.perform hinv haccepted hreliable hperform, ?_⟩
      simp only [List.length_append, List.length_cons, List.length_nil, List.countP_append, List.countP_cons,
        List.countP_nil]
      omega

theorem potential_initial (config : Configuration) :
    (State.initial config).potential = 12 * config.jobs + 6 * config.workers + 10 := by
  simp only [State.potential, State.initial, Main.weight, Worker.weight, Finset.sum_const, Finset.card_univ,
    Fintype.card_fin, smul_eq_mul]
  omega

/-- **Progress and outcome.** A run without failures takes a number of steps that the configuration bounds, spurious
wake-ups aside; until `main` returns some thread can act, so no wake-up is lost; and when `main` has returned,
every job that was produced was consumed once, and the status is the one the configuration asks for. -/
theorem worker_pool_delivers (config : Configuration) (haccepted : config.Accepted)
    (trace : List (Event config.workers)) (σ : State config.workers)
    (hrun : (reliablePool config).Run (.initial config) trace σ) :
    trace.length ≤ 12 * config.jobs + 6 * config.workers + 10 + 2 * trace.countP Event.spurious ∧
      (σ.main.returned = false → ∃ event : Event config.workers,
        event.spurious = false ∧ event.Reliable σ ∧ (σ.perform config event).isSome = true) ∧
      (σ.main.returned = true → Delivered σ) := by
  obtain ⟨hinv, hlive, hbound⟩ := Live.of_run haccepted hrun
  refine ⟨?_, fun hrunning => hlive.progress hinv haccepted hrunning, hlive.delivered hinv haccepted⟩
  have hinitial := potential_initial config
  omega

instance {workers : Nat} (o : Outcome workers) (σ : State workers) : Decidable (o.Reliable σ) :=
  decidable_of_iff
    (o.setupFails = false ∧ o.createFails = false ∧ o.joinFails = false ∧ o.lockFails = false ∧ o.waitFails = false ∧
      o.unlockFails = false ∧ o.signalFails = false ∧ o.emptyBroadcastFails = false ∧ o.fullBroadcastFails = false ∧
      notEmpty.Wakes σ.worker o.woken ∧ o.allocation.isSome = true)
    ⟨fun ⟨setup, create, join, lock, wait, unlock, signal, empty, full, wakes, allocated⟩ =>
      ⟨setup, create, join, lock, wait, unlock, signal, empty, full, wakes, Option.isSome_iff_ne_none.mp allocated⟩,
    fun h => ⟨h.setup, h.create, h.join, h.lock, h.wait, h.unlock, h.signal, h.emptyBroadcast, h.fullBroadcast, h.wakes,
      Option.isSome_iff_ne_none.mpr h.allocated⟩⟩

instance {workers : Nat} (σ : State workers) (event : Event workers) : Decidable (event.Reliable σ) :=
  match event with
  | .worker _ o | .main o => inferInstanceAs (Decidable (o.Reliable σ))
  | .wakeWorker _ | .wakeMain => inferInstanceAs (Decidable True)

/-- The step of an event, if it is a reliable one. -/
def State.reliableStep (config : Configuration) (σ : State config.workers) (event : Event config.workers) :
    Option (Option (Event config.workers) × State config.workers) :=
  if event.Reliable σ then (σ.perform config event).map fun σ' => (some event, σ') else none

theorem reliableStep_step (x : State config.workers) (event : Event config.workers) (e : Option (Event config.workers))
    (y : State config.workers) (hstep : x.reliableStep config event = some (e, y)) :
    (reliablePool config).step x e y := by
  unfold State.reliableStep at hstep
  split at hstep
  next hreliable =>
    obtain ⟨σ', hperform, hsame⟩ := Option.map_eq_some_iff.mp hstep
    cases hsame
    exact ⟨event, rfl, hreliable, hperform⟩
  next => cases hstep

/-- The worker waits for a job before there is one, and is woken by the push. -/
def oneJobDelivered : List (Event 1) :=
  List.replicate 2 (.main oneJobOutcome) ++ [.worker ⟨0, Nat.one_pos⟩ oneJobOutcome] ++
    List.replicate 4 (.main { oneJobOutcome with woken := some ⟨0, Nat.one_pos⟩ }) ++
    List.replicate 4 (.worker ⟨0, Nat.one_pos⟩ oneJobOutcome) ++ List.replicate 2 (.main oneJobOutcome) ++
    List.replicate 2 (.worker ⟨0, Nat.one_pos⟩ oneJobOutcome) ++ List.replicate 3 (.main oneJobOutcome)

theorem worker_pool_delivers_one_job :
    ∃ trace σ, (reliablePool oneJob).Run (.initial oneJob) trace σ ∧ σ.main = .exited 0 ∧ σ.jobsProduced = 1 ∧
      trace.length ≤ 28 + 2 * trace.countP Event.spurious ∧ Delivered σ := by
  obtain ⟨trace, σ, hrun, hcheck⟩ := System.exists_run reliableStep_step (.initial oneJob) oneJobDelivered
    (fun _ σ => σ.main == .exited 0 && σ.jobsProduced == 1) (by decide +kernel)
  rw [Bool.and_eq_true, beq_iff_eq, beq_iff_eq] at hcheck
  have haccepted : oneJob.Accepted := ⟨by decide, by decide, by decide, by decide⟩
  obtain ⟨hbound, -, hdelivered⟩ := worker_pool_delivers oneJob haccepted trace σ hrun
  exact ⟨trace, σ, hrun, hcheck.1, hcheck.2, hbound, hdelivered (by rw [hcheck.1]; rfl)⟩

end Hplf.Pool
