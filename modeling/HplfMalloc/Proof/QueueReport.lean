import HplfMalloc.Proof.QueueSteps
import Mathlib.Algebra.BigOperators.Fin

/-!
# The phases and the result of the queue benchmark

What the main thread does: it opens a phase when all workers wait for it, and at the end it adds up what they have
done.
-/

namespace Hplf.Queue

open Lib Hplf.Bench
open Hplf.Ring (Timed)
open scoped BigOperators

variable {config : BenchmarkConfig} {locked : Bool} {σ σ' : State config.threads}

/-! ### Steps of the workers -/

theorem Step.frame {event : Event config.threads} (hstep : Step config σ event σ') (hworker : event.ofWorker = true) :
    σ'.deadlineNs = σ.deadlineNs ∧ σ'.measurementStartNs = σ.measurementStartNs ∧ σ'.main = σ.main := by
  cases hstep <;> first | exact ⟨rfl, rfl, rfl⟩ | cases hworker

/-- The main thread waits for the workers. -/
theorem at_worker_step (hmain : σ.main.At config σ) {event : Event config.threads} (hstep : Step config σ event σ')
    (hworker : event.ofWorker = true) : σ'.main.At config σ' := by
  obtain ⟨hdeadline, hstart, hsame⟩ := hstep.frame hworker
  rw [hsame]
  cases hpc : σ.main with
  | returned result => trivial
  | prepare =>
      rw [hpc] at hmain
      exact fun i => hstep.idle_stays hworker (hmain i)
  | openPhase phase =>
      rw [hpc] at hmain
      cases phase with
      | warmup => exact fun i => hstep.idle_stays hworker (hmain i)
      | measurement => trivial
  | join index success =>
      rw [hpc] at hmain
      rw [Main.At, hdeadline, hstart]
      exact ⟨fun hsuccess i hi => hstep.idle_stays hworker (hmain.1 hsuccess i hi), hmain.2⟩

theorem Exact.worker_step (h : Exact config σ) (hrange : State.InRange config) (hpossession : Possession config σ)
    (hflow : Flow config true σ) (hclocked : ∀ i, σ.now i ≤ σ.clock) (hrunning : σ.main.running = true)
    {event : Event config.threads} (hlocks : event.Locks) (hstep : Step config σ event σ')
    (hworker : event.ofWorker = true) : Exact config σ' := by
  have hsound (hafter : ¬ σ'.Doomed) : ¬ σ.Doomed := fun hdoomed => hafter (hdoomed.step hpossession hstep hworker)
  exact
    { refused := refused_step h.refused hlocks hstep hworker
      books := fun hafter => (h.books (hsound hafter)).step hpossession h.refused hlocks hstep hworker hafter
      times := fun hafter => (h.times (hsound hafter)).step hrange hpossession hflow hclocked h.refused (hsound hafter)
        hlocks hstep hworker hafter
      main := by
        rw [(hstep.frame hworker).2.2]
        cases hpc : σ.main with
        | returned result =>
            rw [hpc] at hrunning
            cases hrunning
        | _ => trivial }

theorem Inv.worker_step (h : Inv config locked σ) (hrange : State.InRange config) (hrunning : σ.main.running = true)
    {event : Event config.threads} (hlocks : locked = true → event.Locks) (hstep : Step config σ event σ')
    (hworker : event.ofWorker = true) : Inv config locked σ' where
  possession := h.possession.step hstep hworker
  flow _ := (h.flow hrunning).step h.possession hlocks hstep hworker
  clocked := clocked_step h.clocked hstep hworker
  unproduced := unproduced_step h.unproduced h.possession hstep hworker
  main := at_worker_step h.main hstep hworker
  exact hlocked := by
    subst hlocked
    exact (h.exact rfl).worker_step hrange h.possession (h.flow hrunning) h.clocked hrunning (hlocks rfl) hstep hworker

/-! ### Between the phases -/

theorem Flow.count_idle (h : Flow config locked σ) (hrange : State.InRange config) (hfailed : σ.failed = false)
    (hidle : ∀ i, σ.worker i = .idle) : σ.queue.count = 0 := by
  by_cases hsolo : config.threads = 1
  · rw [h.solo hsolo ⟨0, hrange.1⟩ (by rw [hidle]; exact hfailed), hidle]
    rfl
  · obtain ⟨i, hconsumer⟩ := exists_consumer hrange.1 hsolo
    exact (h.drained hfailed i hconsumer (by rw [hidle]; rfl)).2

/-- Between the phases nothing is held. -/
theorem Possession.empty (h : Possession config σ) (hcount : σ.queue.count = 0) (hidle : ∀ i, σ.worker i = .idle)
    (pointer : Nat) : σ.store pointer = none := by
  refine h.custody.empty_iff.mp ?_ pointer
  rw [RingBuffer.contents_eq_nil hcount]
  exact owned_idle fun i => by rw [hidle]; rfl

theorem not_doomed_idle (hfailed : σ.failed = false) (hidle : ∀ i, σ.worker i = .idle) : ¬ σ.Doomed := by
  rintro (htrue | ⟨i, hi⟩)
  · rw [hfailed] at htrue
    cases htrue
  · rw [hidle] at hi
    cases hi

/-- The main thread goes on by itself. -/
theorem Inv.setMain (h : Inv config locked σ) {main : Main} (hmain : main.At config { σ with main := main })
    (hsound : locked = true → main.Sound config { σ with main := main }) (hrunning : σ.main.running = true)
    (hopened : main.opened = true → σ.main.opened = true) : Inv config locked { σ with main := main } where
  possession := ⟨h.possession.fits, h.possession.custody, h.possession.queued, h.possession.worker⟩
  flow _ := by
    have hflow := h.flow hrunning
    exact ⟨hflow.remaining_ge, hflow.remaining_eq, hflow.drained, hflow.solo⟩
  clocked := h.clocked
  unproduced := h.unproduced
  main := hmain
  exact hlocked :=
    { refused := (h.exact hlocked).refused
      books := (h.exact hlocked).books
      times := fun hsound => by
        have htimes := (h.exact hlocked).times hsound
        exact ⟨htimes.late, htimes.stamped, htimes.begun, fun hmain => htimes.rested (hopened hmain)⟩
      main := hsound hlocked }

/-- A phase that is not opened because the clock has failed. -/
theorem Inv.stopClock (h : Inv config locked σ) (hrange : State.InRange config) (hidle : ∀ i, σ.worker i = .idle)
    (hfailed : σ.failed = false) (hrunning : σ.main.running = true) (clock : UInt64) (hclock : σ.clock ≤ clock) :
    Inv config locked ({ σ.resetPhaseState with clock := clock }.fail State.workerFailed) := by
  have hcount := (h.flow hrunning).count_idle hrange hfailed hidle
  have hsound := not_doomed_idle hfailed hidle
  have hcontents : σ.queue.contents = [] := RingBuffer.contents_eq_nil hcount
  have hcustody := h.possession.custody
  rw [hcontents] at hcustody
  exact
    { possession :=
        ⟨⟨Nat.zero_lt_of_lt h.possession.fits.head_lt, Nat.zero_le _⟩, hcustody,
          fun _ hitem => absurd hitem List.not_mem_nil, h.possession.worker⟩
      flow := fun hnone => absurd hnone Bool.false_ne_true
      clocked := fun i => UInt64.le_trans (h.clocked i) hclock
      unproduced := h.unproduced
      main := trivial
      exact := fun hlocked => by
        have hexact := h.exact hlocked
        have htimes := hexact.times hsound
        have hbooks : Books config σ.queue.contents σ.sequence σ.stats fun i => (σ.worker i).stage :=
          hexact.books hsound
        rw [hcontents] at hbooks
        exact
          { refused := hexact.refused
            books := fun _ => hbooks
            times := fun _ =>
              ⟨htimes.late, htimes.stamped, htimes.begun, fun hnone => absurd hnone Bool.false_ne_true⟩
            main := (by decide : State.workerFailed ≠ State.invalidTimer) } }

/-- A phase begins with an empty queue and all workers at its start. -/
theorem Inv.openPhase (h : Inv config locked σ) (hrange : State.InRange config) {phase : Timed} {start : UInt64}
    (hidle : ∀ i, σ.worker i = .idle) (hfailed : σ.failed = false) (hrunning : σ.main.running = true)
    (hduration : State.durationOf config phase ≤ 18446744073709551615 - start) :
    Inv config locked
      { σ.resetPhaseState.enterPhase with
        clock := start
        deadlineNs := start + State.durationOf config phase
        measurementStartNs := if phase = .measurement then start else σ.measurementStartNs
        main := State.afterPhase phase } where
  possession :=
    { fits := ⟨Nat.zero_lt_of_lt h.possession.fits.head_lt, Nat.zero_le _⟩
      custody := by
        have hcount := (h.flow hrunning).count_idle hrange hfailed hidle
        have hnone : owned [] (fun _ : Fin config.threads => Worker.testFailed) = 0 := owned_idle fun _ => rfl
        change Custody (owned [] fun _ => Worker.testFailed) σ.store
        refine ⟨hnone ▸ Multiset.nodup_zero, fun pointer => ?_⟩
        rw [hnone, h.possession.empty hcount hidle pointer]
        simp
      queued := fun _ hitem => absurd hitem List.not_mem_nil
      worker := fun _ => trivial }
  flow _ :=
    { remaining_ge := sum_activity_testFailed.le
      remaining_eq := fun _ _ => sum_activity_testFailed.symm
      drained := fun _ _ _ hpast => absurd hpast Bool.false_ne_true
      solo := fun _ _ _ => rfl }
  clocked _ := UInt64.zero_le
  unproduced _ _ := rfl
  main := by
    cases phase with
    | warmup => trivial
    | measurement => exact ⟨fun _ i hi => absurd hi (Nat.not_lt_zero i), rfl, hduration⟩
  exact _ :=
    { refused := fun _ _ hnone => by cases hnone
      books := fun _ => books_zero config config.threads
      times := fun _ =>
        { late := fun _ hended => absurd hended Bool.false_ne_true
          stamped := fun _ hidle => by cases hidle
          begun := fun _ _ hbegun => absurd hbegun Bool.false_ne_true
          rested := fun _ _ _ hidle => by cases hidle }
      main := by cases phase <;> trivial }

/-! ### The result -/

def ofNatHom : Nat →+ UInt64 where
  toFun := UInt64.ofNat
  map_zero' := rfl
  map_add' := UInt64.ofNat_add

theorem sum_ofNat {ι : Type*} [Fintype ι] (f : ι → Nat) : ∑ i, UInt64.ofNat (f i) = UInt64.ofNat (∑ i, f i) :=
  (map_sum ofNatHom f Finset.univ).symm

theorem sum_checksums {ι α : Type*} [Fintype ι] (g : α → UInt64) (f : ι → Multiset α) :
    ∑ i, ((f i).map g).sum = ((∑ i, f i).map g).sum :=
  (map_sum (Multiset.sumAddMonoidHom.comp (Multiset.mapAddMonoidHom g)) f Finset.univ).symm

theorem total_eq_sum (field : WorkerStats → UInt64) : σ.total field = ∑ i, field (σ.stats i) :=
  (Fin.sum_univ_def _).symm

theorem le_foldl_latest {threads : Nat} (stats : Fin threads → WorkerStats) (workers : List (Fin threads))
    (latest : UInt64) :
    latest ≤ workers.foldl (fun latest i => if (stats i).endNs > latest then (stats i).endNs else latest) latest ∧
      ∀ i ∈ workers, (stats i).endNs
        ≤ workers.foldl (fun latest i => if (stats i).endNs > latest then (stats i).endNs else latest) latest := by
  induction workers generalizing latest with
  | nil => exact ⟨UInt64.le_refl _, fun _ hi => absurd hi List.not_mem_nil⟩
  | cons first workers ih =>
      rw [List.foldl_cons]
      have hboth : latest ≤ (if (stats first).endNs > latest then (stats first).endNs else latest) ∧
          (stats first).endNs ≤ (if (stats first).endNs > latest then (stats first).endNs else latest) := by
        split
        next hlater => exact ⟨UInt64.le_of_lt hlater, UInt64.le_refl _⟩
        next hearlier => exact ⟨UInt64.le_refl _, UInt64.not_lt.mp hearlier⟩
      obtain ⟨hlatest, hall⟩ := ih (if (stats first).endNs > latest then (stats first).endNs else latest)
      refine ⟨UInt64.le_trans hboth.1 hlatest, fun i hi => ?_⟩
      rcases List.mem_cons.mp hi with rfl | htail
      · exact UInt64.le_trans hboth.2 hlatest
      · exact hall i htail

theorem endNs_le_latestEnd (i : Fin config.threads) : (σ.stats i).endNs ≤ σ.latestEnd :=
  (le_foldl_latest σ.stats (List.finRange config.threads) 0).2 i (List.mem_finRange i)

/-- A measurement that ends at or after its deadline took its time. -/
theorem duration_le_elapsed {start duration deadline latest : UInt64} (hdeadline : deadline = start + duration)
    (hduration : duration ≤ 18446744073709551615 - start) (hlate : deadline ≤ latest) :
    start ≤ latest ∧ duration ≤ latest - start := by
  subst hdeadline
  have hmax : (18446744073709551615 - start : UInt64).toNat = 18446744073709551615 - start.toNat :=
    UInt64.toNat_sub_of_le _ _ (UInt64.le_iff_toNat_le.mpr (by have := start.toNat_lt; simp; omega))
  rw [UInt64.le_iff_toNat_le] at hduration hlate
  rw [hmax] at hduration
  rw [UInt64.toNat_add, Nat.mod_eq_of_lt (by have := start.toNat_lt; omega)] at hlate
  have hstart : start ≤ latest := UInt64.le_iff_toNat_le.mpr (by omega)
  refine ⟨hstart, UInt64.le_iff_toNat_le.mpr ?_⟩
  rw [UInt64.toNat_sub_of_le _ _ hstart]
  omega

/-- All workers are done, and nothing has failed. -/
theorem Inv.completed (h : Inv config true σ) (hrange : State.InRange config) (hidle : ∀ i, σ.worker i = .idle)
    {index : Nat} {success : Bool} (hmain : σ.main = .join index success) (hfailed : σ.failed = false) (trimmed : Nat) :
    σ.measurementStartNs ≤ σ.latestEnd ∧ Completed config σ (σ.addUp config trimmed) := by
  have hsound := not_doomed_idle hfailed hidle
  have htimes := (h.exact rfl).times hsound
  have hat := h.main
  rw [hmain] at hat
  have hcount := (h.flow (by rw [hmain]; rfl)).count_idle hrange hfailed hidle
  have hlate : σ.deadlineNs ≤ σ.latestEnd := by
    have hfirst := htimes.late ⟨0, hrange.1⟩ (by rw [hidle]; rfl)
    rw [← htimes.stamped ⟨0, hrange.1⟩ (hidle _)] at hfirst
    exact UInt64.le_trans hfirst (endNs_le_latestEnd _)
  obtain ⟨hstart, helapsed⟩ := duration_le_elapsed hat.2.1 hat.2.2 hlate
  obtain ⟨done, -, hshares, hstats⟩ := (h.exact rfl).books hsound
  simp only [RingBuffer.contents_eq_nil hcount, hidle, Worker.stage, Stage.pushed, Stage.pending, List.map_nil,
    Multiset.coe_nil, zero_add, add_zero] at hshares
  have haccount (i : Fin config.threads) : σ.stats i
      = accountOf config (σ.sequence i) .nothing (done i) (σ.stats i).endNs := by
    have haccount := hstats i
    rwa [show (σ.worker i).stage = .nothing by rw [hidle]; rfl] at haccount
  have hcards : ∑ i, Multiset.card (done i) = ∑ i, σ.sequence i := by
    have hcard := congrArg Multiset.card hshares
    rw [Multiset.card_sum, Multiset.card_sum] at hcard
    rw [← hcard]
    exact Finset.sum_congr rfl fun i _ => by rw [pushedTags, Multiset.card_map, Multiset.card_range]
  have hcompleted : ∑ i, UInt64.ofNat (Multiset.card (done i)) = UInt64.ofNat (∑ i, σ.sequence i) := by
    rw [sum_ofNat, hcards]
  have hchecksum (i : Fin config.threads) : (σ.stats i).checksum = ((done i).map (itemChecksum config)).sum :=
    (congrArg WorkerStats.checksum (haccount i)).trans (UInt64.add_zero _)
  refine ⟨hstart,
    { produced := fun i => ⟨fun hne => ?_, fun hproducer => htimes.rested (by rw [hmain]; rfl) i hproducer (hidle i)⟩
      consumed := ⟨done, hshares.symm, fun i => ⟨congrArg WorkerStats.completed (haccount i), hchecksum i⟩⟩
      completed := ?_
      malloc := ?_
      checksum := ?_
      free := ?_
      calloc := ?_
      realloc := ?_
      elapsed := helapsed
      drained := hcount
      released := h.possession.empty hcount hidle }⟩
  · by_contra hconsumer
    exact hne (h.unproduced i (Bool.eq_false_iff.mpr hconsumer))
  · rw [← hcompleted]
    refine (total_eq_sum WorkerStats.completed).trans ?_
    exact Finset.sum_congr rfl fun i _ => congrArg WorkerStats.completed (haccount i)
  · refine (total_eq_sum WorkerStats.mallocCalls).trans ?_
    rw [Finset.sum_congr rfl fun i _ => congrArg WorkerStats.mallocCalls (haccount i)]
    simp only [accountOf]
    split
    · exact sum_ofNat _
    · exact Finset.sum_const_zero
  · refine (total_eq_sum WorkerStats.checksum).trans ?_
    rw [Finset.sum_congr rfl fun i _ => hchecksum i, hshares, ← sum_checksums]
  · change σ.total WorkerStats.freeCalls = σ.total WorkerStats.mallocCalls
    rw [total_eq_sum, total_eq_sum, Finset.sum_congr rfl fun i _ => congrArg WorkerStats.freeCalls (haccount i),
      Finset.sum_congr rfl fun i _ => congrArg WorkerStats.mallocCalls (haccount i)]
    simp only [accountOf]
    split
    · rw [hcompleted, sum_ofNat]
    · rfl
  · refine (total_eq_sum WorkerStats.callocCalls).trans ?_
    rw [Finset.sum_congr rfl fun i _ => congrArg WorkerStats.callocCalls (haccount i)]
    exact Finset.sum_const_zero
  · refine (total_eq_sum WorkerStats.reallocCalls).trans ?_
    rw [Finset.sum_congr rfl fun i _ => congrArg WorkerStats.reallocCalls (haccount i)]
    exact Finset.sum_const_zero

/-- The report of a run in which no lock has failed. -/
theorem Inv.conclude (h : Inv config true σ) (hrange : State.InRange config) {index : Nat} {success : Bool}
    (hmain : σ.main = .join index success) (hindex : config.threads ≤ index) (o : Outcome config.threads) :
    (Main.returned (σ.conclude config success o)).Sound config
      { σ with main := .returned (σ.conclude config success o) } := by
  unfold State.conclude
  by_cases hlost : success = false ∨ σ.failed = true
  · rw [if_pos hlost]
    exact (by decide : State.workerFailed ≠ State.invalidTimer)
  · rw [not_or, Bool.not_eq_false, Bool.not_eq_true] at hlost
    have hidle (i : Fin config.threads) : σ.worker i = .idle := by
      have hat := h.main
      rw [hmain] at hat
      exact hat.1 hlost.1 i (i.isLt.trans_le hindex)
    obtain ⟨hstart, hcompleted⟩ := h.completed hrange hidle hmain hlost.2 o.trimmed
    rw [if_neg (by simp [hlost.1, hlost.2]), if_neg (UInt64.not_lt.mpr hstart)]
    exact ⟨hcompleted.produced, hcompleted.consumed, hcompleted.completed, hcompleted.malloc, hcompleted.checksum,
      hcompleted.free, hcompleted.calloc, hcompleted.realloc, hcompleted.elapsed, hcompleted.drained,
      hcompleted.released⟩

/-! ### Every step -/

theorem Inv.perform (h : Inv config locked σ) (hrange : State.InRange config) {event : Event config.threads}
    (hlocks : locked = true → event.Locks) (hperform : σ.perform config event = some σ') : Inv config locked σ' := by
  obtain ⟨hstep, hrunning⟩ := perform_step hperform
  have hmain := h.main
  cases hworker : event.ofWorker with
  | true => exact h.worker_step hrange hrunning hlocks hstep hworker
  | false =>
      cases hstep with
      | refused hpc herror => exact h.setMain trivial (fun _ => herror) hrunning fun hnone => by cases hnone
      | prepare hpc =>
          rw [hpc] at hmain
          exact h.setMain hmain (fun _ => trivial) hrunning fun hnone => by cases hnone
      | stop hpc hidle =>
          exact h.setMain trivial (fun _ => (by decide : State.workerFailed ≠ State.invalidTimer)) hrunning
            fun hnone => by cases hnone
      | stopClock hpc hidle hfailed hclock => exact h.stopClock hrange hidle hfailed hrunning _ hclock
      | openPhase hpc hidle hfailed hclock hduration => exact h.openPhase hrange hidle hfailed hrunning hduration
      | joinFails hpc =>
          rw [hpc] at hmain
          exact h.setMain ⟨fun hnone => (by cases hnone), hmain.2⟩ (fun _ => trivial) hrunning fun _ => by rw [hpc]; rfl
      | @join o index success hpc hindex hidle =>
          rw [hpc] at hmain
          refine h.setMain ⟨fun hsuccess i hi => ?_, hmain.2⟩ (fun _ => trivial) hrunning fun _ => by rw [hpc]; rfl
          rcases Nat.lt_succ_iff_lt_or_eq.mp hi with hlt | heq
          · exact hmain.1 hsuccess i hlt
          · exact (Fin.ext heq : i = ⟨index, hindex⟩) ▸ hidle
      | conclude hpc hindex =>
          refine h.setMain trivial (fun hlocked => ?_) hrunning fun hnone => by cases hnone
          subst hlocked
          exact h.conclude hrange hpc hindex _
      | _ => cases hworker

end Hplf.Queue
