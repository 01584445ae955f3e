import HplfMalloc.Proof.QueueInvariant

/-!
# The steps of the queue benchmark

Every transition keeps each part of the invariant.
-/

namespace Hplf.Queue

open Lib Hplf.Bench
open Hplf.Pool (mix64)
open Hplf.Ring (Timed)
open scoped BigOperators

variable {config : BenchmarkConfig} {σ σ' : State config.threads} {i : Fin config.threads} {o : Outcome config.threads}

/-! ### Who holds what -/

section Branches

variable {store : Nat → Option Block} {failed : Bool}

theorem block_branches (threads : Nat) :
    (afterPush threads).block = 0 ∧ (afterItem threads).block = 0 ∧ (afterDrained threads).block = 0 ∧
      (afterRefusal threads).block = 0 ∧ (afterFailure threads).block = 0 ∧ (afterClock threads).block = 0 := by
  by_cases hsolo : threads = 1 <;>
    simp [afterPush, afterItem, afterDrained, afterRefusal, afterFailure, afterClock, hsolo, Worker.block, Worker.item]

theorem at_afterPush (hproducer : isProducer i = true) :
    (afterPush config.threads).At config store failed (isProducer i) := by
  unfold afterPush
  split
  next hsolo => exact fun _ => hsolo
  next => exact hproducer

theorem at_afterItem (hrole : isProducer i = true → config.threads = 1) :
    (afterItem config.threads).At config store failed (isProducer i) := by
  unfold afterItem
  split
  next hsolo => exact isProducer_solo hsolo i
  next => exact hrole

theorem at_afterDrained (hrole : isProducer i = true → config.threads = 1) :
    (afterDrained config.threads).At config store failed (isProducer i) := by
  unfold afterDrained
  split
  next => trivial
  next hsolo => exact Bool.eq_false_iff.mpr fun hproducer => hsolo (hrole hproducer)

theorem at_afterRefusal (hproducer : isProducer i = true) :
    (afterRefusal config.threads).At config store failed (isProducer i) := by
  unfold afterRefusal
  split
  next => trivial
  next => exact hproducer

theorem at_afterFailure (hproducer : isProducer i = true) :
    (afterFailure config.threads).At config store failed (isProducer i) := by
  unfold afterFailure
  split
  next => trivial
  next hsolo => exact ⟨hproducer, hsolo⟩

theorem at_afterClock (hproducer : isProducer i = true) :
    (afterClock config.threads).At config store failed (isProducer i) := by
  unfold afterClock
  split
  next => exact hproducer
  next hsolo => exact ⟨hproducer, hsolo⟩

end Branches

/-- An event of a worker, not of the main thread. -/
def Event.ofWorker {threads : Nat} : Event threads → Bool
  | .main _ => false
  | _ => true

theorem Possession.step (h : Possession config σ) {event : Event config.threads} (hstep : Step config σ event σ')
    (hworker : event.ofWorker = true) : Possession config σ' := by
  obtain ⟨hpush, hitem, hdrained, hrefusal, hfailure, hclock⟩ := block_branches config.threads
  have hblock (i : Fin config.threads) {worker : Worker} (hpc : σ.worker i = worker) :
      (σ.worker i).block = worker.block := by rw [hpc]
  cases hstep with
  | refused | prepare | stop | stopClock | openPhase | joinFails | join | conclude => cases hworker
  | skip hpc | popLockFails hpc | endFailed hpc | readEnd hpc | finish hpc | finishFailed hpc =>
      exact h.move (fun _ => rfl) id rfl rfl (hblock _ hpc).symm trivial
  | unallocated hpc | clockFailed hpc =>
      exact h.move (fun _ => rfl) id rfl rfl (hfailure.trans (hblock _ hpc).symm) (at_afterFailure (h.known hpc))
  | @enter i o hpc =>
      refine h.move (i := i) (fun _ => rfl) id rfl rfl ?_ ?_
      · rw [hblock i hpc]
        split <;> rfl
      · split
        next hproducer => exact hproducer
        next hconsumer => exact fun hproducer => absurd hproducer hconsumer
  | @allocate i o address bytes hpc hhandoff hfresh =>
      exact h.gain (i := i) (fun _ => rfl) id rfl rfl hfresh (hblock i hpc) rfl
        ⟨h.known hpc, hhandoff, address, ⟨(traceEntry config i.val (σ.sequence i)).size, bytes⟩, rfl,
          Function.update_self _ _ _, Nat.le_refl _⟩
  | @plain i o hpc hplain =>
      exact h.move (i := i) (fun _ => rfl) id rfl rfl (hblock i hpc).symm ⟨h.known hpc, .inl ⟨hplain, rfl⟩⟩
  | @fill i o item pointer block hpc haccess =>
      obtain ⟨hpointer, hlive, hsize⟩ := access_eq_some haccess
      have hsingle : item.block = {pointer} := by rw [QueueItem.block, hpointer]
      refine h.write (i := i) (fun _ => rfl) id rfl rfl ((hblock i hpc).trans hsingle) hsingle
        ⟨(h.known hpc).1, .inr ⟨(h.known hpc).2.1, pointer, _, hpointer, Function.update_self _ _ _, hsize, ?_⟩⟩
      exact filled_payloadFill _ _ _
  | fault hfault => exact absurd (h.safe _) hfault
  | @pushWait i o item turn hpc =>
      have hready := h.known hpc
      exact h.move (i := i) (w := .push item .waiting) (fun _ => rfl) id rfl rfl (hblock i hpc).symm hready
  | @pushLockFails i o item hpc | @pushRefused i o item _ hpc =>
      exact h.move (i := i) (w := .refuse item) (fun _ => rfl) id rfl rfl (hblock i hpc).symm (h.known hpc).1
  | @put i o item turn hpc hturn hroom =>
      exact h.put (i := i) (calm_signal_notEmpty o.woken _) id rfl rfl hroom (hblock i hpc) (h.known hpc).2 hpush
        (at_afterPush (h.known hpc).1)
  | @refuse i o item store hpc hstore =>
      exact h.lose (i := i) (fun _ => rfl) id hstore rfl rfl (hblock i hpc) hrefusal (at_afterRefusal (h.known hpc))
  | @clockEarly i o now hpc =>
      exact h.move (i := i) (fun _ => rfl) id rfl rfl (hclock.trans (hblock i hpc).symm) (at_afterClock (h.known hpc))
  | @clockLate i o now hpc =>
      have hproducer := h.known hpc
      exact h.move (i := i) (w := .producerDone) (fun _ => rfl) id rfl rfl (hblock i hpc).symm hproducer
  | @loop i o hpc =>
      exact h.move (i := i) (w := .produce) (fun _ => rfl) id rfl rfl (hblock i hpc).symm (h.known hpc).1
  | @leave i o hpc =>
      exact h.move (i := i) (w := .producerDone) (fun _ => rfl) id rfl rfl (hblock i hpc).symm (h.known hpc).1
  | @abort i o hpc =>
      exact h.move (i := i) (w := .abortBroadcast) (fun _ => rfl) (fun _ => rfl) rfl rfl (hblock i hpc).symm
        ⟨(h.known hpc).1, (h.known hpc).2, rfl⟩
  | @abortBroadcast i o hpc =>
      refine h.move (i := i) (calm_broadcast_both _) id rfl rfl ?_ ?_
      · rw [hblock i hpc]
        split <;> rfl
      · rw [if_pos (h.known hpc).1]
        exact (h.known hpc).1
  | @producerDone i o hpc =>
      exact h.move (i := i) (calm_broadcast_notEmpty _) id rfl rfl (hblock i hpc).symm trivial
  | @popWait i o turn hpc =>
      have hrole := h.known hpc
      exact h.move (i := i) (w := .pop .waiting) (fun _ => rfl) id rfl rfl (hblock i hpc).symm hrole
  | @popDrained i o turn hpc =>
      exact h.move (i := i) (fun _ => rfl) id rfl rfl (hdrained.trans (hblock i hpc).symm)
        (at_afterDrained (h.known hpc))
  | @take i o turn hpc hturn hcount =>
      exact h.take (i := i) (calm_signal_notFull o.woken _) id rfl rfl hcount (hblock i hpc) rfl
        ⟨h.known hpc, h.front_sealed hcount⟩
  | @checkPlain i o item hpc hpointer =>
      refine h.move (i := i) (fun _ => rfl) id rfl rfl ?_ (at_afterItem (h.known hpc).1)
      rw [hitem, hblock i hpc]
      simp only [Worker.block, Worker.item, QueueItem.block, hpointer]
  | checkInvalid hpc haccess hcheck => exact absurd hcheck (h.payloadCheck_ne_none hpc haccess)
  | @checkValid i o item pointer block observed hpc haccess =>
      exact h.move (i := i) (w := .release item true) (fun _ => rfl) id rfl rfl (hblock i hpc).symm
        ⟨(h.known hpc).1, rfl, ((h.known hpc).2.payloadCheck_eq haccess).1⟩
  | @release i o item store hpc hstore =>
      exact h.lose (i := i) (fun _ => rfl) id hstore rfl rfl (hblock i hpc) hitem (at_afterItem (h.known hpc).1)
  | @releaseInvalid i o item store hpc => cases (h.known hpc).2.1
  | @reportFailure i o hpc =>
      exact h.move (i := i) (w := .idle) (fun _ => rfl) (fun _ => rfl) rfl rfl (hblock i hpc).symm trivial
  | @wake i =>
      have hcalm := Worker.calm_wake (σ.worker i)
      refine h.move (i := i) (w := (σ.worker i).wake) (fun _ => rfl) id rfl rfl ?_ ?_
      · rw [← Worker.block_calm, hcalm, Worker.block_calm]
      · rw [← Worker.at_calm, hcalm, Worker.at_calm]
        exact h.worker i

/-! ### Who may still push -/

section Flows

variable {τ : State config.threads} {w : Worker} {locked : Bool}

theorem sum_activity (hworker : ∀ j, (τ.worker j).calm = (Function.update σ.worker i w j).calm) :
    ∑ j, (τ.worker j).activity (isProducer j)
      = ∑ j, (Function.update σ.worker i w j).activity (isProducer j) :=
  Finset.sum_congr rfl fun j _ => apply_of_calm (Worker.activity_calm (isProducer j)) hworker j

/-- A worker goes on without the queue. -/
theorem Flow.move (h : Flow config locked σ)
    (hworker : ∀ j, (τ.worker j).calm = (Function.update σ.worker i w j).calm)
    (hfailed : σ.failed = true → τ.failed = true) (hremaining : τ.producersRemaining = σ.producersRemaining)
    (hcount : τ.queue.count = σ.queue.count)
    (hle : w.activity (isProducer i) ≤ (σ.worker i).activity (isProducer i))
    (hactivity : config.threads ≠ 1 → τ.failed = false →
      w.activity (isProducer i) = (σ.worker i).activity (isProducer i))
    (hpast : τ.failed = false → isProducer i = false → w.past locked = true →
      σ.producersRemaining = 0 ∧ σ.queue.count = 0)
    (hpopping : config.threads = 1 → w.lost τ.failed = false →
      (σ.worker i).lost σ.failed = false ∧ w.popping = (σ.worker i).popping) : Flow config locked τ := by
  have hquiet (hτ : τ.failed = false) : σ.failed = false := by
    rw [Bool.eq_false_iff] at hτ ⊢
    exact fun hσ => hτ (hfailed hσ)
  refine ⟨?_, fun hsolo hτ => ?_, fun hτ j hconsumer hj => ?_, fun hsolo j hkept => ?_⟩
  · rw [sum_activity hworker, hremaining]
    refine le_trans ?_ h.remaining_ge
    obtain ⟨drop, hdrop⟩ := Nat.exists_eq_add_of_le hle
    have hloss := sum_measure_loss (fun j => Worker.activity (isProducer j)) (f := σ.worker) (i := i) (x := w) drop
      hdrop
    exact Nat.le.intro hloss.symm
  · rw [sum_activity hworker, hremaining, h.remaining_eq hsolo (hquiet hτ)]
    exact (sum_measure_same (fun j => Worker.activity (isProducer j)) (hactivity hsolo hτ)).symm
  · rw [hremaining, hcount]
    rw [apply_of_calm (Worker.past_calm locked) hworker] at hj
    by_cases hi : j = i
    · subst hi
      rw [Function.update_self] at hj
      exact hpast hτ hconsumer hj
    · rw [Function.update_of_ne hi] at hj
      exact h.drained (hquiet hτ) j hconsumer hj
  · rw [apply_of_calm (Worker.lost_calm τ.failed) hworker, eq_of_solo hsolo j i, Function.update_self] at hkept
    obtain ⟨hbefore, hsame⟩ := hpopping hsolo hkept
    rw [hcount, apply_of_calm Worker.popping_calm hworker, eq_of_solo hsolo j i, Function.update_self, hsame]
    exact h.solo hsolo i hbefore

/-- A worker goes on to where it counts as before. -/
theorem Flow.stay (h : Flow config locked σ)
    (hworker : ∀ j, (τ.worker j).calm = (Function.update σ.worker i w j).calm)
    (hfailed : σ.failed = true → τ.failed = true) (hremaining : τ.producersRemaining = σ.producersRemaining)
    (hcount : τ.queue.count = σ.queue.count)
    (hactivity : w.activity (isProducer i) = (σ.worker i).activity (isProducer i))
    (hpast : isProducer i = false → w.past locked = true → (σ.worker i).past locked = true)
    (hpopping : config.threads = 1 → w.lost τ.failed = false →
      (σ.worker i).lost σ.failed = false ∧ w.popping = (σ.worker i).popping) : Flow config locked τ := by
  refine h.move hworker hfailed hremaining hcount hactivity.le (fun _ _ => hactivity) (fun hτ hconsumer hnext => ?_)
    hpopping
  refine h.drained ?_ i hconsumer (hpast hconsumer hnext)
  rw [Bool.eq_false_iff] at hτ ⊢
  exact fun hσ => hτ (hfailed hσ)

/-- A worker goes on within its loop. -/
theorem Flow.on (h : Flow config locked σ) {worker : Worker} (hpc : σ.worker i = worker)
    (hworker : ∀ j, (τ.worker j).calm = (Function.update σ.worker i w j).calm)
    (hfailed : σ.failed = true → τ.failed = true) (hremaining : τ.producersRemaining = σ.producersRemaining)
    (hcount : τ.queue.count = σ.queue.count) (hactivity : ∀ producer, w.activity producer = worker.activity producer)
    (hpast : w.past locked = true → worker.past locked = true)
    (hpopping : config.threads = 1 → worker.lost σ.failed = false ∧ w.popping = worker.popping) :
    Flow config locked τ := by
  subst hpc
  exact h.stay hworker hfailed hremaining hcount (hactivity _) (fun _ => hpast) fun hsolo _ => hpopping hsolo

/-- The same, where the worker does not leave its loop. -/
theorem Flow.work (h : Flow config locked σ) {worker : Worker} (hpc : σ.worker i = worker)
    (hworker : ∀ j, (τ.worker j).calm = (Function.update σ.worker i w j).calm)
    (hfailed : σ.failed = true → τ.failed = true) (hremaining : τ.producersRemaining = σ.producersRemaining)
    (hcount : τ.queue.count = σ.queue.count) (hactivity : ∀ producer, w.activity producer = worker.activity producer)
    (hpast : w.past locked = false)
    (hpopping : config.threads = 1 → worker.lost σ.failed = false ∧ w.popping = worker.popping) :
    Flow config locked τ := by
  refine h.on hpc hworker hfailed hremaining hcount hactivity (fun htrue => ?_) hpopping
  rw [hpast] at htrue
  cases htrue

/-- A producer that is at work has not told the consumers that it is done. -/
theorem Flow.remaining_pos (h : Flow config locked σ) (hactive : (σ.worker i).activity (isProducer i) = 1) :
    0 < σ.producersRemaining := by
  have hle : (σ.worker i).activity (isProducer i) ≤ ∑ j, (σ.worker j).activity (isProducer j) :=
    Finset.single_le_sum (f := fun j => (σ.worker j).activity (isProducer j)) (fun _ _ => Nat.zero_le _)
      (Finset.mem_univ i)
  have hge := h.remaining_ge
  omega

end Flows

/-- A single worker never finds the queue empty. -/
theorem Flow.not_solo {locked : Bool} (h : Flow config locked σ) {turn : Turn} (hpc : σ.worker i = .pop turn) (hcount : σ.queue.count = 0) :
    config.threads ≠ 1 := by
  intro hsolo
  have hone := h.solo hsolo i (by rw [hpc]; rfl)
  rw [hpc, hcount] at hone
  cases hone

theorem Flow.step {locked : Bool} (h : Flow config locked σ) (hpossession : Possession config σ)
    {event : Event config.threads} (hlocks : locked = true → event.Locks) (hstep : Step config σ event σ')
    (hworker : event.ofWorker = true) : Flow config locked σ' := by
  -- A failure ends the single worker, and leaves the others at work.
  have hfail {i : Fin config.threads} {worker : Worker} {τ : State config.threads} (hpc : σ.worker i = worker)
      (hproducer : isProducer i = true) (hactive : worker.activity true = 1)
      (hτ : ∀ j, (τ.worker j).calm = (Function.update σ.worker i (afterFailure config.threads) j).calm)
      (hfailed : σ.failed = true → τ.failed = true) (hremaining : τ.producersRemaining = σ.producersRemaining)
      (hcount : τ.queue.count = σ.queue.count) : Flow config locked τ := by
    refine h.move hτ hfailed hremaining hcount ?_ ?_ ?_ ?_
    · rw [hproducer, hpc, hactive]
      exact Worker.activity_le_one _ _
    · intro hsolo _
      rw [hproducer, hpc, hactive, afterFailure, if_neg hsolo]
      rfl
    · intro _ hconsumer
      rw [hproducer] at hconsumer
      cases hconsumer
    · intro hsolo hkept
      rw [afterFailure, if_pos hsolo] at hkept
      cases hkept
  cases hstep with
  | refused | prepare | stop | stopClock | openPhase | joinFails | join | conclude => cases hworker
  | @skip i o hpc hfailed =>
      refine h.move (i := i) (w := .idle) (fun _ => rfl) id rfl rfl ?_ ?_ ?_ ?_
      · rw [hpc]
        cases isProducer i <;> simp [Worker.activity]
      · exact fun _ hquiet => absurd (hfailed.symm.trans hquiet) (by decide)
      · exact fun hquiet => absurd (hfailed.symm.trans hquiet) (by decide)
      · exact fun _ hquiet => absurd (hfailed.symm.trans hquiet) (by decide)
  | @enter i o hpc =>
      cases hproducer : isProducer i with
      | true =>
          rw [if_pos rfl]
          exact h.work hpc (w := .produce) (fun _ => rfl) id rfl rfl (fun _ => rfl) rfl fun _ => ⟨rfl, rfl⟩
      | false =>
          rw [if_neg Bool.false_ne_true]
          refine h.stay (i := i) (w := .pop .fresh) (fun _ => rfl) id rfl rfl (by rw [hpc]; rfl)
            (fun _ hpast => absurd hpast Bool.false_ne_true) fun hsolo _ => ?_
          rw [isProducer_solo hsolo i] at hproducer
          cases hproducer
  | @unallocated i o hpc => exact hfail hpc (hpossession.known hpc) rfl (fun _ => rfl) id rfl rfl
  | @clockFailed i o hpc => exact hfail hpc (hpossession.known hpc) rfl (fun _ => rfl) id rfl rfl
  | fault hfault => exact absurd (hpossession.safe _) hfault
  | allocate hpc | plain hpc | fill hpc | pushLockFails hpc | pushWait hpc | pushRefused hpc | clockLate hpc | loop hpc
  | leave hpc | popWait hpc | checkValid hpc =>
      exact h.work hpc (fun _ => rfl) id rfl rfl (fun _ => rfl) rfl fun _ => ⟨rfl, rfl⟩
  | @put i o item turn hpc =>
      have hproducer := (hpossession.known hpc).1
      have hactivity (hsolo : config.threads ≠ 1) :
          (afterPush config.threads).activity (isProducer i) = (σ.worker i).activity (isProducer i) := by
        rw [hpc, afterPush, if_neg hsolo]
        rfl
      refine ⟨?_, fun hsolo hquiet => ?_, fun hquiet j hconsumer hpast => ?_, fun hsolo j _ => ?_⟩
      · refine le_trans ?_ h.remaining_ge
        rw [sum_activity (σ := σ) (calm_signal_notEmpty o.woken _)]
        refine (sum_measure_same (fun j => Worker.activity (isProducer j)) ?_).le
        by_cases hsolo : config.threads = 1
        · rw [hpc, afterPush, if_pos hsolo]
          rfl
        · exact hactivity hsolo
      · rw [sum_activity (σ := σ) (calm_signal_notEmpty o.woken _)]
        refine (h.remaining_eq hsolo hquiet).trans ?_
        exact (sum_measure_same (fun j => Worker.activity (isProducer j)) (hactivity hsolo)).symm
      · have hpos := h.remaining_pos (i := i) (by rw [hpc, hproducer]; rfl)
        replace hpast :=
          (apply_of_calm (g := σ.worker) (i := i) (Worker.past_calm locked) (calm_signal_notEmpty o.woken _) j).symm.trans hpast
        have hj : j ≠ i := by
          rintro rfl
          rw [hproducer] at hconsumer
          cases hconsumer
        rw [Function.update_of_ne hj] at hpast
        exact absurd (h.drained hquiet j hconsumer hpast).1 hpos.ne'
      · have hcount := h.solo hsolo i (by rw [hpc]; rfl)
        rw [hpc] at hcount
        refine Eq.trans ?_
          (apply_of_calm (g := σ.worker) (i := i) Worker.popping_calm (calm_signal_notEmpty o.woken _) j).symm
        rw [eq_of_solo hsolo j i, Function.update_self, afterPush, if_pos hsolo]
        change σ.queue.count + 1 = 1
        rw [hcount]
        rfl
  | @refuse i o item store hpc =>
      have hproducer : isProducer i = true := hpossession.known hpc
      refine h.move (i := i) (fun _ => rfl) id rfl rfl ?_ ?_ ?_ ?_
      · rw [hproducer, hpc]
        exact Worker.activity_le_one _ _
      · intro hsolo _
        rw [hproducer, hpc, afterRefusal, if_neg hsolo]
        rfl
      · intro _ hconsumer
        rw [hproducer] at hconsumer
        cases hconsumer
      · intro hsolo hkept
        rw [afterRefusal, if_pos hsolo] at hkept
        cases hkept
  | @clockEarly i o now hpc =>
      refine h.stay (i := i) (fun _ => rfl) id rfl rfl ?_ ?_ ?_ <;> rw [hpc]
      · unfold afterClock
        split <;> rfl
      · intro hconsumer
        rw [hpossession.known hpc] at hconsumer
        cases hconsumer
      · intro hsolo _
        rw [afterClock, if_pos hsolo]
        exact ⟨rfl, rfl⟩
  | @abort i o hpc =>
      exact h.work hpc (w := .abortBroadcast) (fun _ => rfl) (fun _ => rfl) rfl rfl (fun _ => rfl) rfl
        fun _ => ⟨rfl, rfl⟩
  | @abortBroadcast i o hpc =>
      rw [if_pos (hpossession.known hpc).1]
      exact h.work hpc (calm_broadcast_both _) id rfl rfl (fun _ => rfl) rfl fun _ => ⟨rfl, rfl⟩
  | @producerDone i o hpc =>
      have hproducer : isProducer i = true := hpossession.known hpc
      have hpos := h.remaining_pos (i := i) (by rw [hpc, hproducer]; rfl)
      have hremaining : (σ.queueProducerDone.goto i .finish).producersRemaining + 1 = σ.producersRemaining := by
        change (if σ.producersRemaining ≠ 0 then σ.producersRemaining - 1 else σ.producersRemaining) + 1 = _
        rw [if_pos hpos.ne']
        omega
      have hsum : ∑ j, (σ.worker j).activity (isProducer j)
          = ∑ j, ((σ.queueProducerDone.goto i .finish).worker j).activity (isProducer j) + 1 := by
        have hsame := sum_activity (σ := σ) (τ := σ.queueProducerDone.goto i .finish) (calm_broadcast_notEmpty .finish)
        rw [hsame]
        exact sum_measure_loss (fun j => Worker.activity (isProducer j)) 1 (by rw [hpc, hproducer]; rfl)
      refine ⟨?_, fun hsolo hquiet => ?_, fun hquiet j hconsumer hpast => ?_, fun hsolo j _ => ?_⟩
      · have hge := h.remaining_ge
        omega
      · have heq := h.remaining_eq hsolo hquiet
        omega
      · replace hpast :=
          (apply_of_calm (g := σ.worker) (i := i) (Worker.past_calm locked) (calm_broadcast_notEmpty _) j).symm.trans hpast
        have hj : j ≠ i := by
          rintro rfl
          rw [hproducer] at hconsumer
          cases hconsumer
        rw [Function.update_of_ne hj] at hpast
        exact absurd (h.drained hquiet j hconsumer hpast).1 hpos.ne'
      · have hcount := h.solo hsolo i (by rw [hpc]; rfl)
        rw [hpc] at hcount
        refine Eq.trans ?_
          (apply_of_calm (g := σ.worker) (i := i) Worker.popping_calm (calm_broadcast_notEmpty _) j).symm
        rw [eq_of_solo hsolo j i, Function.update_self]
        exact hcount
  | @popLockFails i o hpc hlock =>
      refine h.move (i := i) (w := .reportFailure) (fun _ => rfl) id rfl rfl ?_ ?_ ?_ ?_
      · cases isProducer i <;> exact Nat.zero_le _
      · intro hsolo _
        rw [Bool.eq_false_iff.mpr fun hproducer => hsolo (hpossession.known hpc hproducer)]
        rfl
      · intro _ _ hlocked
        rw [show o.lockFails = false from hlocks hlocked] at hlock
        cases hlock
      · intro _ hkept
        cases hkept
  | @popDrained i o turn hpc hcount hend =>
      have hsolo := h.not_solo hpc hcount
      have hconsumer : isProducer i = false :=
        Bool.eq_false_iff.mpr fun hproducer => hsolo (hpossession.known hpc hproducer)
      rw [afterDrained, if_neg hsolo]
      refine h.move (i := i) (w := .readEnd) (fun _ => rfl) id rfl rfl ?_ ?_ ?_ (fun h => absurd h hsolo)
      · rw [hconsumer]
        exact Nat.zero_le _
      · intro _ _
        rw [hconsumer]
        rfl
      · intro hquiet _ _
        exact ⟨hend.resolve_right (by rw [show σ.failed = false from hquiet]; exact Bool.false_ne_true), hcount⟩
  | @take i o turn hpc hturn hcount =>
      refine ⟨?_, fun hsolo hquiet => ?_, fun hquiet j hconsumer hpast => ?_, fun hsolo j _ => ?_⟩
      · rw [sum_activity (σ := σ) (calm_signal_notFull o.woken _)]
        refine le_trans (sum_measure_same (fun j => Worker.activity (isProducer j)) ?_).le h.remaining_ge
        rw [hpc]
        rfl
      · rw [sum_activity (σ := σ) (calm_signal_notFull o.woken _)]
        refine (h.remaining_eq hsolo hquiet).trans ?_
        refine (sum_measure_same (fun j => Worker.activity (isProducer j)) ?_).symm
        rw [hpc]
        rfl
      · replace hpast :=
          (apply_of_calm (g := σ.worker) (i := i) (Worker.past_calm locked) (calm_signal_notFull o.woken _) j).symm.trans hpast
        by_cases hj : j = i
        · subst hj
          rw [Function.update_self] at hpast
          cases hpast
        · rw [Function.update_of_ne hj] at hpast
          exact absurd (h.drained hquiet j hconsumer hpast).2 hcount
      · have hone := h.solo hsolo i (by rw [hpc]; rfl)
        rw [hpc] at hone
        refine Eq.trans ?_
          (apply_of_calm (g := σ.worker) (i := i) Worker.popping_calm (calm_signal_notFull o.woken _) j).symm
        rw [eq_of_solo hsolo j i, Function.update_self]
        change σ.queue.count - 1 = 0
        rw [hone]
        rfl
  | checkPlain hpc | release hpc =>
      refine h.stay (fun _ => rfl) id rfl rfl ?_ ?_ ?_ <;> rw [hpc]
      · unfold afterItem
        split <;> rfl
      · unfold afterItem
        split <;> exact fun _ hpast => absurd hpast Bool.false_ne_true
      · intro hsolo _
        rw [afterItem, if_pos hsolo]
        exact ⟨rfl, rfl⟩
  | checkInvalid hpc haccess hcheck => exact absurd hcheck (hpossession.payloadCheck_ne_none hpc haccess)
  | @releaseInvalid i o item store hpc => cases (hpossession.known hpc).2.1
  | endFailed hpc | readEnd hpc =>
      have hconsumer := hpossession.known hpc
      exact h.stay (fun _ => rfl) id rfl rfl (by rw [hconsumer]; rfl)
        (fun _ _ => by rw [hpc]; rfl) fun _ _ => by rw [hpc]; exact ⟨rfl, rfl⟩
  | finish hpc | finishFailed hpc =>
      exact h.on hpc (fun _ => rfl) id rfl rfl (fun _ => rfl) (fun _ => rfl) fun _ => ⟨rfl, rfl⟩
  | @reportFailure i o hpc =>
      refine h.move (i := i) (w := .idle) (fun _ => rfl) (fun _ => rfl) rfl rfl ?_ ?_ ?_ ?_
      · rw [hpc]
        exact Nat.le_refl _
      · exact fun _ hquiet => by cases hquiet
      · exact fun hquiet => by cases hquiet
      · exact fun _ hkept => by cases hkept
  | @wake i =>
      have hcalm := Worker.calm_wake (σ.worker i)
      refine h.stay (i := i) (w := (σ.worker i).wake) (fun _ => rfl) id rfl rfl ?_ ?_ ?_
      · rw [← Worker.activity_calm, hcalm, Worker.activity_calm]
      · rw [← Worker.past_calm, hcalm, Worker.past_calm]
        exact fun _ => id
      · rw [← Worker.popping_calm, hcalm, Worker.popping_calm, ← Worker.lost_calm, hcalm, Worker.lost_calm]
        exact fun _ hkept => ⟨hkept, rfl⟩

/-! ### Failures -/

theorem refuse_branches (threads : Nat) (item : QueueItem) :
    (afterPush threads).calm ≠ .refuse item ∧ (afterItem threads).calm ≠ .refuse item ∧
      (afterDrained threads).calm ≠ .refuse item ∧ (afterRefusal threads).calm ≠ .refuse item ∧
      (afterFailure threads).calm ≠ .refuse item ∧ (afterClock threads).calm ≠ .refuse item := by
  by_cases hsolo : threads = 1 <;>
    simp [afterPush, afterItem, afterDrained, afterRefusal, afterFailure, afterClock, hsolo, Worker.calm]

/-- The worker that acts, where the other workers are left where they are. -/
theorem Step.exists_update {event : Event config.threads} (hstep : Step config σ event σ')
    (hworker : event.ofWorker = true) :
    ∃ i next, (∀ j, (σ'.worker j).calm = (Function.update σ.worker i next j).calm) ∧
      (event.Locks → ∀ item, next.calm = .refuse item → σ'.failed = true) ∧ σ.worker i ≠ .idle ∧
      ((σ.worker i).doomed = true → (σ.worker i).Safe σ.store → σ'.failed = true) := by
  have hact {i : Fin config.threads} {worker : Worker} {failed : Bool} (hpc : σ.worker i = worker)
      (hbusy : worker ≠ .idle) (hworker : worker.doomed = false) :
      σ.worker i ≠ .idle ∧ ((σ.worker i).doomed = true → (σ.worker i).Safe σ.store → failed = true) := by
    rw [hpc, hworker]
    exact ⟨hbusy, fun hdoomed => absurd hdoomed Bool.false_ne_true⟩
  have hbranches := refuse_branches config.threads
  cases hstep with
  | refused | prepare | stop | stopClock | openPhase | joinFails | join | conclude => cases hworker
  | @fault i o hfault =>
      refine ⟨i, _, fun _ => rfl, fun _ _ hnone => (by cases hnone), fun hidle => hfault ?_,
        fun _ hsafe => absurd hsafe hfault⟩
      rw [hidle]
      trivial
  | @wake i hwaits =>
      refine ⟨i, _, fun _ => rfl, fun _ item hnext => absurd ?_ hwaits, fun hidle => hwaits ?_,
        fun hdoomed => absurd ?_ hwaits⟩
      · rw [Worker.calm_wake] at hnext
        cases hpc : σ.worker i with
        | push | pop =>
            rw [hpc] at hnext
            cases hnext
        | _ => rfl
      · rw [hidle]
        rfl
      · cases hpc : σ.worker i with
        | push | pop =>
            rw [hpc] at hdoomed
            cases hdoomed
        | _ => rfl
  | abort hpc | reportFailure hpc =>
      exact ⟨_, _, fun _ => rfl, fun _ _ _ => rfl, fun hidle => (by rw [hpc] at hidle; cases hidle), fun _ _ => rfl⟩
  | put hpc =>
      exact ⟨_, _, calm_signal_notEmpty _ _, fun _ item hnext => absurd hnext (hbranches item).1,
        hact hpc (by intro hnone; cases hnone) rfl⟩
  | take hpc =>
      exact ⟨_, _, calm_signal_notFull _ _, fun _ _ hnone => (by cases hnone),
        hact hpc (by intro hnone; cases hnone) rfl⟩
  | abortBroadcast hpc =>
      refine ⟨_, _, calm_broadcast_both _, fun _ item hnext => ?_, hact hpc (by intro hnone; cases hnone) rfl⟩
      split at hnext <;> cases hnext
  | producerDone hpc =>
      exact ⟨_, _, calm_broadcast_notEmpty _, fun _ _ hnone => (by cases hnone),
        hact hpc (by intro hnone; cases hnone) rfl⟩
  | enter hpc =>
      refine ⟨_, _, fun _ => rfl, fun _ item hnext => ?_, hact hpc (by intro hnone; cases hnone) rfl⟩
      split at hnext <;> cases hnext
  | pushLockFails hpc hlock =>
      refine ⟨_, _, fun _ => rfl, fun hlocks => ?_, hact hpc (by intro hnone; cases hnone) rfl⟩
      rw [Event.Locks, hlock] at hlocks
      cases hlocks
  | pushRefused hpc hfailed =>
      exact ⟨_, _, fun _ => rfl, fun _ _ _ => hfailed, hact hpc (by intro hnone; cases hnone) rfl⟩
  | unallocated hpc | clockFailed hpc | releaseInvalid hpc =>
      exact ⟨_, _, fun _ => rfl, fun _ item hnext => absurd hnext (hbranches item).2.2.2.2.1,
        hact hpc (by intro hnone; cases hnone) rfl⟩
  | refuse hpc =>
      exact ⟨_, _, fun _ => rfl, fun _ item hnext => absurd hnext (hbranches item).2.2.2.1,
        hact hpc (by intro hnone; cases hnone) rfl⟩
  | clockEarly hpc =>
      exact ⟨_, _, fun _ => rfl, fun _ item hnext => absurd hnext (hbranches item).2.2.2.2.2,
        hact hpc (by intro hnone; cases hnone) rfl⟩
  | popDrained hpc =>
      exact ⟨_, _, fun _ => rfl, fun _ item hnext => absurd hnext (hbranches item).2.2.1,
        hact hpc (by intro hnone; cases hnone) rfl⟩
  | checkPlain hpc | release hpc =>
      exact ⟨_, _, fun _ => rfl, fun _ item hnext => absurd hnext (hbranches item).2.1,
        hact hpc (by intro hnone; cases hnone) rfl⟩
  | skip hpc | allocate hpc | plain hpc | fill hpc | pushWait hpc | clockLate hpc | loop hpc | leave hpc
  | popLockFails hpc | popWait hpc | checkInvalid hpc | checkValid hpc | endFailed hpc | readEnd hpc | finish hpc
  | finishFailed hpc =>
      exact ⟨_, _, fun _ => rfl, fun _ _ hnone => (by cases hnone), hact hpc (by intro hnone; cases hnone) rfl⟩

/-- A worker that waits for a phase does nothing. -/
theorem Step.idle_stays {event : Event config.threads} (hstep : Step config σ event σ')
    (hworker : event.ofWorker = true) {j : Fin config.threads} (hidle : σ.worker j = .idle) : σ'.worker j = .idle := by
  obtain ⟨i, next, hupdate, -, hbusy, -⟩ := hstep.exists_update hworker
  have hj : j ≠ i := by
    rintro rfl
    exact hbusy hidle
  rw [← Worker.calm_eq_idle, hupdate, Function.update_of_ne hj, hidle]
  rfl

theorem Step.failed_mono {event : Event config.threads} (hstep : Step config σ event σ')
    (hfailed : σ.failed = true) : σ'.failed = true := by
  cases hstep <;> first | exact hfailed | rfl

/-- Once something has failed, the run is lost. -/
theorem State.Doomed.step (h : σ.Doomed) (hpossession : Possession config σ) {event : Event config.threads}
    (hstep : Step config σ event σ') (hworker : event.ofWorker = true) : σ'.Doomed := by
  rcases h with hfailed | ⟨j, hj⟩
  · exact .inl (hstep.failed_mono hfailed)
  · obtain ⟨i, next, hupdate, -, -, hlast⟩ := hstep.exists_update hworker
    by_cases hi : j = i
    · subst hi
      exact .inl (hlast hj (hpossession.safe j))
    · refine .inr ⟨j, ?_⟩
      rw [apply_of_calm Worker.doomed_calm hupdate, Function.update_of_ne hi]
      exact hj

/-- As long as no lock fails, an item is not accepted only after a failure. -/
theorem refused_step (h : ∀ i item, σ.worker i = .refuse item → σ.failed = true) {event : Event config.threads}
    (hlocks : event.Locks) (hstep : Step config σ event σ') (hworker : event.ofWorker = true) :
    ∀ i item, σ'.worker i = .refuse item → σ'.failed = true := by
  intro j item hj
  obtain ⟨i, next, hupdate, hrefuse, -⟩ := hstep.exists_update hworker
  have hcalm := hupdate j
  rw [hj] at hcalm
  by_cases hi : j = i
  · subst hi
    rw [Function.update_self] at hcalm
    exact hrefuse hlocks item hcalm.symm
  · rw [Function.update_of_ne hi] at hcalm
    refine hstep.failed_mono (h j item ?_)
    cases hpc : σ.worker j with
    | refuse other =>
        rw [hpc] at hcalm
        exact congrArg Worker.refuse (Worker.refuse.inj hcalm).symm
    | _ =>
        rw [hpc] at hcalm
        cases hcalm

theorem doomed_afterFailure (threads : Nat) : (afterFailure threads).doomed = true := by
  unfold afterFailure
  split <;> rfl

theorem State.doomed_goto (τ : State config.threads) {next : Worker} (hdoomed : next.doomed = true) :
    (τ.goto i next).Doomed := by
  have hself : (τ.goto i next).worker i = next := Function.update_self _ _ _
  exact .inr ⟨i, by rw [hself, hdoomed]⟩

/-! ### Clocks and sequences -/

theorem clocked_step (h : ∀ i, σ.now i ≤ σ.clock) {event : Event config.threads} (hstep : Step config σ event σ')
    (hworker : event.ofWorker = true) : ∀ i, σ'.now i ≤ σ'.clock := by
  have hsee {i : Fin config.threads} {now : UInt64} (hclock : σ.clock ≤ now) (j : Fin config.threads) :
      Function.update σ.now i now j ≤ now := by
    by_cases hj : j = i
    · subst hj
      rw [Function.update_self]
      exact UInt64.le_refl _
    · rw [Function.update_of_ne hj]
      exact UInt64.le_trans (h j) hclock
  cases hstep with
  | refused | prepare | stop | stopClock | openPhase | joinFails | join | conclude => cases hworker
  | clockEarly _ _ hclock | clockLate _ hclock | readEnd _ hclock => exact hsee hclock
  | _ => exact h

theorem unproduced_step (h : ∀ i, isProducer i = false → σ.sequence i = 0) (hpossession : Possession config σ)
    {event : Event config.threads} (hstep : Step config σ event σ') (hworker : event.ofWorker = true) :
    ∀ i, isProducer i = false → σ'.sequence i = 0 := by
  have hadvance {i : Fin config.threads} (hpc : σ.worker i = .produce) (j : Fin config.threads)
      (hconsumer : isProducer j = false) : (σ.advance i).sequence j = 0 := by
    have hj : j ≠ i := by
      rintro rfl
      have hproducer : isProducer j = true := by
        have hat := hpossession.worker j
        rwa [hpc] at hat
      rw [hproducer] at hconsumer
      cases hconsumer
    exact (Function.update_of_ne hj _ _).trans (h j hconsumer)
  cases hstep with
  | refused | prepare | stop | stopClock | openPhase | joinFails | join | conclude => cases hworker
  | unallocated hpc | allocate hpc | plain hpc => exact hadvance hpc
  | _ => exact h

/-! ### The books -/

section Balances

variable {τ : State config.threads} {w : Worker}

theorem balanced_of (hworker : ∀ j, (τ.worker j).calm = (Function.update σ.worker i w j).calm)
    (hbooks : Books config τ.queue.contents τ.sequence τ.stats
      (Function.update (fun j => (σ.worker j).stage) i w.stage)) : τ.Balanced := by
  have hstage : (fun j => (τ.worker j).stage) = Function.update (fun j => (σ.worker j).stage) i w.stage := by
    funext j
    rw [apply_of_calm Worker.stage_calm hworker]
    exact Function.apply_update (fun _ => Worker.stage) σ.worker i w j
  rw [State.Balanced, hstage]
  exact hbooks

/-- A worker goes on with the item it has, if any. -/
theorem balanced_same (h : σ.Balanced) (hworker : ∀ j, (τ.worker j).calm = (Function.update σ.worker i w j).calm)
    (hcontents : τ.queue.contents = σ.queue.contents) (hsequence : τ.sequence = σ.sequence)
    (hstats : τ.stats = σ.stats) (hstage : w.stage = (σ.worker i).stage) : τ.Balanced := by
  apply balanced_of hworker
  rw [hcontents, hsequence, hstats, hstage]
  have hself : Function.update (fun j => (σ.worker j).stage) i (σ.worker i).stage = fun j => (σ.worker j).stage :=
    Function.update_eq_self i _
  rw [hself]
  exact h

end Balances

theorem stage_branches (threads : Nat) :
    (afterPush threads).stage = .nothing ∧ (afterItem threads).stage = .nothing ∧
      (afterDrained threads).stage = .nothing ∧ (afterClock threads).stage = .nothing := by
  by_cases hsolo : threads = 1 <;> simp [afterPush, afterItem, afterDrained, afterClock, hsolo, Worker.stage]

theorem State.Balanced.step (h : σ.Balanced) (hpossession : Possession config σ)
    (hrefused : ∀ i item, σ.worker i = .refuse item → σ.failed = true) {event : Event config.threads}
    (hlocks : event.Locks) (hstep : Step config σ event σ') (hworker : event.ofWorker = true) (hsound : ¬ σ'.Doomed) :
    σ'.Balanced := by
  obtain ⟨hpush, hitem, hdrained, hclock⟩ := stage_branches config.threads
  have hquiet : σ'.failed = false := Bool.eq_false_iff.mpr fun hfailed => hsound (.inl hfailed)
  have hstage (i : Fin config.threads) {worker : Worker} (hpc : σ.worker i = worker) :
      (σ.worker i).stage = worker.stage := by rw [hpc]
  have hlost (hfailed : σ.failed = true) : σ'.Balanced := by
    rw [hstep.failed_mono hfailed] at hquiet
    cases hquiet
  cases hstep with
  | refused | prepare | stop | stopClock | openPhase | joinFails | join | conclude => cases hworker
  | skip _ hfailed | pushRefused _ hfailed | leave _ hfailed | finishFailed _ hfailed => exact hlost hfailed
  | refuse hpc => exact hlost (hrefused _ _ hpc)
  | pushLockFails _ hlock | popLockFails _ hlock =>
      rw [Event.Locks, hlock] at hlocks
      cases hlocks
  | abortBroadcast hpc => exact hlost (hpossession.known hpc).2.2
  | abort | reportFailure => cases hquiet
  | unallocated | clockFailed | releaseInvalid =>
      exact absurd (State.doomed_goto _ (doomed_afterFailure config.threads)) hsound
  | endFailed => exact absurd (State.doomed_goto _ rfl) hsound
  | fault hfault => exact absurd (hpossession.safe _) hfault
  | @enter i o hpc =>
      refine balanced_same h (i := i) (fun _ => rfl) rfl rfl rfl ?_
      rw [hstage i hpc]
      split <;> rfl
  | @allocate i o address bytes hpc hhandoff =>
      exact balanced_of (i := i) (fun _ => rfl) (Books.produceBlock h hhandoff (hstage i hpc))
  | @plain i o hpc hplain => exact balanced_of (i := i) (fun _ => rfl) (Books.producePlain h hplain (hstage i hpc))
  | fill hpc | pushWait hpc | clockLate hpc | loop hpc | popWait hpc | readEnd hpc =>
      exact balanced_same h (fun _ => rfl) rfl rfl rfl (hstage _ hpc).symm
  | @put i o item turn hpc hturn hroom =>
      have hlt : σ.queue.count < σ.queue.capacity := lt_of_le_of_ne hpossession.fits.count_le hroom
      refine balanced_of (i := i) (calm_signal_notEmpty o.woken _) ?_
      change Books config (σ.queue.push item).contents σ.sequence σ.stats _
      rw [hpush, RingBuffer.contents_push hpossession.fits hlt]
      exact Books.put h (hstage i hpc)
  | @clockEarly i o now hpc =>
      exact balanced_same h (i := i) (fun _ => rfl) rfl rfl rfl (hclock.trans (hstage i hpc).symm)
  | @producerDone i o hpc =>
      exact balanced_same h (i := i) (calm_broadcast_notEmpty .finish) rfl rfl rfl (hstage i hpc).symm
  | @popDrained i o turn hpc =>
      exact balanced_same h (i := i) (fun _ => rfl) rfl rfl rfl (hdrained.trans (hstage i hpc).symm)
  | @take i o turn hpc hturn hcount =>
      have hbefore : Books config σ.queue.contents σ.sequence σ.stats fun j => (σ.worker j).stage := h
      rw [RingBuffer.contents_pop hpossession.fits hcount] at hbefore
      exact balanced_of (i := i) (calm_signal_notFull o.woken _) (hbefore.take (hstage i hpc))
  | @checkPlain i o item hpc hpointer =>
      have hplain : config.workload ≠ .handoff := by
        rcases (hpossession.known hpc).2 with ⟨hplain, -⟩ | ⟨-, pointer, block, hsome, -⟩
        · exact hplain
        · rw [hpointer] at hsome
          cases hsome
      refine balanced_of (i := i) (fun _ => rfl) ?_
      rw [hitem]
      exact Books.consumePlain h hplain (hstage i hpc)
  | checkInvalid hpc haccess hcheck => exact absurd hcheck (hpossession.payloadCheck_ne_none hpc haccess)
  | @checkValid i o item pointer block observed hpc haccess hcheck =>
      obtain ⟨hhandoff, hvalid⟩ := (hpossession.known hpc).2.payloadCheck_eq haccess
      cases Option.some.inj (hcheck.symm.trans hvalid)
      exact balanced_of (i := i) (fun _ => rfl) (Books.check h hhandoff (hstage i hpc))
  | @release i o item store hpc =>
      refine balanced_of (i := i) (fun _ => rfl) ?_
      rw [hitem]
      exact Books.consumeBlock h (hpossession.known hpc).2.2 (hstage i hpc)
  | @finish i o hpc =>
      have hself : Function.update (fun j => (σ.worker j).stage) i Worker.idle.stage = fun j => (σ.worker j).stage := by
        rw [show Worker.idle.stage = (σ.worker i).stage from (hstage i hpc).symm]
        exact Function.update_eq_self i _
      refine balanced_of (σ := σ) (i := i) (w := .idle) (fun _ => rfl) ?_
      rw [hself]
      exact Books.setEnd h (σ.now i)
  | @wake i =>
      refine balanced_same h (i := i) (w := (σ.worker i).wake) (fun _ => rfl) rfl rfl rfl ?_
      rw [← Worker.stage_calm, Worker.calm_wake, Worker.stage_calm]

/-! ### The times -/

section Times

variable {τ : State config.threads} {w : Worker}

/-- A worker goes on, with its own times and sequence shown. -/
theorem Times.act (h : Times σ) (hworker : ∀ j, (τ.worker j).calm = (Function.update σ.worker i w j).calm)
    (hdeadline : τ.deadlineNs = σ.deadlineNs) (hmain : τ.main = σ.main) (hnow : ∀ j, j ≠ i → τ.now j = σ.now j)
    (hstats : ∀ j, j ≠ i → τ.stats j = σ.stats j) (hsequence : ∀ j, j ≠ i → τ.sequence j = σ.sequence j)
    (hlate : w.ended = true → σ.deadlineNs ≤ τ.now i)
    (hstamped : w = .idle → (τ.stats i).endNs = τ.now i)
    (hbegun : isProducer i = true → w.begun = true ∨ w = .idle → τ.sequence i ≠ 0) : Times τ where
  late j hj := by
    rw [apply_of_calm Worker.ended_calm hworker] at hj
    rw [hdeadline]
    by_cases hi : j = i
    · subst hi
      rw [Function.update_self] at hj
      exact hlate hj
    · rw [Function.update_of_ne hi] at hj
      rw [hnow j hi]
      exact h.late j hj
  stamped j hj := by
    rw [← Worker.calm_eq_idle, hworker, Worker.calm_eq_idle] at hj
    by_cases hi : j = i
    · subst hi
      rw [Function.update_self] at hj
      exact hstamped hj
    · rw [Function.update_of_ne hi] at hj
      rw [hstats j hi, hnow j hi]
      exact h.stamped j hj
  begun j hproducer hj := by
    rw [apply_of_calm Worker.begun_calm hworker] at hj
    by_cases hi : j = i
    · subst hi
      rw [Function.update_self] at hj
      exact hbegun hproducer (.inl hj)
    · rw [Function.update_of_ne hi] at hj
      rw [hsequence j hi]
      exact h.begun j hproducer hj
  rested hopened j hproducer hj := by
    rw [← Worker.calm_eq_idle, hworker, Worker.calm_eq_idle] at hj
    by_cases hi : j = i
    · subst hi
      rw [Function.update_self] at hj
      exact hbegun hproducer (.inr hj)
    · rw [Function.update_of_ne hi] at hj
      rw [hsequence j hi]
      exact h.rested (hmain ▸ hopened) j hproducer hj

/-- A worker goes on within its loop. -/
theorem Times.on (h : Times σ) {worker : Worker} (hpc : σ.worker i = worker)
    (hworker : ∀ j, (τ.worker j).calm = (Function.update σ.worker i w j).calm)
    (hdeadline : τ.deadlineNs = σ.deadlineNs) (hmain : τ.main = σ.main) (hnow : ∀ j, j ≠ i → τ.now j = σ.now j)
    (hstats : ∀ j, j ≠ i → τ.stats j = σ.stats j) (hsequence : τ.sequence = σ.sequence)
    (hended : w.ended = false) (hbegun : w.begun = true → worker.begun = true) : Times τ := by
  have hidle : w ≠ .idle := by
    rintro rfl
    cases hended
  refine h.act hworker hdeadline hmain hnow hstats (fun j _ => by rw [hsequence]) (fun hlate => ?_)
    (fun heq => absurd heq hidle) fun hproducer hnext => ?_
  · rw [hended] at hlate
    cases hlate
  · rw [hsequence]
    refine h.begun i hproducer ?_
    rw [hpc]
    exact hbegun (hnext.resolve_right hidle)

theorem update_ne {β : Type*} {f : Fin config.threads → β} {x : β} (j : Fin config.threads) (hj : j ≠ i) :
    Function.update f i x j = f j :=
  Function.update_of_ne hj _ _

end Times

theorem ended_branches (threads : Nat) :
    (afterPush threads).ended = false ∧ (afterItem threads).ended = false ∧ (afterDrained threads).ended = false ∧
      (afterClock threads).ended = false := by
  by_cases hsolo : threads = 1 <;> simp [afterPush, afterItem, afterDrained, afterClock, hsolo, Worker.ended]

/-- When the queue is drained the producers have seen the deadline. -/
theorem Times.late_of_drained (h : Times σ) (hrange : State.InRange config) (hflow : Flow config true σ)
    (hclocked : ∀ i, σ.now i ≤ σ.clock) (hsound : ¬ σ.Doomed) (hremaining : σ.producersRemaining = 0) :
    σ.deadlineNs ≤ σ.clock := by
  have hproducer : isProducer (⟨0, hrange.1⟩ : Fin config.threads) = true :=
    decide_eq_true (producerCount_pos hrange.1)
  have hnone : (σ.worker ⟨0, hrange.1⟩).activity true ≠ 1 := by
    intro hactive
    have hpos := hflow.remaining_pos (i := ⟨0, hrange.1⟩) (hproducer ▸ hactive)
    omega
  have hended : (σ.worker ⟨0, hrange.1⟩).ended = true := by
    cases hpc : σ.worker ⟨0, hrange.1⟩ with
    | idle | finish => rfl
    | reportFailure => exact absurd (.inr ⟨_, by rw [hpc]; rfl⟩) hsound
    | _ =>
        rw [hpc] at hnone
        exact absurd rfl hnone
  exact UInt64.le_trans (h.late _ hended) (hclocked _)

theorem Times.step (h : Times σ) (hrange : State.InRange config) (hpossession : Possession config σ)
    (hflow : Flow config true σ) (hclocked : ∀ i, σ.now i ≤ σ.clock)
    (hrefused : ∀ i item, σ.worker i = .refuse item → σ.failed = true) (hbefore : ¬ σ.Doomed)
    {event : Event config.threads} (hlocks : event.Locks) (hstep : Step config σ event σ')
    (hworker : event.ofWorker = true) (hsound : ¬ σ'.Doomed) : Times σ' := by
  obtain ⟨hpush, hitem, hdrained, hclock⟩ := ended_branches config.threads
  have hquiet : σ'.failed = false := Bool.eq_false_iff.mpr fun hfailed => hsound (.inl hfailed)
  have hlost (hfailed : σ.failed = true) : Times σ' := by
    rw [hstep.failed_mono hfailed] at hquiet
    cases hquiet
  have hself (f : Fin config.threads → Nat) (i : Fin config.threads) : Function.update f i (f i + 1) i ≠ 0 := by
    rw [Function.update_self]
    exact Nat.succ_ne_zero _
  cases hstep with
  | refused | prepare | stop | stopClock | openPhase | joinFails | join | conclude => cases hworker
  | skip _ hfailed | pushRefused _ hfailed | leave _ hfailed | finishFailed _ hfailed => exact hlost hfailed
  | refuse hpc => exact hlost (hrefused _ _ hpc)
  | pushLockFails _ hlock | popLockFails _ hlock =>
      rw [Event.Locks, hlock] at hlocks
      cases hlocks
  | abortBroadcast hpc => exact hlost (hpossession.known hpc).2.2
  | abort | reportFailure => cases hquiet
  | unallocated | clockFailed | releaseInvalid =>
      exact absurd (State.doomed_goto _ (doomed_afterFailure config.threads)) hsound
  | endFailed => exact absurd (State.doomed_goto _ rfl) hsound
  | fault hfault => exact absurd (hpossession.safe _) hfault
  | @enter i o hpc =>
      refine h.act (i := i) (fun _ => rfl) rfl rfl (fun _ _ => rfl) (fun _ _ => rfl) (fun _ _ => rfl) ?_ ?_ ?_
      · split <;> exact fun hended => absurd hended Bool.false_ne_true
      · split <;> (intro hnone; cases hnone)
      · intro hproducer
        rw [if_pos hproducer]
        rintro (hbegun | hidle)
        · cases hbegun
        · cases hidle
  | @allocate i o address bytes hpc =>
      exact h.act (i := i) (fun _ => rfl) rfl rfl (fun _ _ => rfl) update_ne update_ne
        (fun hended => absurd hended Bool.false_ne_true) (by intro hnone; cases hnone) fun _ _ => hself σ.sequence i
  | @plain i o hpc =>
      exact h.act (i := i) (fun _ => rfl) rfl rfl (fun _ _ => rfl) (fun _ _ => rfl) update_ne
        (fun hended => absurd hended Bool.false_ne_true) (by intro hnone; cases hnone) fun _ _ => hself σ.sequence i
  | fill hpc | pushWait hpc | loop hpc | popWait hpc =>
      exact h.on hpc (fun _ => rfl) rfl rfl (fun _ _ => rfl) (fun _ _ => rfl) rfl rfl fun _ => rfl
  | checkPlain hpc | release hpc =>
      exact h.on hpc (fun _ => rfl) rfl rfl (fun _ _ => rfl) update_ne rfl hitem fun _ => rfl
  | @put i o item turn hpc =>
      exact h.on hpc (calm_signal_notEmpty o.woken _) rfl rfl (fun _ _ => rfl) (fun _ _ => rfl) rfl hpush fun _ => rfl
  | @clockEarly i o now hpc =>
      exact h.on hpc (fun _ => rfl) rfl rfl update_ne (fun _ _ => rfl) rfl hclock fun _ => rfl
  | @clockLate i o now hpc hclock hlate =>
      refine h.act (i := i) (w := .producerDone) (fun _ => rfl) rfl rfl update_ne (fun _ _ => rfl) (fun _ _ => rfl)
        (fun _ => ?_) (by intro hnone; cases hnone) fun hproducer _ => h.begun i hproducer (by rw [hpc]; rfl)
      exact UInt64.le_trans hlate (UInt64.le_of_eq (Function.update_self i now σ.now).symm)
  | @producerDone i o hpc =>
      exact h.act (i := i) (calm_broadcast_notEmpty .finish) rfl rfl (fun _ _ => rfl) (fun _ _ => rfl) (fun _ _ => rfl)
        (fun _ => h.late i (by rw [hpc]; rfl)) (by intro hnone; cases hnone)
        fun hproducer _ => h.begun i hproducer (by rw [hpc]; rfl)
  | @popDrained i o turn hpc =>
      exact h.on hpc (fun _ => rfl) rfl rfl (fun _ _ => rfl) (fun _ _ => rfl) rfl hdrained fun _ => rfl
  | @take i o turn hpc =>
      exact h.on hpc (calm_signal_notFull o.woken _) rfl rfl (fun _ _ => rfl) (fun _ _ => rfl) rfl rfl fun _ => rfl
  | checkInvalid hpc haccess hcheck => exact absurd hcheck (hpossession.payloadCheck_ne_none hpc haccess)
  | @checkValid i o item pointer block observed hpc =>
      exact h.on hpc (w := .release item true) (fun _ => rfl) rfl rfl (fun _ _ => rfl) update_ne rfl rfl fun _ => rfl
  | @readEnd i o now hpc hclock =>
      have hconsumer : isProducer i = false := hpossession.known hpc
      have hremaining := (hflow.drained hquiet i hconsumer (by rw [hpc]; rfl)).1
      refine h.act (i := i) (w := .finish) (fun _ => rfl) rfl rfl update_ne (fun _ _ => rfl) (fun _ _ => rfl)
        (fun _ => ?_) (by intro hnone; cases hnone) fun hproducer => ?_
      · have hlate := UInt64.le_trans (h.late_of_drained hrange hflow hclocked hbefore hremaining) hclock
        exact UInt64.le_trans hlate (UInt64.le_of_eq (Function.update_self i now σ.now).symm)
      · rw [hconsumer] at hproducer
        cases hproducer
  | @finish i o hpc =>
      refine h.act (i := i) (w := .idle) (fun _ => rfl) rfl rfl (fun _ _ => rfl) update_ne (fun _ _ => rfl)
        (fun _ => h.late i (by rw [hpc]; rfl)) (fun _ => ?_) fun hproducer _ => h.begun i hproducer (by rw [hpc]; rfl)
      exact congrArg WorkerStats.endNs (Function.update_self i { σ.stats i with endNs := σ.now i } σ.stats)
  | @wake i hwaits =>
      have hcalm := Worker.calm_wake (σ.worker i)
      refine h.on (i := i) rfl (w := (σ.worker i).wake) (fun _ => rfl) rfl rfl (fun _ _ => rfl) (fun _ _ => rfl) rfl
        ?_ ?_
      · cases hpc : σ.worker i with
        | push item turn => cases turn <;> rfl
        | pop turn => cases turn <;> rfl
        | _ =>
            rw [hpc] at hwaits
            exact absurd rfl hwaits
      · rw [← Worker.begun_calm, hcalm, Worker.begun_calm]
        exact id

end Hplf.Queue
