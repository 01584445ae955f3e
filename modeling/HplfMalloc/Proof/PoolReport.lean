import HplfMalloc.Proof.PoolInvariant
import Mathlib.Algebra.BigOperators.Fin

/-!
# The report of the worker pool

With all workers joined, the blocks that are left are those in the queue, and the sums over the workers are those
of the books.
-/

namespace Hplf.Pool

open Lib
open scoped BigOperators

/-! ### Loops -/

theorem sum_map_filter {α M : Type*} [AddCommMonoid M] (p : α → Bool) (f : α → M) (l : List α)
    (hzero : ∀ x ∈ l, p x = false → f x = 0) : ((l.filter p).map f).sum = (l.map f).sum := by
  induction l with
  | nil => rfl
  | cons x l ih =>
      have hrest := ih fun y hy => hzero y (List.mem_cons_of_mem _ hy)
      cases hp : p x with
      | true => rw [List.filter_cons_of_pos hp, List.map_cons, List.map_cons, List.sum_cons, List.sum_cons, hrest]
      | false =>
          rw [List.filter_cons_of_neg (by rw [hp]; exact Bool.false_ne_true), List.map_cons, List.sum_cons, hrest,
            hzero x List.mem_cons_self hp, zero_add]

theorem length_filter_range {p : Nat → Bool} {k : Nat} (hp : ∀ id, p id = true ↔ k ≤ id) (n : Nat) :
    ((List.range n).filter p).length = n - k := by
  induction n with
  | zero => rw [Nat.zero_sub]; rfl
  | succ n ih =>
      rw [List.range_succ, List.filter_append, List.length_append, ih]
      by_cases hk : k ≤ n
      · rw [List.filter_cons_of_pos ((hp n).mpr hk)]
        simp only [List.filter_nil, List.length_cons, List.length_nil]
        omega
      · rw [List.filter_cons_of_neg (fun h => hk ((hp n).mp h))]
        simp only [List.filter_nil, List.length_nil]
        omega

/-- `queue_release_remaining` frees each block of the queue once. -/
theorem releaseRemaining_spec {ring : RingBuffer (Option Nat)} {store : Nat → Option Job} {queue : List Nat}
    (hfits : ring.Fits) (hcontents : ring.contents = queue.map some) (hnodup : queue.Nodup)
    (hlive : ∀ job, job ∈ queue ↔ (store job).isSome = true) :
    ∃ ring' store', State.releaseRemaining ring.count ring store = some (ring', store') ∧
      ∀ job, store' job = none := by
  induction queue generalizing ring store with
  | nil =>
      have hcount : ring.count = 0 := by rw [← RingBuffer.length_contents, hcontents]; rfl
      rw [hcount]
      refine ⟨ring, store, rfl, fun job => ?_⟩
      have hdead := (hlive job).not.mp List.not_mem_nil
      simpa using hdead
  | cons job queue ih =>
      have hlength : ring.count = queue.length + 1 := by rw [← RingBuffer.length_contents, hcontents]; simp
      have hcount : ring.count ≠ 0 := by omega
      rw [RingBuffer.contents_pop hfits hcount, List.map_cons] at hcontents
      obtain ⟨hfront, hrest⟩ := List.cons.inj hcontents
      have hjob : (store job).isSome = true := (hlive job).mp List.mem_cons_self
      have hnot : job ∉ queue := (List.nodup_cons.mp hnodup).1
      have hremaining : ∀ other, other ∈ queue ↔ (Function.update store job none other).isSome = true := by
        intro other
        by_cases heq : other = job
        · subst heq
          simp [hnot]
        · rw [Function.update_of_ne heq, ← hlive other, List.mem_cons]
          exact ⟨.inr, fun h => h.resolve_left heq⟩
      obtain ⟨ring', store', hrelease, hnone⟩ := ih (hfits.setFront none).pop
        ((RingBuffer.contents_setFront_pop hfits none).trans hrest) (List.nodup_cons.mp hnodup).2 hremaining
      refine ⟨ring', store', ?_, hnone⟩
      have hpop : ((ring.setFront none).pop).count = queue.length := by
        simp only [RingBuffer.pop, RingBuffer.setFront]
        omega
      rw [hpop] at hrelease
      rw [hlength, State.releaseRemaining, hfront]
      simp only [State.deallocate, hjob, if_true]
      exact hrelease

variable {config : Configuration} {σ : State config.workers}

/-- The books once all workers have exited. -/
theorem Books.settled (h : Books config σ.view) (hidle : ∀ i, (σ.worker i).carry = .nothing)
    (hmain : σ.main.parcel = .nothing) :
    ∃ (queue : List Nat) (done : Fin config.workers → Multiset Nat), queue.Nodup ∧
      (∀ job, job ∈ queue ↔ (σ.store job).isSome = true) ∧ σ.queue.ring.Fits ∧
      σ.queue.ring.contents = queue.map some ∧
      ∑ i, done i = Multiset.range (σ.jobsProduced - queue.length) ∧ queue.length ≤ σ.jobsProduced ∧
      (∀ id, σ.seen id = true ↔ id < σ.jobsProduced - queue.length) ∧
      (∀ i, (σ.result i).consumed = Multiset.card (done i) ∧ (σ.result i).duplicateJobs = 0 ∧
        (σ.result i).invalidJobs = 0 ∧ (σ.result i).checksum = ((done i).map (taskChecksum config)).sum) ∧
      σ.expectedChecksum = ((Multiset.range σ.jobsProduced).map (taskChecksum config)).sum := by
  obtain ⟨L, hpos, hacc⟩ := h
  have hcarry (i : Fin config.workers) : σ.view.carry i = .nothing := hidle i
  have howned : σ.view.owned L.queue = L.queue := by
    have hzero : ∑ i, (σ.view.carry i).block = 0 :=
      Finset.sum_eq_zero fun i _ => by rw [hcarry i]; rfl
    have hparcel : σ.view.parcel = .nothing := hmain
    rw [View.owned, hzero, hparcel]
    simp only [Parcel.block, add_zero]
  have hpopped : L.popped = σ.jobsProduced - L.queue.length := by
    have hproduced : L.popped + L.queue.length = σ.jobsProduced := hacc.produced
    omega
  have hlength : L.queue.length ≤ σ.jobsProduced := by
    have hproduced : L.popped + L.queue.length = σ.jobsProduced := hacc.produced
    omega
  refine ⟨L.queue, L.done, Multiset.coe_nodup.mp (howned ▸ hpos.nodup), fun job => ?_, hacc.fits, hacc.contents,
    ?_, hlength, fun id => ?_, fun i => ?_, hacc.expected⟩
  · rw [← Multiset.mem_coe, ← howned]
    exact hpos.live job
  · rw [← hpopped, ← hacc.shares]
    refine Finset.sum_congr rfl fun i _ => ?_
    rw [View.share, View.pending, hcarry i]
    exact (add_zero _).symm
  · rw [← hpopped]
    refine (hacc.seen id).trans ⟨And.left, fun hlt => ⟨hlt, fun i job hjob => ?_⟩⟩
    rw [hcarry i] at hjob
    cases hjob
  · have hresult := hacc.result i
    exact ⟨congrArg WorkerResult.consumed hresult, congrArg WorkerResult.duplicateJobs hresult,
      congrArg WorkerResult.invalidJobs hresult, congrArg WorkerResult.checksum hresult⟩

theorem sum_started {M : Type*} [AddCommMonoid M] (f : Fin config.workers → M)
    (hzero : ∀ i, σ.workersStarted ≤ i.val → f i = 0) : (σ.started.map f).sum = ∑ i, f i := by
  rw [Fin.sum_univ_def]
  apply sum_map_filter
  intro i _ hnot
  exact hzero i (by simpa using hnot)

theorem map_total_sum (done : Fin config.workers → Multiset Nat) (f : Nat → UInt64) :
    ∑ i, ((done i).map f).sum = ((∑ i, done i).map f).sum :=
  (map_sum (Multiset.sumAddMonoidHom.comp (Multiset.mapAddMonoidHom f)) done Finset.univ).symm

theorem Inv.exited_or_absent (h : Inv config σ) (hpc : σ.main = .report) (hjoined : σ.allJoined = true)
    (i : Fin config.workers) : σ.worker i = .exited ∨ σ.worker i = .absent := by
  have hmain := h.main
  rw [hpc] at hmain
  by_cases hi : i.val < σ.workersStarted
  · exact .inl (hmain.2 hjoined i hi)
  · exact .inr ((h.absent i).mpr (Nat.not_lt.mp hi))

/-- The report is right, and `main` exits with the code of its status. -/
theorem Inv.reportRun (h : Inv config σ) (hpc : σ.main = .report) (hjoined : σ.allJoined = true) :
    σ.reportRun.main = .exited (statusExitCode σ.reportRun.status) ∧ Accounted σ.reportRun := by
  have hcarry (i : Fin config.workers) : (σ.worker i).carry = .nothing := by
    rcases h.exited_or_absent hpc hjoined i with hi | hi <;> rw [hi] <;> rfl
  obtain ⟨queue, done, hnodup, hlive, hfits, hcontents, hdone, hlength, hseen, hresult, hexpected⟩ :=
    (h.books (by rw [hpc]; rfl)).settled hcarry (by rw [hpc]; rfl)
  obtain ⟨ring, store, hrelease, hnone⟩ := releaseRemaining_spec hfits hcontents hnodup hlive
  have hcount : σ.queue.ring.count = queue.length := by
    rw [← RingBuffer.length_contents, hcontents, List.length_map]
  -- A worker that was not created has consumed nothing, because nothing was produced then.
  have hidle (i : Fin config.workers) (hi : σ.workersStarted ≤ i.val) : done i = 0 := by
    have hzero : σ.jobsProduced = 0 := by
      by_contra hne
      have hall := h.produced_started hne
      exact absurd (Nat.lt_of_lt_of_eq i.isLt hall.symm) (Nat.not_lt.mpr hi)
    rw [hzero, Nat.zero_sub, Multiset.range_zero] at hdone
    exact Multiset.le_zero.mp (hdone ▸ le_total done i)
  have hconsumed : (σ.tally queue.length).jobsConsumed = σ.jobsProduced - queue.length := by
    calc (σ.started.map fun i => (σ.result i).consumed).sum
        = ∑ i, (σ.result i).consumed :=
          sum_started _ fun i hi => by rw [(hresult i).1, hidle i hi, Multiset.card_zero]
      _ = Multiset.card (∑ i, done i) := by
          rw [Multiset.card_sum]
          exact Finset.sum_congr rfl fun i _ => (hresult i).1
      _ = σ.jobsProduced - queue.length := by rw [hdone, Multiset.card_range]
  have hduplicate : (σ.tally queue.length).duplicateJobs = 0 := by
    calc (σ.started.map fun i => (σ.result i).duplicateJobs).sum
        = ∑ i, (σ.result i).duplicateJobs := sum_started _ fun i _ => (hresult i).2.1
      _ = 0 := Finset.sum_eq_zero fun i _ => (hresult i).2.1
  have hinvalid : (σ.tally queue.length).invalidJobs = 0 := by
    calc (σ.started.map fun i => (σ.result i).invalidJobs).sum
        = ∑ i, (σ.result i).invalidJobs := sum_started _ fun i _ => (hresult i).2.2.1
      _ = 0 := Finset.sum_eq_zero fun i _ => (hresult i).2.2.1
  have hmissing : (σ.tally queue.length).missingJobs = queue.length := by
    have hp (id : Nat) : (!σ.seen id) = true ↔ σ.jobsProduced - queue.length ≤ id := by
      rw [Bool.not_eq_true', ← Bool.not_eq_true, hseen id, Nat.not_lt]
    calc ((List.range σ.jobsProduced).filter fun id => !σ.seen id).length
        = σ.jobsProduced - (σ.jobsProduced - queue.length) := length_filter_range hp _
      _ = queue.length := Nat.sub_sub_self hlength
  have hobserved : (σ.tally queue.length).observedChecksum
      = ((Multiset.range (σ.jobsProduced - queue.length)).map (taskChecksum config)).sum := by
    calc (σ.started.map fun i => (σ.result i).checksum).sum
        = ∑ i, (σ.result i).checksum :=
          sum_started _ fun i hi => by rw [(hresult i).2.2.2, hidle i hi, Multiset.map_zero, Multiset.sum_zero]
      _ = ∑ i, ((done i).map (taskChecksum config)).sum := Finset.sum_congr rfl fun i _ => (hresult i).2.2.2
      _ = _ := by rw [map_total_sum, hdone]
  have hreport : σ.reportRun =
      { σ with
        queue.ring := ring
        store := store
        totals := σ.tally queue.length
        status := σ.judge (σ.tally queue.length)
        main := .exited (statusExitCode (σ.judge (σ.tally queue.length))) } := by
    unfold State.reportRun
    rw [if_pos hjoined, hrelease]
    simp only [hcount]
  have hjudge : σ.judge (σ.tally queue.length)
      = if queue.length ≠ 0 then .dataFailure
        else if σ.started.any fun i => (σ.result i).queueError then .internalError else σ.status := by
    unfold State.judge
    rw [hconsumed, hduplicate, hinvalid, hmissing, hobserved, hexpected]
    by_cases hzero : queue.length = 0
    · simp [hzero, State.tally]
    · rw [if_pos (by right; right; right; left; exact hzero), if_pos hzero]
  rw [hreport]
  refine ⟨rfl, ?_⟩
  exact
    { consumed_add_abandoned := by
        rw [hconsumed]
        exact Nat.sub_add_cancel hlength
      missing := hmissing
      duplicate := hduplicate
      invalid := hinvalid
      observed := by rw [hobserved, hconsumed]
      expected := hexpected
      released := hnone
      abandoned := fun hne => by
        have hproduced : σ.jobsProduced ≠ 0 := fun hzero => hne (Nat.le_zero.mp (hzero ▸ hlength))
        have hall := h.produced_started hproduced
        refine ⟨hall, fun i => ?_⟩
        have hexited : σ.worker i = .exited := by
          refine (h.exited_or_absent hpc hjoined i).resolve_right fun habsent => ?_
          exact absurd (Nat.lt_of_lt_of_eq i.isLt hall.symm) (Nat.not_lt.mpr ((h.absent i).mp habsent))
        have hfine := h.workers i
        rw [hexited] at hfine
        exact hfine.resolve_right fun hdrained => hne (hcount ▸ hdrained.2)
      dataFailure := by
        have hundecided := h.undecided (by rw [hpc]; rfl)
        rw [hjudge]
        by_cases hzero : queue.length = 0
        · refine iff_of_false ?_ (fun hne => hne hzero)
          rw [if_neg (fun hne => hne hzero)]
          split
          · exact nofun
          · exact hundecided
        · exact iff_of_true (if_pos hzero) hzero
      ok := fun hok => by
        rw [hjudge] at hok
        by_cases hzero : queue.length = 0
        · rw [if_neg (fun hne => hne hzero)] at hok
          split at hok
          · cases hok
          next hnot =>
            have hmain := h.main
            rw [hpc] at hmain
            have hcomplete : σ.Complete := hmain.1 hok
            refine ⟨hcomplete, fun i => ?_⟩
            have hstarted : i ∈ σ.started := by
              refine List.mem_filter.mpr ⟨List.mem_finRange i, ?_⟩
              simp [hcomplete.2]
            by_contra herror
            exact hnot (List.any_eq_true.mpr ⟨i, hstarted, by simpa using herror⟩)
        · rw [if_pos hzero] at hok
          cases hok }

end Hplf.Pool
