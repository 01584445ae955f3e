import HplfMalloc.Proof.PoolLive

/-!
# Progress of the worker pool

Without failures, each action of a thread uses up some of the work that is left, and as long as `main` has not
returned some thread can act.
-/

namespace Hplf.Pool

open Lib
open scoped BigOperators

variable {config : Configuration} {σ σ' : State config.workers} {event : Event config.workers}

/-! ### The work that is left -/

def Worker.weight : Worker → Nat
  | .mark _ => 6
  | .verify _ => 5
  | .release _ | .absent => 4
  | .pop | .retry => 3
  | .wait | .close => 2
  | .flush => 1
  | .exited | .fault => 0

/-- A job that is not yet produced weighs more than the job in the queue and the wake-up that its push costs. -/
def Main.weight (config : Configuration) : Main → Nat
  | .setup => 12 * config.jobs + 2 * config.workers + 10
  | .create _ => 12 * config.jobs + 2 * config.workers + 9
  | .produce index => 12 * (config.jobs - index) + 2 * config.workers + 8
  | .fill index _ => 12 * (config.jobs - index) + 2 * config.workers + 7
  | .push index _ _ | .retry index _ _ => 12 * (config.jobs - index) + 2 * config.workers + 6
  | .wait index _ _ => 12 * (config.jobs - index) + 2 * config.workers + 5
  | .discard _ => 2 * config.workers + 5
  | .close => 2 * config.workers + 4
  | .join index => (config.workers - index) + 2
  | .report => 1
  | .exited _ | .refused | .fault => 0

def State.potential (σ : State config.workers) : Nat :=
  σ.main.weight config + (∑ i, (σ.worker i).weight) + 5 * σ.queue.ring.count

theorem sum_goto {workers : Nat} (worker : Fin workers → Worker) (i : Fin workers) (next : Worker) :
    (∑ j, (Function.update worker i next j).weight) + (worker i).weight = (∑ j, (worker j).weight) + next.weight :=
  sum_measure_swap fun _ => Worker.weight

theorem sum_goto_gain {workers : Nat} {worker : Fin workers → Worker} {i : Fin workers} {next : Worker} (k : Nat)
    (hgain : next.weight = (worker i).weight + k) :
    ∑ j, (Function.update worker i next j).weight = (∑ j, (worker j).weight) + k := by
  have hswap := sum_goto worker i next
  omega

theorem sum_goto_lt {workers : Nat} {worker : Fin workers → Worker} {i : Fin workers} {next : Worker}
    (hlt : next.weight < (worker i).weight) :
    ∑ j, (Function.update worker i next j).weight < ∑ j, (worker j).weight := by
  have hswap := sum_goto worker i next
  omega

theorem weight_wake_worker {worker : Worker} (hwaits : notEmpty.waits worker = true) :
    (notEmpty.wake worker).weight = worker.weight + 1 := by
  have hwait : worker = .wait := by simpa [notEmpty] using hwaits
  rw [hwait]
  rfl

theorem Main.weight_wake_le (main : Main) : main.wake.weight config ≤ main.weight config + 1 := by
  cases main <;> simp only [Main.wake, Main.weight] <;> omega

/-! ### Each action uses some of it up -/

/-- A worker goes on without taking a job. -/
theorem potential_goto_lt {τ : State config.workers} {i : Fin config.workers} {worker : Worker}
    (hworker : τ.worker = σ.worker) (hmain : τ.main = σ.main) (hqueue : τ.queue = σ.queue)
    (hlt : worker.weight < (σ.worker i).weight) : (τ.goto i worker).potential < σ.potential := by
  have hsum : ∑ j, (Function.update σ.worker i worker j).weight < ∑ j, (σ.worker j).weight := sum_goto_lt hlt
  unfold State.potential State.goto
  simp only [hworker, hmain, hqueue]
  omega

theorem Worker.weight_of_pops {worker : Worker} (hpc : worker.pops) : worker.weight = 3 := by
  rcases hpc with rfl | rfl <;> rfl

theorem Live.worker_descent (h : Live config σ) (hinv : Inv config σ) (hrunning : σ.main.returned = false)
    {i : Fin config.workers} {o : Outcome config.workers} (ho : o.Reliable σ)
    (hstep : Step config σ (.worker i o) σ') : σ'.potential < σ.potential := by
  have hbooks := hinv.books hrunning
  have hclose : σ.worker i ≠ .close := by
    intro hpc
    have hfine := hinv.workers i
    rw [hpc] at hfine
    exact absurd ((h.errorless i).symm.trans hfine) Bool.false_ne_true
  cases hstep with
  | popRefused hpc hfails => exact absurd (ho.lock.symm.trans hfails) Bool.false_ne_true
  | popFailed hpc hfails => exact absurd (ho.wait.symm.trans hfails) Bool.false_ne_true
  | popWait hpc => exact potential_goto_lt rfl rfl rfl (by rw [Worker.weight_of_pops hpc]; decide)
  | popDrained hpc => exact potential_goto_lt rfl rfl rfl (by rw [Worker.weight_of_pops hpc]; decide)
  | popNull hpc hcount hfront => exact absurd hfront (hbooks.front_live hcount)
  | @popTake _ _ job hpc hcount hfront =>
      have hsum : ∑ j, (Function.update σ.worker i (.mark job) j).weight = (∑ j, (σ.worker j).weight) + 3 :=
        sum_goto_gain 3 (by rw [Worker.weight_of_pops hpc]; rfl)
      have hmain : (if o.signalFails then σ.main else σ.main.wake).weight config ≤ σ.main.weight config + 1 := by
        rw [if_neg (by rw [ho.signal]; exact Bool.false_ne_true)]
        exact Main.weight_wake_le σ.main
      change (if o.signalFails then σ.main else σ.main.wake).weight config
          + (∑ j, (Function.update σ.worker i (.mark job) j).weight) + 5 * (σ.queue.ring.count - 1)
        < σ.main.weight config + (∑ j, (σ.worker j).weight) + 5 * σ.queue.ring.count
      omega
  | mark hpc hlive =>
      rw [hbooks.markJob_eq hinv.produced_le hpc hlive]
      exact potential_goto_lt rfl rfl rfl (by rw [hpc]; exact Nat.lt_succ_self 5)
  | verify hpc => exact potential_goto_lt rfl rfl rfl (by rw [hpc]; exact Nat.lt_succ_self 4)
  | release hpc => exact potential_goto_lt rfl rfl rfl (by rw [hpc]; exact Nat.lt_succ_self 3)
  | workerFault hjob hdead =>
      have hlive := hbooks.worker_live hjob
      rw [hdead] at hlive
      cases hlive
  | workerCloseRefused hpc => exact absurd hpc hclose
  | workerClose hpc => exact absurd hpc hclose
  | flush hpc => exact potential_goto_lt rfl rfl rfl (by rw [hpc]; exact Nat.lt_succ_self 0)

theorem Main.weight_of_pushes {main : Main} {index job : Nat} {checksum : UInt64}
    (hpc : main.pushes index job checksum) :
    main.weight config = 12 * (config.jobs - index) + 2 * config.workers + 6 := by
  rcases hpc with rfl | rfl <;> rfl

/-- `main` goes on without the queue and the workers. -/
theorem potential_main_lt (hworker : σ'.worker = σ.worker) (hqueue : σ'.queue = σ.queue)
    (hlt : σ'.main.weight config < σ.main.weight config) : σ'.potential < σ.potential := by
  unfold State.potential
  rw [hworker, hqueue]
  omega

theorem Live.main_descent (h : Live config σ) (hinv : Inv config σ) (hrunning : σ.main.returned = false)
    {o : Outcome config.workers} (hstep : Step config σ (.main o) σ') : σ'.potential < σ.potential := by
  have hbooks := hinv.books hrunning
  have hmain := hinv.main
  have hweight (main : Main) (hpc : σ.main = main) : σ.main.weight config = main.weight config := by rw [hpc]
  cases hstep with
  | setup hpc =>
      exact potential_main_lt rfl rfl (by rw [hweight _ hpc]; simp only [Main.weight]; omega)
  | setupRefused hpc => exact potential_main_lt rfl rfl (by rw [hweight _ hpc]; simp only [Main.weight]; omega)
  | @create _ index hindex hpc hfail hcreated =>
      rw [hpc] at hmain
      have habsent : σ.worker ⟨index, hindex⟩ = .absent := (hinv.absent _).mpr hmain.1.ge
      have hlt : (σ.goto ⟨index, hindex⟩ .pop).potential < σ.potential :=
        potential_goto_lt rfl rfl rfl (by rw [habsent]; exact Nat.lt_succ_self 3)
      unfold State.potential at hlt ⊢
      rw [hweight _ hpc] at hlt ⊢
      exact lt_of_le_of_lt (Nat.le_of_eq (by simp only [State.goto, Main.weight, hpc])) hlt
  | createRefused hindex hpc =>
      exact potential_main_lt rfl rfl (by rw [hweight _ hpc]; simp only [Main.weight]; omega)
  | createdAll hpc => exact potential_main_lt rfl rfl (by rw [hweight _ hpc]; simp only [Main.weight]; omega)
  | producedAll hpc => exact potential_main_lt rfl rfl (by rw [hweight _ hpc]; simp only [Main.weight]; omega)
  | injected hpc | oversized hpc | unallocated hpc =>
      exact potential_main_lt rfl rfl (by rw [hweight _ hpc]; simp only [State.abandon, Main.weight]; omega)
  | allocate hpc => exact potential_main_lt rfl rfl (by rw [hweight _ hpc]; simp only [Main.weight]; omega)
  | fill hpc => exact potential_main_lt rfl rfl (by rw [hweight _ hpc]; simp only [Main.weight]; omega)
  | mainFault hjob hdead =>
      have hlive := hbooks.main_live hjob
      rw [hdead] at hlive
      cases hlive
  | pushRefused hpc => exact potential_main_lt rfl rfl (by rw [hweight _ hpc]; simp only [Main.weight]; omega)
  | pushFailed hpc => exact potential_main_lt rfl rfl (by rw [hweight _ hpc]; simp only [Main.weight]; omega)
  | pushWait hpc =>
      exact potential_main_lt rfl rfl (by rw [Main.weight_of_pushes hpc]; simp only [Main.weight]; omega)
  | pushClosed hpc =>
      exact potential_main_lt rfl rfl (by rw [Main.weight_of_pushes hpc]; simp only [Main.weight]; omega)
  | @pushPut _ index job checksum hpc hroom hopen =>
      have hsum := Waiters.sum_signal_le (W := notEmpty) (fun _ hwaits => (weight_wake_worker hwaits).le) σ.worker
        o.woken
      have hlt := (hinv.index_of_pushes hpc).2
      have hbefore : σ.main.weight config = 12 * (config.jobs - index) + 2 * config.workers + 6 :=
        Main.weight_of_pushes hpc
      change (Main.produce (index + 1)).weight config + (∑ j, (notEmpty.signal σ.worker o.woken j).weight)
          + 5 * (σ.queue.ring.count + 1)
        < σ.main.weight config + (∑ j, (σ.worker j).weight) + 5 * σ.queue.ring.count
      rw [hbefore]
      simp only [Main.weight]
      omega
  | discard hpc => exact potential_main_lt rfl rfl (by rw [hweight _ hpc]; simp only [Main.weight]; omega)
  | closeRefused hpc => exact potential_main_lt rfl rfl (by rw [hweight _ hpc]; simp only [Main.weight]; omega)
  | close hpc =>
      have hsum : ∑ j, ((σ.closeSection o).worker j).weight ≤ (∑ j, (σ.worker j).weight) + config.workers := by
        unfold State.closeSection State.unlock
        simp only
        split
        · exact Nat.le_add_right _ _
        · have hsum := Waiters.sum_broadcast_le (W := notEmpty) (fun _ hwaits => (weight_wake_worker hwaits).le)
            σ.worker
          rwa [Fintype.card_fin] at hsum
      change (Main.join 0).weight config + (∑ j, ((σ.closeSection o).worker j).weight) + 5 * σ.queue.ring.count
        < σ.main.weight config + (∑ j, (σ.worker j).weight) + 5 * σ.queue.ring.count
      rw [hpc]
      simp only [Main.weight]
      omega
  | joinedAll hpc => exact potential_main_lt rfl rfl (by rw [hweight _ hpc]; simp only [Main.weight]; omega)
  | joinFailed hpc hindex =>
      rw [hpc] at hmain
      have hstarted := hinv.started_le
      have hle := hmain.1
      exact potential_main_lt rfl rfl (by rw [hweight _ hpc]; simp only [Main.weight]; omega)
  | join hpc hindex hlt =>
      exact potential_main_lt rfl rfl (by rw [hweight _ hpc]; simp only [Main.weight]; omega)
  | report hpc =>
      have hexit := (hinv.reportRun hpc h.allJoined).1
      have hworker : σ.reportRun.worker = σ.worker := by
        unfold State.reportRun
        rw [if_pos h.allJoined]
        cases State.releaseRemaining σ.queue.ring.count σ.queue.ring σ.store <;> rfl
      have hcount : σ.reportRun.queue.ring.count ≤ σ.queue.ring.count := by
        unfold State.reportRun
        rw [if_pos h.allJoined]
        cases hrelease : State.releaseRemaining σ.queue.ring.count σ.queue.ring σ.store with
        | none => exact Nat.le_refl _
        | some remaining => exact releaseRemaining_count_le _ _ _ hrelease
      unfold State.potential
      rw [hworker, hexit, hpc]
      simp only [Main.weight]
      omega
where
  releaseRemaining_count_le (n : Nat) (ring : RingBuffer (Option Nat)) (store : Nat → Option Job)
      {remaining : RingBuffer (Option Nat) × (Nat → Option Job)}
      (hrelease : State.releaseRemaining n ring store = some remaining) : remaining.1.count ≤ ring.count := by
    induction n generalizing ring store with
    | zero => exact Nat.le_of_eq (by rw [← Option.some.inj hrelease])
    | succ n ih =>
        have hpop : ((ring.setFront none).pop).count ≤ ring.count := Nat.sub_le _ _
        rw [State.releaseRemaining] at hrelease
        split at hrelease
        · exact (ih _ _ hrelease).trans hpop
        · split at hrelease
          · cases hrelease
          · exact (ih _ _ hrelease).trans hpop

/-- Each action uses up some of the work that is left; a spurious wake-up adds one unit. -/
theorem Live.descent (h : Live config σ) (hinv : Inv config σ) (hreliable : event.Reliable σ)
    (hstep : σ.perform config event = some σ') :
    σ'.potential + 1 ≤ σ.potential + 2 * (if event.spurious then 1 else 0) := by
  obtain ⟨hrunning, hstep⟩ := perform_step hstep
  cases event with
  | worker i o => exact h.worker_descent hinv hrunning hreliable hstep
  | main o => exact h.main_descent hinv hrunning hstep
  | wakeWorker i =>
      cases hstep with
      | wakeWorker hpc =>
          have hsum : ∑ j, (Function.update σ.worker i .retry j).weight = (∑ j, (σ.worker j).weight) + 1 :=
            sum_goto_gain 1 (by rw [hpc]; rfl)
          change σ.main.weight config + (∑ j, (Function.update σ.worker i .retry j).weight) + 5 * σ.queue.ring.count + 1
            ≤ σ.main.weight config + (∑ j, (σ.worker j).weight) + 5 * σ.queue.ring.count + 2 * 1
          omega
  | wakeMain =>
      cases hstep with
      | @wakeMain index job checksum hpc =>
          change (Main.retry index job checksum).weight config + (∑ j, (σ.worker j).weight) + 5 * σ.queue.ring.count + 1
            ≤ σ.main.weight config + (∑ j, (σ.worker j).weight) + 5 * σ.queue.ring.count + 2 * 1
          rw [hpc]
          simp only [Main.weight]
          omega

/-! ### Some thread can act -/

/-- An outcome without failures: the allocation is at this address, and a signal wakes this worker. -/
def Outcome.success {workers : Nat} (address : Nat) (woken : Option (Fin workers)) : Outcome workers where
  setupFails := false
  createFails := false
  joinFails := false
  lockFails := false
  waitFails := false
  unlockFails := false
  woken := woken
  signalFails := false
  emptyBroadcastFails := false
  fullBroadcastFails := false
  allocation := some (address, ⟨0, 0, 0, fun _ => 0⟩)

theorem exists_reliable (σ : State config.workers) (address : Nat) :
    ∃ woken, (Outcome.success address woken : Outcome config.workers).Reliable σ := by
  by_cases hwaiting : ∃ i, notEmpty.waits (σ.worker i) = true
  · obtain ⟨i, hi⟩ := hwaiting
    exact ⟨some i, rfl, rfl, rfl, rfl, rfl, rfl, rfl, rfl, rfl, fun _ => ⟨i, rfl, hi⟩, nofun⟩
  · exact ⟨none, rfl, rfl, rfl, rfl, rfl, rfl, rfl, rfl, rfl, fun hsome => absurd hsome hwaiting, nofun⟩

/-- There is an address that is not in use. -/
theorem Books.exists_fresh (h : Books config σ.view) : ∃ address, σ.store address = none := by
  obtain ⟨L, hpos, -⟩ := h
  obtain ⟨address, hfresh⟩ := Infinite.exists_notMem_finset (σ.view.owned L.queue).toFinset
  refine ⟨address, ?_⟩
  rw [Multiset.mem_toFinset, hpos.live] at hfresh
  exact Option.not_isSome_iff_eq_none.mp hfresh

/-- A worker that is neither waiting nor outside its loop can act. -/
theorem stepWorker_isSome (hjammed : σ.jammed = false) {i : Fin config.workers} {o : Outcome config.workers}
    (habsent : σ.worker i ≠ .absent) (hwait : σ.worker i ≠ .wait) (hexited : σ.worker i ≠ .exited)
    (hfault : σ.worker i ≠ .fault) : (σ.stepWorker config i o).isSome = true := by
  unfold State.stepWorker
  cases hpc : σ.worker i with
  | absent => exact absurd hpc habsent
  | wait => exact absurd hpc hwait
  | exited => exact absurd hpc hexited
  | fault => exact absurd hpc hfault
  | pop | close =>
      simp only [hjammed]
      split <;> rfl
  | retry =>
      simp only [hjammed, Bool.false_eq_true, if_false]
      split <;> rfl
  | mark job | verify job =>
      simp only
      cases σ.store job <;> rfl
  | release job =>
      simp only
      cases State.deallocate σ.store job <;> rfl
  | flush => rfl

/-- With a full queue, or a closed one, a worker that has not exited can act, or another one can. -/
theorem Live.exists_worker (h : Live config σ) (hinv : Inv config σ) (o : Outcome config.workers)
    {i : Fin config.workers} (habsent : σ.worker i ≠ .absent) (hexited : σ.worker i ≠ .exited)
    (hsupply : σ.queue.closed = false → 0 < σ.queue.ring.count) :
    ∃ j, (σ.stepWorker config j o).isSome = true := by
  have hnoFault (j : Fin config.workers) : σ.worker j ≠ .fault := by
    intro hpc
    have hfine := hinv.workers j
    rw [hpc] at hfine
    exact hfine
  by_cases hwait : σ.worker i = .wait
  · have hwaits : notEmpty.waits (σ.worker i) = true := by rw [hwait]; rfl
    have hopen : σ.queue.closed = false := by
      rw [Bool.eq_false_iff]
      intro hclosed
      rw [h.woken hclosed i] at hwaits
      cases hwaits
    obtain ⟨j, hj⟩ := (h.served hopen).exists_awake (hsupply hopen) hwaits
    have hretry : σ.worker j = .retry := by simpa [notEmpty] using hj
    refine ⟨j, stepWorker_isSome h.unjammed ?_ ?_ ?_ ?_⟩ <;> simp [hretry]
  · exact ⟨i, stepWorker_isSome h.unjammed habsent hwait hexited (hnoFault i)⟩

/-- `main` can act, or it waits for room in the queue or for a worker to exit. -/
theorem Live.stepMain_isSome (h : Live config σ) (hinv : Inv config σ) (hrunning : σ.main.returned = false)
    {o : Outcome config.workers} (ho : o.Reliable σ)
    (hfresh : ∀ address contents, o.allocation = some (address, contents) → σ.store address = none)
    (hwait : ∀ index job checksum, σ.main ≠ .wait index job checksum)
    (hjoin : ∀ (index : Nat) (hlt : index < config.workers), σ.main = .join index → index ≠ σ.workersStarted →
      σ.worker ⟨index, hlt⟩ = .exited) : (σ.stepMain config o).isSome = true := by
  have hmain := hinv.main
  unfold State.stepMain
  cases hpc : σ.main with
  | wait index job checksum => exact absurd hpc (hwait index job checksum)
  | exited | refused =>
      rw [hpc] at hrunning
      cases hrunning
  | fault =>
      rw [hpc] at hmain
      exact hmain.elim
  | setup => rfl
  | report => rfl
  | create index =>
      simp only
      split
      · split <;> rfl
      · rfl
  | produce index =>
      simp only
      unfold State.produceJob
      split
      · rfl
      · simp only
        split
        · rfl
        · split
          · rfl
          · rcases hallocation : o.allocation with _ | ⟨address, contents⟩
            · rfl
            · simp only [hfresh address contents hallocation]
              rfl
  | fill index job =>
      simp only
      cases σ.store job <;> rfl
  | push | close =>
      simp only [h.unjammed]
      split <;> rfl
  | retry =>
      simp only [h.unjammed, Bool.false_eq_true, if_false]
      split <;> rfl
  | discard job =>
      simp only
      cases State.deallocate σ.store job <;> rfl
  | join index =>
      rw [hpc] at hmain
      simp only
      split
      · rfl
      next hindex =>
        have hlt : index < config.workers :=
          Nat.lt_of_lt_of_le (lt_of_le_of_ne hmain.1 hindex) hinv.started_le
        rw [if_neg (by rw [ho.join]; exact Bool.false_ne_true), dif_pos hlt, if_pos (hjoin index hlt hpc hindex)]
        rfl

/-- **No deadlock.** Until `main` returns, some thread can act. -/
theorem Live.progress (h : Live config σ) (hinv : Inv config σ) (haccepted : config.Accepted)
    (hrunning : σ.main.returned = false) :
    ∃ event : Event config.workers, event.spurious = false ∧ event.Reliable σ ∧
      (σ.perform config event).isSome = true := by
  obtain ⟨address, hfresh⟩ := (hinv.books hrunning).exists_fresh
  obtain ⟨woken, ho⟩ := exists_reliable σ address
  have hworker (j : Fin config.workers) (hj : (σ.stepWorker config j (.success address woken)).isSome = true) :
      ∃ event : Event config.workers, event.spurious = false ∧ event.Reliable σ ∧
        (σ.perform config event).isSome = true := by
    refine ⟨.worker j (.success address woken), rfl, ho, ?_⟩
    unfold State.perform
    rw [if_neg (by rw [hrunning]; exact Bool.false_ne_true)]
    exact hj
  by_cases hwait : ∃ index job checksum, σ.main = .wait index job checksum
  · obtain ⟨index, job, checksum, hpc⟩ := hwait
    have hmain := hinv.main
    rw [hpc] at hmain
    obtain ⟨L, -, hacc⟩ := hinv.books hrunning
    have hopen : σ.queue.closed = false := by
      rw [h.closed, hpc]
      rfl
    have hfull := h.full (by rw [hpc]; exact nofun)
    have hpos : 0 < σ.queue.ring.count := hfull ▸ Nat.zero_lt_of_lt hacc.fits.head_lt
    have hlive : σ.worker ⟨0, haccepted.workers_pos⟩ ≠ .absent := by
      intro habsent
      have hzero := (hinv.absent _).mp habsent
      rw [hmain.2.2.1] at hzero
      exact absurd haccepted.workers_pos (Nat.not_lt.mpr hzero)
    have hrunning' : σ.worker ⟨0, haccepted.workers_pos⟩ ≠ .exited := by
      intro hexited
      have hfine := hinv.workers ⟨0, haccepted.workers_pos⟩
      rw [hexited] at hfine
      rcases hfine with herror | hdrained
      · exact absurd ((h.errorless _).symm.trans herror) Bool.false_ne_true
      · exact absurd (hopen.symm.trans hdrained.1) Bool.false_ne_true
    obtain ⟨j, hj⟩ := h.exists_worker hinv (.success address woken) hlive hrunning' fun _ => hpos
    exact hworker j hj
  · by_cases hjoin : ∃ (index : Nat) (hlt : index < config.workers), σ.main = .join index ∧
        index ≠ σ.workersStarted ∧ σ.worker ⟨index, hlt⟩ ≠ .exited
    · obtain ⟨index, hlt, hpc, hindex, hexited⟩ := hjoin
      have hmain := hinv.main
      rw [hpc] at hmain
      have hclosed : σ.queue.closed = true := by
        rw [h.closed, hpc]
        rfl
      have hlive : σ.worker ⟨index, hlt⟩ ≠ .absent := by
        intro habsent
        exact hindex (Nat.le_antisymm hmain.1 ((hinv.absent _).mp habsent))
      obtain ⟨j, hj⟩ := h.exists_worker hinv (.success address woken) hlive hexited fun hopen =>
        absurd (hclosed.symm.trans hopen) (by decide)
      exact hworker j hj
    · refine ⟨.main (.success address woken), rfl, ho, ?_⟩
      unfold State.perform
      rw [if_neg (by rw [hrunning]; exact Bool.false_ne_true)]
      refine h.stepMain_isSome hinv hrunning ho (fun address' contents hallocation => ?_)
        (fun index job checksum hpc => hwait ⟨index, job, checksum, hpc⟩) (fun index hlt hpc hindex => ?_)
      · cases hallocation
        exact hfresh
      · by_contra hexited
        exact hjoin ⟨index, hlt, hpc, hindex, hexited⟩

end Hplf.Pool
