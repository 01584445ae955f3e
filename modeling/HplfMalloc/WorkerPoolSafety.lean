import HplfMalloc.Proof.PoolSteps

/-!
# Safety of the worker pool

Whatever fails and in whatever order the threads act: each live block is in one place, nobody touches a block that
is not live, the jobs come out of the queue in the order of their production and as they were written, each is
counted once, and the report at the end says what became of all of them.
-/

namespace Hplf.Pool

open Lib
open scoped BigOperators

/-! ### Runs -/

variable {config : Configuration} {σ σ' : State config.workers}

def State.run (config : Configuration) : State config.workers → List (Event config.workers) →
    Option (State config.workers)
  | σ, [] => some σ
  | σ, event :: events =>
      match σ.perform config event with
      | none => none
      | some σ' => σ'.run config events

theorem reachable_run (events : List (Event config.workers)) (hreach : (workerPool config).Reachable σ)
    (hrun : σ.run config events = some σ') : (workerPool config).Reachable σ' := by
  induction events generalizing σ with
  | nil => exact Option.some.inj hrun ▸ hreach
  | cons event events ih =>
      rw [State.run] at hrun
      split at hrun
      · cases hrun
      next σ' hstep => exact ih (hreach.step ⟨event, rfl, hstep⟩) hrun

theorem Inv.of_reachable (hcapacity : 0 < config.queueCapacity) (hreach : (workerPool config).Reachable σ) :
    Inv config σ := by
  refine hreach.invariant (fun x hx => hx ▸ inv_initial config hcapacity) ?_
  rintro x e y hinv ⟨event, -, hstep⟩
  exact hinv.perform hstep

/-! ### The places of a block -/

/-- Where a block can be: at a position of the queue, with `main` or with a worker. -/
inductive Holder (workers : Nat)
  | queue (position : Nat)
  | main
  | worker (i : Fin workers)

def State.Holds {workers : Nat} (σ : State workers) (job : Nat) : Holder workers → Prop
  | .queue position => σ.queue.ring.contents[position]? = some (some job)
  | .main => σ.main.job = some job
  | .worker i => (σ.worker i).job = some job

/-- Between `queue_pop` and the end of the checks. -/
def Worker.unverified : Worker → Bool
  | .mark _ | .verify _ => true
  | _ => false

structure Safe {config : Configuration} (σ : State config.workers) : Prop where
  faultless : (∀ i, σ.worker i ≠ .fault) ∧ σ.main ≠ .fault
  live : ∀ job, (σ.store job).isSome = true ↔ ∃ holder, σ.Holds job holder
  exclusive : ∀ job holder holder', σ.Holds job holder → σ.Holds job holder' → holder = holder'
  /-- The queue is in the order of production, and its jobs are as they were written. -/
  queued : ∀ position job, σ.Holds job (.queue position) → ∃ contents, σ.store job = some contents ∧
    Written config contents ∧ contents.id + σ.queue.ring.count = σ.jobsProduced + position
  clean : ∀ i, (σ.result i).duplicateJobs = 0 ∧ (σ.result i).invalidJobs = 0
  counted : (∑ i, (σ.result i).consumed) + (Finset.univ.filter fun i => (σ.worker i).unverified = true).card
    + σ.queue.ring.count = σ.jobsProduced

theorem Worker.mem_block_iff {worker : Worker} {job : Nat} : job ∈ worker.carry.block ↔ worker.job = some job := by
  cases worker <;> simp [Worker.carry, Carry.block, Worker.job, eq_comm]

theorem Main.mem_block_iff {main : Main} {job : Nat} : job ∈ main.parcel.block ↔ main.job = some job := by
  cases main <;> simp [Main.parcel, Parcel.block, Main.job, eq_comm]

theorem mem_total_iff {ι α : Type*} [Fintype ι] {f : ι → Multiset α} {x : α} : x ∈ ∑ i, f i ↔ ∃ i, x ∈ f i := by
  rw [Multiset.mem_sum]
  simp

/-- What is owned is what somebody holds. -/
theorem mem_owned_iff {queue : List Nat} (hcontents : σ.queue.ring.contents = queue.map some) {job : Nat} :
    job ∈ σ.view.owned queue ↔ ∃ holder, σ.Holds job holder := by
  rw [View.owned, Multiset.mem_add, Multiset.mem_add, mem_total_iff, Multiset.mem_coe]
  constructor
  · rintro ((hqueue | hmain) | ⟨i, hworker⟩)
    · obtain ⟨position, hget⟩ := List.mem_iff_getElem?.mp hqueue
      refine ⟨.queue position, ?_⟩
      rw [State.Holds, hcontents, List.getElem?_map, hget]
      rfl
    · exact ⟨.main, Main.mem_block_iff.mp hmain⟩
    · exact ⟨.worker i, Worker.mem_block_iff.mp hworker⟩
  · rintro ⟨holder, hholds⟩
    cases holder with
    | queue position =>
        rw [State.Holds, hcontents, List.getElem?_map, Option.map_eq_some_iff] at hholds
        obtain ⟨job', hget, hjob⟩ := hholds
        rw [Option.some.inj hjob] at hget
        exact .inl (.inl (List.mem_of_getElem? hget))
    | main => exact .inl (.inr (Main.mem_block_iff.mpr hholds))
    | worker i => exact .inr ⟨i, Worker.mem_block_iff.mpr hholds⟩

theorem Possession.holder_unique {queue : List Nat} (h : Possession σ.view queue)
    (hcontents : σ.queue.ring.contents = queue.map some) {job : Nat} {holder holder' : Holder config.workers}
    (hholds : σ.Holds job holder) (hholds' : σ.Holds job holder') : holder = holder' := by
  have hqueue {position : Nat} (hget : σ.Holds job (.queue position)) : queue[position]? = some job := by
    rw [State.Holds, hcontents, List.getElem?_map, Option.map_eq_some_iff] at hget
    obtain ⟨job', hget, hjob⟩ := hget
    rwa [Option.some.inj hjob] at hget
  have hnodup : queue.Nodup :=
    Multiset.coe_nodup.mp (Multiset.nodup_add.mp (Multiset.nodup_add.mp h.nodup).1).1
  have hmain (hget : σ.Holds job .main) : job ∈ σ.view.parcel.block := Main.mem_block_iff.mpr hget
  have hworker {i : Fin config.workers} (hget : σ.Holds job (.worker i)) : job ∈ (σ.view.carry i).block :=
    Worker.mem_block_iff.mpr hget
  cases holder with
  | queue position =>
      have hmem := List.mem_of_getElem? (hqueue hholds)
      cases holder' with
      | queue position' =>
          obtain ⟨hlt, hget⟩ := List.getElem?_eq_some_iff.mp (hqueue hholds)
          have heq : position = position' :=
            (List.getElem?_inj hlt hnodup).mp ((hqueue hholds).trans (hqueue hholds').symm)
          rw [heq]
      | main => exact absurd (hmain hholds') (h.queue_ne_parcel hmem)
      | worker i => exact absurd (hworker hholds') (h.queue_ne_carry hmem)
  | main =>
      cases holder' with
      | queue position' =>
          exact absurd (hmain hholds) (h.queue_ne_parcel (List.mem_of_getElem? (hqueue hholds')))
      | main => rfl
      | worker i => exact absurd (hworker hholds') (h.parcel_ne_carry (hmain hholds))
  | worker i =>
      cases holder' with
      | queue position' =>
          exact absurd (hworker hholds) (h.queue_ne_carry (List.mem_of_getElem? (hqueue hholds')))
      | main => exact absurd (hworker hholds) (h.parcel_ne_carry (hmain hholds'))
      | worker j => rw [h.carry_unique (hworker hholds) (hworker hholds')]

/-- Each worker holds a job that is not counted, or none. -/
theorem card_pending (v : View config.workers) (worker : Fin config.workers → Worker)
    (hcarry : ∀ i, v.carry i = (worker i).carry) :
    Multiset.card (∑ i, v.pending i) = (Finset.univ.filter fun i => (worker i).unverified = true).card := by
  rw [Multiset.card_sum, Finset.card_filter]
  refine Finset.sum_congr rfl fun i _ => ?_
  rw [View.pending, hcarry i]
  cases worker i <;> rfl

theorem Inv.safe (h : Inv config σ) (hrunning : σ.main.returned = false) : Safe σ := by
  obtain ⟨L, hpos, hacc⟩ := h.books hrunning
  have hcontents : σ.queue.ring.contents = L.queue.map some := hacc.contents
  have hproduced : L.popped + L.queue.length = σ.jobsProduced := hacc.produced
  have hcount : L.queue.length = σ.queue.ring.count := hacc.length_queue
  refine ⟨⟨fun i hfault => ?_, fun hfault => ?_⟩, fun job => ?_, fun job holder holder' => hpos.holder_unique hcontents,
    fun position job hholds => ?_, fun i => ?_, ?_⟩
  · have hfine := h.workers i
    rw [hfault] at hfine
    exact hfine
  · have hmain := h.main
    rw [hfault] at hmain
    exact hmain
  · rw [← mem_owned_iff hcontents]
    exact (hpos.live job).symm
  · rw [State.Holds, hcontents, List.getElem?_map, Option.map_eq_some_iff] at hholds
    obtain ⟨job', hget, hjob⟩ := hholds
    rw [Option.some.inj hjob] at hget
    obtain ⟨contents, hlive, hwritten⟩ := hacc.genuine job (List.mem_of_getElem? hget)
    refine ⟨contents, hlive, hwritten, ?_⟩
    have hid : some (idAt σ.view.store job) = (List.range' L.popped L.queue.length)[position]? := by
      rw [← hacc.order, List.getElem?_map, hget]
      rfl
    obtain ⟨hlt, -⟩ := List.getElem?_eq_some_iff.mp hget
    rw [idAt_of_live hlive, List.getElem?_range' hlt] at hid
    have hposition := Option.some.inj hid
    omega
  · have hresult := hacc.result i
    exact ⟨congrArg WorkerResult.duplicateJobs hresult, congrArg WorkerResult.invalidJobs hresult⟩
  · have hcard := congrArg Multiset.card hacc.shares
    have hsplit : ∑ i, σ.view.share L i = (∑ i, L.done i) + ∑ i, σ.view.pending i := Finset.sum_add_distrib
    have hconsumed : ∑ i, (σ.result i).consumed = Multiset.card (∑ i, L.done i) := by
      rw [Multiset.card_sum]
      exact Finset.sum_congr rfl fun i _ => congrArg WorkerResult.consumed (hacc.result i)
    rw [hsplit, Multiset.card_add, card_pending σ.view σ.worker fun _ => rfl, Multiset.card_range] at hcard
    rw [hconsumed, hcard, ← hcount, hproduced]

/-- **Safety.** In every run, whatever fails, until `main` returns. -/
theorem worker_pool_safe (config : Configuration) (hcapacity : 0 < config.queueCapacity) (σ : State config.workers)
    (hreach : (workerPool config).Reachable σ) (hrunning : σ.main.returned = false) : Safe σ :=
  (Inv.of_reachable hcapacity hreach).safe hrunning

/-! ### A run -/

/-- One worker and one job. -/
def oneJob : Configuration where
  workers := 1
  jobs := 1
  queueCapacity := 1
  seed := 0
  failAllocationAt := 0
  failThreadAt := 0

/-- Nothing fails, and the block is at address 64. -/
def oneJobOutcome : Outcome 1 where
  setupFails := false
  createFails := false
  joinFails := false
  lockFails := false
  waitFails := false
  unlockFails := false
  woken := none
  signalFails := false
  emptyBroadcastFails := false
  fullBroadcastFails := false
  allocation := some (64, ⟨0, 0, 0, fun _ => 0⟩)

/-- The worker is created, and `main` puts the job into the queue. -/
def oneJobPush : List (Event 1) :=
  List.replicate 6 (.main oneJobOutcome)

/-- A run in which the worker cannot lock the queue, so that the job stays in it. -/
def oneJobAbandoned : List (Event 1) :=
  oneJobPush ++ List.replicate 3 (.worker ⟨0, Nat.one_pos⟩ { oneJobOutcome with lockFails := true })
    ++ List.replicate 5 (.main oneJobOutcome)

theorem worker_pool_safe_one_job :
    ∃ σ, State.run oneJob (.initial oneJob) oneJobPush = some σ ∧ σ.queue.ring.count = 1 ∧ Safe σ :=
  ⟨_, rfl, rfl, worker_pool_safe oneJob Nat.one_pos _ (reachable_run oneJobPush (.init rfl) rfl) rfl⟩

/-- **The report.** If all workers were joined, the report accounts for every job that was produced: those consumed,
each by one worker, and those that stayed in the queue. No block is left; jobs stay in the queue only if all
workers were started and all had errors; and the exit code is zero only if all that was asked for was done. -/
theorem worker_pool_report (config : Configuration) (hcapacity : 0 < config.queueCapacity) (σ : State config.workers)
    (hreach : (workerPool config).Reachable σ) (code : Nat) (hexited : σ.main = .exited code)
    (hjoined : σ.allJoined = true) : code = statusExitCode σ.status ∧ Accounted σ := by
  have hmain := (Inv.of_reachable hcapacity hreach).main
  rw [hexited] at hmain
  exact ⟨hmain.1, hmain.2 hjoined⟩

theorem worker_pool_report_abandoned :
    ∃ σ code, State.run oneJob (.initial oneJob) oneJobAbandoned = some σ ∧ σ.totals.abandonedJobs = 1 ∧
      code = statusExitCode σ.status ∧ Accounted σ :=
  ⟨_, _, rfl, rfl, worker_pool_report oneJob Nat.one_pos _ (reachable_run oneJobAbandoned (.init rfl) rfl) _ rfl rfl⟩

end Hplf.Pool
