import HplfMalloc.Lib.Shares
import HplfMalloc.Proof.PoolTransitions
import Mathlib.Data.Multiset.Range
import Mathlib.Data.UInt

/-!
# The ledger of the worker pool

Who holds which block and which jobs are done. The view of a state is what this depends on: most transitions do
not change it. The others pass a block on, fill it, mark it, count it or give it back, and for each of them there
is a lemma that carries the books over.
-/

namespace Hplf.Pool

open Lib
open scoped BigOperators

/-! ### Views -/

/-- What a worker has done with the job it holds. -/
inductive Carry
  | nothing
  | popped (job : Nat)
  | marked (job : Nat)
  | verified (job : Nat)

/-- What `main` holds. -/
inductive Parcel
  | nothing
  | raw (job : Nat)
  | filled (index job : Nat) (checksum : UInt64)

def Worker.carry : Worker → Carry
  | .mark job => .popped job
  | .verify job => .marked job
  | .release job => .verified job
  | _ => .nothing

def Main.parcel : Main → Parcel
  | .fill _ job | .discard job => .raw job
  | .push index job checksum | .wait index job checksum | .retry index job checksum => .filled index job checksum
  | _ => .nothing

def Carry.block : Carry → Multiset Nat
  | .nothing => 0
  | .popped job | .marked job | .verified job => {job}

/-- A block whose job is not yet counted as consumed. -/
def Carry.unverified : Carry → Option Nat
  | .popped job | .marked job => some job
  | _ => none

def Parcel.block : Parcel → Multiset Nat
  | .nothing => 0
  | .raw job | .filled _ job _ => {job}

structure View (workers : Nat) where
  store : Nat → Option Job
  ring : RingBuffer (Option Nat)
  seen : Nat → Bool
  result : Fin workers → WorkerResult
  carry : Fin workers → Carry
  parcel : Parcel
  produced : Nat
  expected : UInt64

def State.view {workers : Nat} (σ : State workers) : View workers where
  store := σ.store
  ring := σ.queue.ring
  seen := σ.seen
  result i := { σ.result i with queueError := false }
  carry i := (σ.worker i).carry
  parcel := σ.main.parcel
  produced := σ.jobsProduced
  expected := σ.expectedChecksum

/-! ### Jobs by their index -/

/-- The checksum of the job with this index. -/
def taskChecksum (config : Configuration) (id : Nat) : UInt64 :=
  mix64 (jobKey config.seed id ^^^ mix64 (UInt64.ofNat id) ^^^ UInt64.ofNat (payloadSizeFor config.seed id))

/-- The job is as `main` wrote it. -/
structure Written (config : Configuration) (job : Job) : Prop where
  key : job.key = jobKey config.seed job.id
  payloadSize : job.payloadSize = payloadSizeFor config.seed job.id
  valid : jobIsValid job = true

theorem Written.checksum {config : Configuration} {job : Job} (hwritten : Written config job) :
    jobChecksum job = taskChecksum config job.id := by
  rw [jobChecksum, taskChecksum, hwritten.key, hwritten.payloadSize]

theorem fillPayload_apply (key : UInt64) (payload : Nat → UInt8) {n index : Nat} (hlt : index < n) :
    fillPayload key payload n index = payloadByte key index := by
  induction n with
  | zero => exact absurd hlt (Nat.not_lt_zero _)
  | succ n ih =>
      by_cases heq : index = n
      · subst heq
        exact Function.update_self _ _ _
      · rw [fillPayload, Function.update_of_ne heq]
        exact ih (by omega)

/-- The payload that `main` fills passes the check of the workers. -/
theorem written_writeJob (config : Configuration) (index : Nat) (block : Job) :
    Written config (writeJob config index block) where
  key := rfl
  payloadSize := rfl
  valid := by
    apply List.all_eq_true.mpr
    intro offset hoffset
    exact beq_iff_eq.mpr (fillPayload_apply _ _ (List.mem_range.mp hoffset))

/-- The index of the job in a block. -/
def idAt (store : Nat → Option Job) (job : Nat) : Nat :=
  (store job).elim 0 Job.id

def Genuine (config : Configuration) (store : Nat → Option Job) (job : Nat) : Prop :=
  ∃ contents, store job = some contents ∧ Written config contents

theorem Genuine.congr {config : Configuration} {store store' : Nat → Option Job} {job : Nat}
    (hgenuine : Genuine config store job) (hsame : store' job = store job) : Genuine config store' job := by
  obtain ⟨contents, hcontents, hwritten⟩ := hgenuine
  exact ⟨contents, hsame.trans hcontents, hwritten⟩

theorem idAt_congr {store store' : Nat → Option Job} {job : Nat} (hsame : store' job = store job) :
    idAt store' job = idAt store job := by
  rw [idAt, idAt, hsame]

/-! ### The books -/

/-- The blocks in the queue, the number of jobs popped, and the jobs each worker has consumed. -/
structure Ledger (workers : Nat) where
  queue : List Nat
  popped : Nat
  done : Fin workers → Multiset Nat

variable {config : Configuration} {workers : Nat}

/-- All blocks somebody holds. -/
def View.owned (v : View workers) (queue : List Nat) : Multiset Nat :=
  queue + v.parcel.block + ∑ i, (v.carry i).block

/-- The jobs a worker has popped and not counted. -/
def View.pending (v : View workers) (i : Fin workers) : Multiset Nat :=
  match (v.carry i).unverified with
  | some job => {idAt v.store job}
  | none => 0

def View.share (v : View workers) (L : Ledger workers) (i : Fin workers) : Multiset Nat :=
  L.done i + v.pending i

/-- Each live block is held once. -/
structure Possession (v : View workers) (queue : List Nat) : Prop where
  nodup : (v.owned queue).Nodup
  live : ∀ job, job ∈ v.owned queue ↔ (v.store job).isSome = true

/-- The queue holds the jobs after those popped, in order; each job popped is in one worker's hands or counted by
one worker; a job is marked as seen once, by the worker that popped it. -/
structure Accounts (config : Configuration) (v : View workers) (L : Ledger workers) : Prop where
  fits : v.ring.Fits
  contents : v.ring.contents = L.queue.map some
  genuine : ∀ job ∈ L.queue, Genuine config v.store job
  order : L.queue.map (idAt v.store) = List.range' L.popped L.queue.length
  produced : L.popped + L.queue.length = v.produced
  carried : ∀ i job, (v.carry i).unverified = some job → Genuine config v.store job
  shares : ∑ i, v.share L i = Multiset.range L.popped
  seen : ∀ id, v.seen id = true ↔ id < L.popped ∧ ∀ i job, v.carry i = .popped job → idAt v.store job ≠ id
  result : ∀ i, v.result i
    = ⟨Multiset.card (L.done i), 0, 0, ((L.done i).map (taskChecksum config)).sum, false⟩
  expected : v.expected = ((Multiset.range v.produced).map (taskChecksum config)).sum
  parcel : ∀ index job checksum, v.parcel = .filled index job checksum →
    index = v.produced ∧ checksum = taskChecksum config index ∧ idAt v.store job = index ∧
      Genuine config v.store job

/-! ### What the books say -/

variable {v : View workers} {L : Ledger workers}

theorem Carry.mem_block_of_unverified {carry : Carry} {job : Nat} (hjob : carry.unverified = some job) :
    job ∈ carry.block := by
  cases carry with
  | nothing | verified => cases hjob
  | popped | marked =>
      cases hjob
      exact Multiset.mem_singleton_self _

theorem View.mem_owned_queue {queue : List Nat} {job : Nat} (hjob : job ∈ queue) : job ∈ v.owned queue :=
  Multiset.mem_add.mpr (.inl (Multiset.mem_add.mpr (.inl (Multiset.mem_coe.mpr hjob))))

theorem View.mem_owned_parcel {queue : List Nat} {job : Nat} (hjob : job ∈ v.parcel.block) : job ∈ v.owned queue :=
  Multiset.mem_add.mpr (.inl (Multiset.mem_add.mpr (.inr hjob)))

theorem View.mem_owned_carry {queue : List Nat} {job : Nat} {i : Fin workers} (hjob : job ∈ (v.carry i).block) :
    job ∈ v.owned queue :=
  Multiset.mem_add.mpr (.inr (mem_total (f := fun i => (v.carry i).block) hjob))

namespace Possession

variable {queue : List Nat} {job : Nat} {i j : Fin workers}

theorem queue_ne_parcel (h : Possession v queue) (hqueue : job ∈ queue) : job ∉ v.parcel.block := by
  have hparts := (Multiset.nodup_add.mp (Multiset.nodup_add.mp h.nodup).1).2.2
  exact Multiset.disjoint_left.mp hparts (Multiset.mem_coe.mpr hqueue)

theorem queue_ne_carry (h : Possession v queue) (hqueue : job ∈ queue) : job ∉ (v.carry i).block := by
  intro hcarry
  have hparts := (Multiset.nodup_add.mp h.nodup).2.2
  exact Multiset.disjoint_left.mp hparts (Multiset.mem_add.mpr (.inl (Multiset.mem_coe.mpr hqueue)))
    (mem_total (f := fun i => (v.carry i).block) hcarry)

theorem parcel_ne_carry (h : Possession v queue) (hparcel : job ∈ v.parcel.block) : job ∉ (v.carry i).block := by
  intro hcarry
  have hparts := (Multiset.nodup_add.mp h.nodup).2.2
  exact Multiset.disjoint_left.mp hparts (Multiset.mem_add.mpr (.inr hparcel))
    (mem_total (f := fun i => (v.carry i).block) hcarry)

theorem carry_unique (h : Possession v queue) (hi : job ∈ (v.carry i).block) (hj : job ∈ (v.carry j).block) :
    i = j :=
  eq_of_mem_shares (Multiset.nodup_add.mp h.nodup).2.1 hi hj

/-- Blocks that are held by the same threads are still each held once. -/
theorem congr (h : Possession v queue) {v' : View workers} {queue' : List Nat}
    (howned : v'.owned queue' = v.owned queue) (hlive : ∀ job, (v'.store job).isSome = (v.store job).isSome) :
    Possession v' queue' where
  nodup := howned ▸ h.nodup
  live job := by
    rw [howned, hlive]
    exact h.live job

/-- A new block. -/
theorem gain (h : Possession v queue) {v' : View workers} {queue' : List Nat} {contents : Job}
    (hfresh : v.store job = none) (howned : v'.owned queue' = job ::ₘ v.owned queue)
    (hstore : v'.store = Function.update v.store job (some contents)) : Possession v' queue' where
  nodup := by
    rw [howned, Multiset.nodup_cons]
    refine ⟨fun hmem => ?_, h.nodup⟩
    have hlive := (h.live job).mp hmem
    rw [hfresh] at hlive
    exact Bool.false_ne_true hlive
  live other := by
    rw [howned, hstore, Multiset.mem_cons, h.live]
    by_cases heq : other = job
    · subst heq
      simp
    · simp [heq]

/-- A block given back. -/
theorem lose (h : Possession v queue) {v' : View workers} {queue' : List Nat}
    (howned : v.owned queue = job ::ₘ v'.owned queue')
    (hstore : v'.store = Function.update v.store job none) : Possession v' queue' where
  nodup := (Multiset.nodup_cons.mp (howned ▸ h.nodup)).2
  live other := by
    have hnotMem : job ∉ v'.owned queue' := (Multiset.nodup_cons.mp (howned ▸ h.nodup)).1
    have hlive := h.live other
    rw [howned, Multiset.mem_cons] at hlive
    rw [hstore]
    by_cases heq : other = job
    · subst heq
      simp [hnotMem]
    · rw [Function.update_of_ne heq, ← hlive]
      simp [heq]

end Possession

theorem Accounts.length_queue (h : Accounts config v L) : L.queue.length = v.ring.count := by
  rw [← RingBuffer.length_contents, h.contents, List.length_map]

theorem View.pending_of_unverified {i : Fin workers} {job : Nat} (hjob : (v.carry i).unverified = some job) :
    v.pending i = {idAt v.store job} := by
  rw [View.pending, hjob]

theorem Accounts.mem_share (_h : Accounts config v L) {i : Fin workers} {job : Nat}
    (hjob : (v.carry i).unverified = some job) : idAt v.store job ∈ v.share L i := by
  rw [View.share, View.pending_of_unverified hjob]
  exact Multiset.mem_add.mpr (.inr (Multiset.mem_singleton_self _))

theorem Accounts.nodup_shares (h : Accounts config v L) : (∑ i, v.share L i).Nodup :=
  h.shares ▸ Multiset.nodup_range _

/-- The job in a worker's hands was popped. -/
theorem Accounts.id_lt (h : Accounts config v L) {i : Fin workers} {job : Nat}
    (hjob : (v.carry i).unverified = some job) : idAt v.store job < L.popped := by
  rw [← Multiset.mem_range, ← h.shares]
  exact mem_total (f := v.share L) (h.mem_share hjob)

/-- Two workers have different jobs in their hands. -/
theorem Accounts.id_unique (h : Accounts config v L) {i j : Fin workers} {job job' : Nat}
    (hi : (v.carry i).unverified = some job) (hj : (v.carry j).unverified = some job')
    (hid : idAt v.store job = idAt v.store job') : i = j :=
  eq_of_mem_shares h.nodup_shares (h.mem_share hi) (hid ▸ h.mem_share hj)

/-! ### Frames -/

/-- Books that read the same blocks with the same contents. -/
theorem Accounts.congr_store (h : Accounts config v L) (store : Nat → Option Job) (parcel : Parcel)
    (hqueue : ∀ job ∈ L.queue, store job = v.store job)
    (hcarry : ∀ i job, (v.carry i).unverified = some job → store job = v.store job)
    (hparcel : ∀ index job checksum, parcel = .filled index job checksum →
      index = v.produced ∧ checksum = taskChecksum config index ∧ idAt store job = index ∧
        Genuine config store job) :
    Accounts config { v with store := store, parcel := parcel } L := by
  have hpending (i : Fin workers) : View.pending { v with store := store, parcel := parcel } i = v.pending i := by
    unfold View.pending
    cases hjob : (v.carry i).unverified with
    | none => rfl
    | some job =>
        simp only
        rw [idAt_congr (hcarry i job hjob)]
  exact
    { fits := h.fits
      contents := h.contents
      genuine := fun job hjob => (h.genuine job hjob).congr (hqueue job hjob)
      order := by
        rw [← h.order]
        exact List.map_congr_left fun job hjob => idAt_congr (hqueue job hjob)
      produced := h.produced
      carried := fun i job hjob => (h.carried i job hjob).congr (hcarry i job hjob)
      shares := by
        rw [← h.shares]
        exact Finset.sum_congr rfl fun i _ => congrArg (L.done i + ·) (hpending i)
      seen := fun id => by
        rw [h.seen id]
        refine and_congr_right fun _ => forall_congr' fun i => forall_congr' fun job => ?_
        refine imp_congr_right fun hpopped => ?_
        rw [idAt_congr (hcarry i job (by rw [hpopped]; rfl))]
      result := h.result
      expected := h.expected
      parcel := hparcel }

end Hplf.Pool
