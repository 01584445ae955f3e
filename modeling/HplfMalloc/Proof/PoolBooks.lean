import HplfMalloc.Proof.PoolLedger
import Mathlib.Tactic.Abel

/-!
# Keeping the books of the worker pool

One lemma for each way a job goes on: into the queue, to a worker, through the worker's checks and back to the
allocator.
-/

namespace Hplf.Pool

open Lib
open scoped BigOperators

variable {config : Configuration} {workers : Nat} {v : View workers} {i : Fin workers} {job : Nat}

/-- There are books for the state. -/
def Books (config : Configuration) (v : View workers) : Prop :=
  ∃ L : Ledger workers, Possession v L.queue ∧ Accounts config v L

/-! ### One worker's share -/

def View.setCarry (v : View workers) (i : Fin workers) (carry : Carry) : View workers :=
  { v with carry := Function.update v.carry i carry }

theorem View.setCarry_self (v : View workers) (i : Fin workers) (carry : Carry) :
    (v.setCarry i carry).carry i = carry :=
  Function.update_self _ _ _

theorem View.setCarry_of_ne (v : View workers) {i j : Fin workers} (carry : Carry) (hne : j ≠ i) :
    (v.setCarry i carry).carry j = v.carry j :=
  Function.update_of_ne hne _ _

theorem View.blocks_setCarry (v : View workers) (i : Fin workers) (carry : Carry) :
    (fun j => ((v.setCarry i carry).carry j).block) = Function.update (fun j => (v.carry j).block) i carry.block := by
  funext j
  by_cases hj : j = i
  · subst hj
    rw [View.setCarry_self, Function.update_self]
  · rw [View.setCarry_of_ne _ _ hj, Function.update_of_ne hj]

theorem View.share_setCarry (v : View workers) (L : Ledger workers) (i : Fin workers) (carry : Carry) :
    (v.setCarry i carry).share L = Function.update (v.share L) i ((v.setCarry i carry).share L i) := by
  funext j
  by_cases hj : j = i
  · subst hj
    rw [Function.update_self]
  · rw [Function.update_of_ne hj, View.share, View.share, View.pending, View.pending, View.setCarry_of_ne _ _ hj]
    rfl

/-- The worker holds the same block as before. -/
theorem View.owned_setCarry_same {carry : Carry} {queue : List Nat} (hblock : carry.block = (v.carry i).block) :
    (v.setCarry i carry).owned queue = v.owned queue := by
  have hsum := sum_update_same (f := fun j => (v.carry j).block) (i := i) hblock
  rw [View.owned, View.owned, View.blocks_setCarry, hsum]
  rfl

theorem carry_nothing_unverified {i : Fin workers} (hcarry : v.carry i = .nothing) : v.pending i = 0 := by
  rw [View.pending, hcarry]
  rfl

/-! ### Through the queue -/

/-- A worker takes the front of the queue. -/
theorem Books.take (h : Books config v) (hcarry : v.carry i = .nothing) (hcount : v.ring.count ≠ 0)
    (hfront : v.ring.front = some job) :
    Books config { v with
      ring := (v.ring.setFront none).pop
      carry := Function.update v.carry i (.popped job) } := by
  obtain ⟨⟨queue, popped, done⟩, hpos, hacc⟩ := h
  have hcontents := hacc.contents
  rw [RingBuffer.contents_pop hacc.fits hcount, hfront] at hcontents
  obtain ⟨rest, rfl, hrest⟩ : ∃ rest, queue = job :: rest ∧ v.ring.pop.contents = rest.map some := by
    cases queue with
    | nil => cases hcontents
    | cons head rest =>
        obtain ⟨hhead, hrest⟩ := List.cons.inj hcontents
        exact ⟨rest, by rw [Option.some.inj hhead], hrest⟩
  have hid : idAt v.store job = popped := by
    have horder := hacc.order
    rw [List.map_cons, List.length_cons, List.range'_succ] at horder
    exact (List.cons.inj horder).1
  refine ⟨⟨rest, popped + 1, done⟩, ?_, ?_⟩
  · refine hpos.congr ?_ fun _ => rfl
    have hsum := sum_update_gain (f := fun j => (v.carry j).block) (i := i) (x := {job}) {job}
      (by simp only [hcarry, Carry.block, zero_add])
    calc ((rest : Multiset Nat) + v.parcel.block + ∑ j, ((v.setCarry i (.popped job)).carry j).block)
        = (rest : Multiset Nat) + v.parcel.block + (∑ j, (v.carry j).block + {job}) := by
          rw [View.blocks_setCarry, ← hsum]
          rfl
      _ = (job :: rest : List Nat) + v.parcel.block + ∑ j, (v.carry j).block := by
          rw [← Multiset.cons_coe, ← Multiset.singleton_add]
          abel
  · refine
      { fits := (hacc.fits.setFront none).pop
        contents := (RingBuffer.contents_setFront_pop hacc.fits none).trans hrest
        genuine := fun other hother => hacc.genuine other (List.mem_cons_of_mem _ hother)
        order := ?_
        produced := ?_
        carried := ?_
        shares := ?_
        seen := ?_
        result := hacc.result
        expected := hacc.expected
        parcel := hacc.parcel }
    · have horder := hacc.order
      rw [List.map_cons, List.length_cons, List.range'_succ] at horder
      exact (List.cons.inj horder).2
    · have hproduced := hacc.produced
      simp only [List.length_cons] at hproduced ⊢
      omega
    · intro j other hother
      by_cases hj : j = i
      · subst hj
        simp only [Function.update_self, Carry.unverified, Option.some.injEq] at hother
        exact hother ▸ hacc.genuine job List.mem_cons_self
      · simp only [Function.update_of_ne hj] at hother
        exact hacc.carried j other hother
    · have hpending : v.share ⟨job :: rest, popped, done⟩ i = done i := by
        rw [View.share, carry_nothing_unverified hcarry, add_zero]
      have hafter : (v.setCarry i (.popped job)).share ⟨rest, popped + 1, done⟩ i = done i + {popped} := by
        have hjob : ((v.setCarry i (.popped job)).carry i).unverified = some job := by
          rw [View.setCarry_self]
          rfl
        rw [View.share, View.pending_of_unverified hjob]
        exact congrArg (fun id => done i + {id}) hid
      calc ∑ j, (v.setCarry i (.popped job)).share ⟨rest, popped + 1, done⟩ j
          = (∑ j, v.share ⟨job :: rest, popped, done⟩ j) + {popped} := by
            rw [View.share_setCarry, hafter]
            exact sum_update_gain (f := v.share ⟨job :: rest, popped, done⟩) {popped} (by rw [hpending])
        _ = Multiset.range (popped + 1) := by
            rw [hacc.shares, Multiset.range_succ, ← Multiset.singleton_add, add_comm]
    · intro id
      refine (hacc.seen id).trans ?_
      constructor
      · rintro ⟨hlt, hothers⟩
        refine ⟨Nat.lt_succ_of_lt hlt, fun j other hother => ?_⟩
        by_cases hj : j = i
        · subst hj
          simp only [Function.update_self, Carry.popped.injEq] at hother
          subst hother
          exact fun heq => hlt.ne (heq.symm.trans hid)
        · simp only [Function.update_of_ne hj] at hother
          exact hothers j other hother
      · rintro ⟨hlt, hothers⟩
        have hne : id ≠ popped := fun heq => hothers i job (Function.update_self _ _ _) (hid.trans heq.symm)
        refine ⟨lt_of_le_of_ne (Nat.le_of_lt_succ hlt) hne, fun j other hother => ?_⟩
        have hj : j ≠ i := fun heq => by
          rw [heq, hcarry] at hother
          cases hother
        exact hothers j other ((Function.update_of_ne hj _ _).trans hother)

/-- `main` puts a filled job into the queue. -/
theorem Books.put (h : Books config v) {index : Nat} {checksum : UInt64}
    (hparcel : v.parcel = .filled index job checksum) (hroom : v.ring.count ≠ v.ring.capacity) :
    Books config { v with
      ring := v.ring.push (some job)
      parcel := .nothing
      produced := v.produced + 1
      expected := v.expected + checksum } := by
  obtain ⟨⟨queue, popped, done⟩, hpos, hacc⟩ := h
  obtain ⟨hindex, hchecksum, hid, hgenuine⟩ := hacc.parcel index job checksum hparcel
  have hlt : v.ring.count < v.ring.capacity := lt_of_le_of_ne hacc.fits.count_le hroom
  refine ⟨⟨queue ++ [job], popped, done⟩, ?_, ?_⟩
  · refine hpos.congr ?_ fun _ => rfl
    calc ((queue ++ [job] : List Nat) : Multiset Nat) + Parcel.nothing.block + ∑ j, (v.carry j).block
        = queue + {job} + ∑ j, (v.carry j).block := by
          rw [← Multiset.coe_add, Multiset.coe_singleton]
          simp only [Parcel.block, add_zero]
      _ = v.owned queue := by
          rw [View.owned, hparcel]
          rfl
  · refine
      { fits := hacc.fits.push hlt _
        contents := ?_
        genuine := ?_
        order := ?_
        produced := ?_
        carried := hacc.carried
        shares := hacc.shares
        seen := hacc.seen
        result := hacc.result
        expected := ?_
        parcel := fun _ _ _ hnone => nomatch hnone }
    · simp only [RingBuffer.contents_push hacc.fits hlt, hacc.contents, List.map_append, List.map_cons, List.map_nil]
    · intro other hother
      rcases List.mem_append.mp hother with hold | hnew
      · exact hacc.genuine other hold
      · exact List.mem_singleton.mp hnew ▸ hgenuine
    · have hproduced : popped + queue.length = v.produced := hacc.produced
      have horder := hacc.order
      simp only at horder
      simp only [List.map_append, List.map_cons, List.map_nil, List.length_append, List.length_cons, List.length_nil,
        zero_add, List.range'_concat, horder, hid, hindex, ← hproduced, one_mul]
    · simp only [List.length_append, List.length_cons, List.length_nil, ← hacc.produced]
      omega
    · simp only [hacc.expected, hchecksum, hindex, Multiset.range_succ, Multiset.map_cons, Multiset.sum_cons, add_comm]

/-! ### In a worker's hands -/

/-- A change of what a worker has done with its job that moves nothing. -/
theorem Accounts.setCarry {L : Ledger workers} (hacc : Accounts config v L) {carry : Carry} (seen : Nat → Bool)
    {result : Fin workers → WorkerResult} (done : Fin workers → Multiset Nat)
    (hcarried : ∀ other, carry.unverified = some other → Genuine config v.store other)
    (hshares : ∑ j, (v.setCarry i carry).share { L with done := done } j = ∑ j, v.share L j)
    (hseen : ∀ id, seen id = true ↔ id < L.popped ∧ ∀ j other, (v.setCarry i carry).carry j = .popped other →
      idAt v.store other ≠ id)
    (hresult : ∀ j, result j
      = ⟨Multiset.card (done j), 0, 0, ((done j).map (taskChecksum config)).sum, false⟩) :
    Accounts config { v with seen := seen, result := result, carry := Function.update v.carry i carry }
      { L with done := done } where
  fits := hacc.fits
  contents := hacc.contents
  genuine := hacc.genuine
  order := hacc.order
  produced := hacc.produced
  carried j other hother := by
    by_cases hj : j = i
    · subst hj
      exact hcarried other (by simpa [Function.update_self] using hother)
    · exact hacc.carried j other (by simpa [Function.update_of_ne hj] using hother)
  shares := hshares.trans hacc.shares
  seen := hseen
  result := hresult
  expected := hacc.expected
  parcel := hacc.parcel

/-- A worker that marks its job finds it unmarked. -/
theorem Accounts.unseen {L : Ledger workers} (hacc : Accounts config v L) (hcarry : v.carry i = .popped job) :
    v.seen (idAt v.store job) = false := by
  rw [Bool.eq_false_iff]
  intro hseen
  exact ((hacc.seen _).mp hseen).2 i job hcarry rfl

theorem Books.mark (h : Books config v) (hcarry : v.carry i = .popped job) :
    Books config { v with
      seen := Function.update v.seen (idAt v.store job) true
      carry := Function.update v.carry i (.marked job) } := by
  obtain ⟨L, hpos, hacc⟩ := h
  have hunverified : (v.carry i).unverified = some job := by rw [hcarry]; rfl
  refine ⟨L, ?_, ?_⟩
  · have hblock : (Carry.marked job).block = (v.carry i).block := by rw [hcarry]; rfl
    exact hpos.congr (View.owned_setCarry_same hblock) fun _ => rfl
  · refine hacc.setCarry (Function.update v.seen (idAt v.store job) true) L.done ?_ ?_ ?_ hacc.result
    · intro other hother
      cases hother
      exact hacc.carried i job hunverified
    · have hsame : (v.setCarry i (.marked job)).share L i = v.share L i := by
        have hjob : ((v.setCarry i (.marked job)).carry i).unverified = some job := by
          rw [View.setCarry_self]
          rfl
        rw [View.share, View.share, View.pending_of_unverified hunverified, View.pending_of_unverified hjob]
        rfl
      calc ∑ j, (v.setCarry i (.marked job)).share L j
          = ∑ j, Function.update (v.share L) i ((v.setCarry i (.marked job)).share L i) j := by
            rw [← View.share_setCarry]
        _ = ∑ j, v.share L j := sum_update_same hsame
    · intro id
      by_cases hid : id = idAt v.store job
      · subst hid
        refine iff_of_true (Function.update_self _ _ _) ⟨hacc.id_lt hunverified, fun j other hother heq => ?_⟩
        by_cases hj : j = i
        · subst hj
          rw [View.setCarry_self] at hother
          cases hother
        · rw [View.setCarry_of_ne _ _ hj] at hother
          have hjob : (v.carry j).unverified = some other := by rw [hother]; rfl
          exact hj (hacc.id_unique hjob hunverified heq)
      · rw [Function.update_of_ne hid, hacc.seen id]
        refine and_congr_right fun _ => ⟨fun hothers j other hother => ?_, fun hothers j other hother => ?_⟩
        · by_cases hj : j = i
          · subst hj
            rw [View.setCarry_self] at hother
            cases hother
          · exact hothers j other ((View.setCarry_of_ne _ _ hj).symm.trans hother)
        · by_cases hj : j = i
          · subst hj
            rw [hcarry] at hother
            cases hother
            exact Ne.symm hid
          · exact hothers j other ((View.setCarry_of_ne _ _ hj).trans hother)

/-- A worker counts its job. -/
theorem Books.verify (h : Books config v) (hcarry : v.carry i = .marked job) :
    Books config { v with
      result := Function.update v.result i
        { v.result i with
          checksum := (v.result i).checksum + taskChecksum config (idAt v.store job)
          consumed := (v.result i).consumed + 1 }
      carry := Function.update v.carry i (.verified job) } := by
  obtain ⟨L, hpos, hacc⟩ := h
  have hunverified : (v.carry i).unverified = some job := by rw [hcarry]; rfl
  refine ⟨{ L with done := Function.update L.done i (idAt v.store job ::ₘ L.done i) }, ?_, ?_⟩
  · have hblock : (Carry.verified job).block = (v.carry i).block := by rw [hcarry]; rfl
    exact hpos.congr (View.owned_setCarry_same hblock) fun _ => rfl
  · refine hacc.setCarry v.seen _ (by intro _ hnone; cases hnone) ?_ ?_ ?_
    · refine Finset.sum_congr rfl fun j _ => ?_
      by_cases hj : j = i
      · subst hj
        have hpending : (v.setCarry j (.verified job)).pending j = 0 := by
          rw [View.pending, View.setCarry_self]
          rfl
        rw [View.share, View.share, View.pending_of_unverified hunverified, hpending, add_zero]
        simp only [Function.update_self, ← Multiset.singleton_add, add_comm]
      · rw [View.share, View.share, View.pending, View.pending, View.setCarry_of_ne _ _ hj]
        simp only [Function.update_of_ne hj]
        rfl
    · intro id
      rw [hacc.seen id]
      refine and_congr_right fun _ => forall_congr' fun j => forall_congr' fun other => ?_
      by_cases hj : j = i
      · subst hj
        rw [hcarry, View.setCarry_self]
        constructor <;> (intro _ hnone; cases hnone)
      · rw [View.setCarry_of_ne _ _ hj]
    · intro j
      by_cases hj : j = i
      · subst hj
        rw [Function.update_self, Function.update_self, hacc.result j, Multiset.card_cons, Multiset.map_cons,
          Multiset.sum_cons, add_comm (taskChecksum config _)]
      · rw [Function.update_of_ne hj, Function.update_of_ne hj]
        exact hacc.result j

/-- A worker gives its block back. -/
theorem Books.release (h : Books config v) (hcarry : v.carry i = .verified job) :
    Books config { v with
      store := Function.update v.store job none
      carry := Function.update v.carry i .nothing } := by
  obtain ⟨L, hpos, hacc⟩ := h
  have hblock : (v.carry i).block = {job} := by rw [hcarry]; rfl
  have hmem : job ∈ (v.carry i).block := hblock ▸ Multiset.mem_singleton_self job
  refine ⟨L, ?_, ?_⟩
  · apply hpos.lose _ rfl
    have hsum := sum_update_loss (f := fun j => (v.carry j).block) (i := i) (x := 0) {job} (by rw [hblock, zero_add])
    calc v.owned L.queue
        = L.queue + v.parcel.block + (∑ j, ((v.setCarry i .nothing).carry j).block + {job}) := by
          rw [View.blocks_setCarry, View.owned, hsum]
          rfl
      _ = job ::ₘ (v.setCarry i .nothing).owned L.queue := by
          rw [← Multiset.singleton_add, View.owned]
          exact (add_assoc _ _ _).symm.trans (add_comm _ _)
  · have hkept : Accounts config (v.setCarry i .nothing) L := by
      refine hacc.setCarry v.seen L.done (by intro _ hnone; cases hnone) ?_ ?_ hacc.result
      · refine Finset.sum_congr rfl fun j _ => ?_
        by_cases hj : j = i
        · subst hj
          rw [View.share, View.share, View.pending, View.pending, View.setCarry_self, hcarry]
          rfl
        · rw [View.share, View.share, View.pending, View.pending, View.setCarry_of_ne _ _ hj]
          rfl
      · intro id
        rw [hacc.seen id]
        refine and_congr_right fun _ => forall_congr' fun j => forall_congr' fun other => ?_
        by_cases hj : j = i
        · subst hj
          rw [hcarry, View.setCarry_self]
          constructor <;> (intro _ hnone; cases hnone)
        · rw [View.setCarry_of_ne _ _ hj]
    refine hkept.congr_store _ v.parcel (fun other hother => ?_) (fun j other hother => ?_) ?_
    · exact Function.update_of_ne (fun heq => hpos.queue_ne_carry (heq ▸ hother) hmem) _ _
    · apply Function.update_of_ne
      rintro rfl
      by_cases hj : j = i
      · subst hj
        rw [View.setCarry_self] at hother
        cases hother
      · rw [View.setCarry_of_ne _ _ hj] at hother
        exact hj (hpos.carry_unique (Carry.mem_block_of_unverified hother) hmem)
    · intro index other checksum hparcel
      obtain ⟨hindex, hchecksum, hid, hgenuine⟩ := hacc.parcel index other checksum hparcel
      have hne : other ≠ job := by
        rintro rfl
        exact hpos.parcel_ne_carry (by rw [hparcel]; exact Multiset.mem_singleton_self _) hmem
      have hsame : Function.update v.store job none other = v.store other := Function.update_of_ne hne _ _
      exact ⟨hindex, hchecksum, (idAt_congr hsame).trans hid, hgenuine.congr hsame⟩

/-! ### In the hands of `main` -/

theorem Books.allocate (h : Books config v) {contents : Job} (hparcel : v.parcel = .nothing)
    (hfresh : v.store job = none) :
    Books config { v with store := Function.update v.store job (some contents), parcel := .raw job } := by
  obtain ⟨L, hpos, hacc⟩ := h
  have hdead : job ∉ v.owned L.queue := by
    intro hmem
    have hlive := (hpos.live job).mp hmem
    rw [hfresh] at hlive
    exact Bool.false_ne_true hlive
  refine ⟨L, ?_, ?_⟩
  · apply hpos.gain hfresh _ rfl
    rw [View.owned, View.owned, hparcel, ← Multiset.singleton_add]
    simp only [Parcel.block, add_zero]
    abel
  · refine hacc.congr_store _ _ (fun other hother => ?_) (fun j other hother => ?_) (fun _ _ _ hnone => nomatch hnone)
    · have hne : other ≠ job := fun heq => hdead (heq ▸ View.mem_owned_queue (v := v) hother)
      exact Function.update_of_ne hne _ _
    · have hne : other ≠ job := fun heq =>
        hdead (heq ▸ View.mem_owned_carry (v := v) (Carry.mem_block_of_unverified hother))
      exact Function.update_of_ne hne _ _

/-- `main` writes the next job into its block. -/
theorem Books.fill (h : Books config v) {block : Job} (hparcel : v.parcel = .raw job)
    (hlive : v.store job = some block) :
    Books config { v with
      store := Function.update v.store job (some (writeJob config v.produced block))
      parcel := .filled v.produced job (jobChecksum (writeJob config v.produced block)) } := by
  obtain ⟨L, hpos, hacc⟩ := h
  have hmem : job ∈ v.parcel.block := hparcel ▸ Multiset.mem_singleton_self job
  refine ⟨L, ?_, ?_⟩
  · refine hpos.congr ?_ fun other => ?_
    · rw [View.owned, View.owned, hparcel]
      rfl
    · by_cases heq : other = job
      · subst heq
        simp [hlive]
      · simp [heq]
  · refine hacc.congr_store _ _ (fun other hother => ?_) (fun j other hother => ?_) ?_
    · exact Function.update_of_ne (fun heq => hpos.queue_ne_parcel (heq ▸ hother) hmem) _ _
    · exact Function.update_of_ne
        (fun heq => hpos.parcel_ne_carry hmem (heq ▸ Carry.mem_block_of_unverified hother)) _ _
    · intro index other checksum hfilled
      cases hfilled
      have hself : Function.update v.store job (some (writeJob config v.produced block)) job
          = some (writeJob config v.produced block) := Function.update_self _ _ _
      refine ⟨rfl, ?_, ?_, _, hself, written_writeJob _ _ _⟩
      · exact (written_writeJob config v.produced block).checksum
      · rw [idAt, hself]
        rfl

/-- `main` gives back a block that was not accepted. -/
theorem Books.discard (h : Books config v) (hparcel : v.parcel.block = {job}) :
    Books config { v with store := Function.update v.store job none, parcel := .nothing } := by
  obtain ⟨L, hpos, hacc⟩ := h
  have hmem : job ∈ v.parcel.block := hparcel ▸ Multiset.mem_singleton_self job
  refine ⟨L, ?_, ?_⟩
  · apply hpos.lose _ rfl
    rw [View.owned, View.owned, hparcel, ← Multiset.singleton_add]
    simp only [Parcel.block, add_zero]
    abel
  · refine hacc.congr_store _ _ (fun other hother => ?_) (fun j other hother => ?_) (fun _ _ _ hnone => nomatch hnone)
    · exact Function.update_of_ne (fun heq => hpos.queue_ne_parcel (heq ▸ hother) hmem) _ _
    · exact Function.update_of_ne
        (fun heq => hpos.parcel_ne_carry hmem (heq ▸ Carry.mem_block_of_unverified hother)) _ _

/-- A refused job is a block like any other. -/
theorem Books.refuse (h : Books config v) {index : Nat} {checksum : UInt64}
    (hparcel : v.parcel = .filled index job checksum) : Books config { v with parcel := .raw job } := by
  obtain ⟨L, hpos, hacc⟩ := h
  refine ⟨L, hpos.congr ?_ fun _ => rfl, ?_⟩
  · rw [View.owned, View.owned, hparcel]
    rfl
  · exact hacc.congr_store v.store _ (fun _ _ => rfl) (fun _ _ _ => rfl) (fun _ _ _ hnone => nomatch hnone)

end Hplf.Pool
