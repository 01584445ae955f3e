import HplfMalloc.QueueBenchmark

/-!
# The traces of the benchmark

`generate_traces` fills one array for all workers. Each worker finds its own entries in it at every sequence number,
and no entry leaves the slots of the worker or asks for a size that the allocator would refuse.
-/

namespace Hplf.Bench

open Hplf.Queue (State.InRange)

/-! ### Lists of equal length in a row -/

theorem getElem?_flatMap_range {α : Type*} (f : Nat → List α) {length : Nat} (hlength : ∀ i, (f i).length = length)
    {n i k : Nat} (hi : i < n) (hk : k < length) : ((List.range n).flatMap f)[i * length + k]? = (f i)[k]? := by
  induction n with
  | zero => exact absurd hi (Nat.not_lt_zero _)
  | succ n ih =>
      have hbefore : ((List.range n).flatMap f).length = n * length := by
        simp [List.length_flatMap, hlength]
      rw [List.range_succ, List.flatMap_append, List.flatMap_singleton]
      rcases Nat.lt_succ_iff_lt_or_eq.mp hi with hlt | rfl
      · have hinside : i * length + k < n * length :=
          calc i * length + k < i * length + length := Nat.add_lt_add_left hk _
            _ = (i + 1) * length := (Nat.succ_mul i length).symm
            _ ≤ n * length := Nat.mul_le_mul_right length hlt
        rw [List.getElem?_append_left (hbefore ▸ hinside)]
        exact ih hlt
      · rw [List.getElem?_append_right (hbefore ▸ Nat.le_add_right _ _), hbefore, Nat.add_sub_cancel_left]

/-! ### The entries of a worker -/

variable {config : BenchmarkConfig}

theorem length_generateEntries (n index : Nat) (state : UInt64) :
    (generateEntries config n index state).length = n := by
  induction n generalizing index state with
  | zero => rfl
  | succ n ih => rw [generateEntries, List.length_cons, ih]

theorem length_workerTrace (worker : Nat) : (workerTrace config worker).length = traceLength config :=
  length_generateEntries _ _ _

/-- Each entry is generated from some state of the generator. -/
theorem exists_generateEntry (n index k : Nat) (state : UInt64) (hk : k < n) :
    ∃ state', (generateEntries config n index state)[k]? = some (generateEntry config (index + k) state').1 := by
  induction n generalizing index k state with
  | zero => exact absurd hk (Nat.not_lt_zero _)
  | succ n ih =>
      cases k with
      | zero => exact ⟨state, rfl⟩
      | succ k =>
          obtain ⟨state', hstate⟩ := ih (index + 1) k (generateEntry config index state).2 (Nat.lt_of_succ_lt_succ hk)
          exact ⟨state', by rw [generateEntries, List.getElem?_cons_succ, hstate, Nat.add_right_comm, Nat.add_assoc]⟩

theorem heldSlots_le (hslots : 0 < config.liveSlots) : heldSlots config < config.liveSlots := by
  unfold heldSlots
  split
  · omega
  · exact hslots

theorem entrySlot_lt (hslots : 0 < config.liveSlots) (index : Nat) (random : UInt64) :
    entrySlot config index random < config.liveSlots := by
  have hheld := heldSlots_le hslots
  unfold entrySlot
  split
  · exact Nat.mod_lt _ hslots
  · split
    · have hmod := Nat.mod_lt random.toNat (Nat.sub_pos_of_lt hheld)
      omega
    · exact Nat.mod_lt _ hslots

/-- The trace leaves those slots alone that `prepare_slots` has filled. -/
theorem heldSlots_le_entrySlot (index : Nat) (random : UInt64) : heldSlots config ≤ entrySlot config index random := by
  unfold entrySlot
  by_cases hburst : config.workload = .burst
  · rw [if_pos hburst, heldSlots, if_neg (by rw [hburst]; rintro ⟨hmixed, -⟩; cases hmixed)]
    exact Nat.zero_le _
  · rw [if_neg hburst]
    by_cases hmixed : config.workload = .mixed ∧ config.liveSlots ≥ 4
    · rw [if_pos hmixed]
      exact Nat.le_add_right _ _
    · rw [if_neg hmixed, heldSlots, if_neg hmixed]
      exact Nat.zero_le _

theorem traceSizeFor_bounds (workload : Workload) (random : UInt64) :
    0 < traceSizeFor workload random ∧ traceSizeFor workload random ≤ 1048576 := by
  have hmod := Nat.mod_lt random.toNat (show 0 < 4096 - 8 + 1 by decide)
  cases workload with
  | fixed | handoff | ring | churn | queueOnly =>
      change 0 < 64 ∧ 64 ≤ 1048576
      decide
  | random | mixed | burst =>
      simp only [traceSizeFor]
      omega
  | large =>
      have hindex : random.toNat % 4 < 4 := Nat.mod_lt _ (by decide)
      change 0 < largeSizes.getD (random.toNat % 4) 0 ∧ largeSizes.getD (random.toNat % 4) 0 ≤ 1048576
      generalize random.toNat % 4 = index at hindex
      revert index
      decide

theorem entrySize_bounds (hrange : State.InRange config) (state : UInt64) :
    0 < (entrySize config state).1 ∧ (entrySize config state).1 ≤ 9223372036854775807 := by
  unfold entrySize
  by_cases hfixed : config.workload = .fixed
  · rw [if_pos hfixed]
    exact ⟨hrange.2.2.2.2.1, hrange.2.2.2.2.2.1⟩
  · rw [if_neg hfixed]
    have hbounds := traceSizeFor_bounds config.workload (randomNext state).1
    exact ⟨hbounds.1, hbounds.2.trans (by decide)⟩

/-- An entry that a worker can carry out: the slot is one that the trace may use and the size one that can be
allocated; a burst allocates each slot once and then gives each back. -/
structure TraceEntry.Sound (config : BenchmarkConfig) (position : Nat) (entry : TraceEntry) : Prop where
  slot_lt : entry.slot < config.liveSlots
  held_le : heldSlots config ≤ entry.slot
  size_pos : 0 < entry.size
  size_le : entry.size ≤ 9223372036854775807
  burst : config.workload = .burst →
    entry.slot = position % config.liveSlots ∧
      entry.kind = if position < config.liveSlots then .allocate else .free

theorem sound_generateEntry (hrange : State.InRange config) (index : Nat) (state : UInt64) :
    (generateEntry config index state).1.Sound config index where
  slot_lt := entrySlot_lt hrange.2.2.1 index _
  held_le := heldSlots_le_entrySlot index _
  size_pos := (entrySize_bounds hrange _).1
  size_le := (entrySize_bounds hrange _).2
  burst hburst := by
    refine ⟨?_, ?_⟩
    · change entrySlot config index _ = _
      rw [entrySlot, if_pos hburst]
    · change entryKind config index = _
      rw [entryKind, hburst]

/-- **The traces.** Each worker finds its entry of every sequence number in the array, and it is one that it can carry
out. -/
theorem traces_sound (config : BenchmarkConfig) (hrange : State.InRange config) (traces : List TraceEntry)
    (htraces : generateTraces config = some traces) (worker sequence : Nat) (hworker : worker < config.threads) :
    traces[worker * traceLength config + sequence % traceLength config]? = some (traceEntry config worker sequence) ∧
      (traceEntry config worker sequence).Sound config (sequence % traceLength config) := by
  unfold generateTraces at htraces
  split at htraces
  · cases htraces
  next hroom =>
    rw [not_or] at hroom
    have hposition : sequence % traceLength config < traceLength config :=
      Nat.mod_lt _ (Nat.pos_of_ne_zero hroom.1)
    obtain ⟨state, hentry⟩ : ∃ state, (workerTrace config worker)[sequence % traceLength config]?
        = some (generateEntry config (0 + sequence % traceLength config) state).1 :=
      exists_generateEntry _ 0 _ _ hposition
    have hfound : (workerTrace config worker)[sequence % traceLength config]?
        = some (traceEntry config worker sequence) := by
      unfold traceEntry
      rw [List.getD_eq_getElem?_getD, hentry]
      rfl
    rw [← Option.some.inj htraces, getElem?_flatMap_range _ length_workerTrace hworker hposition]
    refine ⟨hfound, ?_⟩
    rw [hentry, Nat.zero_add] at hfound
    rw [← Option.some.inj hfound]
    exact sound_generateEntry hrange _ state

/-- Two workers with two slots each. -/
def twoBursts : BenchmarkConfig where
  workload := .burst
  threads := 2
  seed := 7
  warmupNs := 1
  durationNs := 1
  liveSlots := 2
  fixedSize := 64

/-- The second worker gives its second block back. -/
theorem traces_sound_two_bursts :
    ∃ traces entry, generateTraces twoBursts = some traces ∧ traces[7]? = some entry ∧ entry.slot = 1 ∧
      entry.kind = .free := by
  have hsound := traces_sound twoBursts (by decide) _ rfl 1 3 (by decide)
  exact ⟨_, _, rfl, hsound.1, hsound.2.burst rfl⟩

end Hplf.Bench
