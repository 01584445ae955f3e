import HplfMalloc.WorkerPool

/-!
# Benchmark traces and payloads

The parts of `workloads.c` that its workloads share: the generator of the traces, which fixes what each worker will
do before the clock starts, and the pattern that is written into a block and checked before the block is given back.
-/

namespace Hplf.Bench

open Hplf.Pool (mix64)

/-- `enum benchmark_workload`. -/
inductive Workload
  | fixed
  | random
  | mixed
  | burst
  | large
  | handoff
  | ring
  | churn
  | queueOnly
  deriving DecidableEq, Repr

/-- `struct benchmark_config`. -/
structure BenchmarkConfig where
  workload : Workload
  threads : Nat
  seed : UInt64
  warmupNs : UInt64
  durationNs : UInt64
  liveSlots : Nat
  fixedSize : Nat
  deriving DecidableEq, Repr

inductive TraceKind
  | pair
  | allocate
  | free
  | toggle
  deriving DecidableEq, Repr

structure TraceEntry where
  slot : Nat
  size : Nat
  key : UInt64
  kind : TraceKind
  deriving DecidableEq, Repr

/-! ### Traces -/

/-- The number that `random_next` returns, and the next state. -/
def randomNext (state : UInt64) : UInt64 × UInt64 :=
  let value := state ^^^ (state >>> 12)
  let value := value ^^^ (value <<< 25)
  let value := value ^^^ (value >>> 27)
  (value * 0x2545f4914f6cdd1d, value)

def largeSizes : List Nat :=
  [4096, 4097, 65536, 1024 * 1024]

def traceSizeFor (workload : Workload) (random : UInt64) : Nat :=
  match workload with
  | .fixed | .handoff | .ring | .churn | .queueOnly => 64
  | .random | .mixed | .burst => 8 + random.toNat % (4096 - 8 + 1)
  | .large => largeSizes.getD (random.toNat % largeSizes.length) 0

/-- The size of an entry; only the fixed size takes no number from the generator. -/
def entrySize (config : BenchmarkConfig) (state : UInt64) : Nat × UInt64 :=
  if config.workload = .fixed then
    (config.fixedSize, state)
  else
    let (random, state) := randomNext state
    (traceSizeFor config.workload random, state)

/-- The slots that `prepare_slots` fills and the trace leaves alone. -/
def heldSlots (config : BenchmarkConfig) : Nat :=
  if config.workload = .mixed ∧ config.liveSlots ≥ 4 then config.liveSlots / 4 else 0

def entrySlot (config : BenchmarkConfig) (index : Nat) (random : UInt64) : Nat :=
  if config.workload = .burst then
    index % config.liveSlots
  else if config.workload = .mixed ∧ config.liveSlots ≥ 4 then
    heldSlots config + random.toNat % (config.liveSlots - heldSlots config)
  else
    random.toNat % config.liveSlots

def entryKind (config : BenchmarkConfig) (index : Nat) : TraceKind :=
  match config.workload with
  | .fixed | .large => .pair
  | .burst => if index < config.liveSlots then .allocate else .free
  | _ => .toggle

/-- The body of the inner loop of `generate_traces`. -/
def generateEntry (config : BenchmarkConfig) (index : Nat) (state : UInt64) : TraceEntry × UInt64 :=
  let (random, state) := randomNext state
  let (size, state) := entrySize config state
  let (key, state) := randomNext state
  ({ slot := entrySlot config index random
     size := size
     key := key
     kind := entryKind config index }, state)

def generateEntries (config : BenchmarkConfig) : Nat → Nat → UInt64 → List TraceEntry
  | 0, _, _ => []
  | n + 1, index, state =>
      let (entry, state) := generateEntry config index state
      entry :: generateEntries config n (index + 1) state

def maxTraceEntries : Nat := 8000000

def traceLength (config : BenchmarkConfig) : Nat :=
  if config.workload = .burst then config.liveSlots * 2 else 4096

/-- The part of the trace that belongs to a worker. -/
def workerTrace (config : BenchmarkConfig) (worker : Nat) : List TraceEntry :=
  generateEntries config (traceLength config) 0 (mix64 (config.seed ^^^ UInt64.ofNat worker))

/-- The traces of all workers, one after the other. -/
def generateTraces (config : BenchmarkConfig) : Option (List TraceEntry) :=
  if traceLength config = 0 ∨ config.threads > maxTraceEntries / traceLength config then none
  else some ((List.range config.threads).flatMap (workerTrace config))

/-- `run->traces[worker * run->trace_length + sequence % run->trace_length]`. -/
def traceEntry (config : BenchmarkConfig) (worker sequence : Nat) : TraceEntry :=
  (workerTrace config worker).getD (sequence % traceLength config) ⟨0, 0, 0, .pair⟩

def TraceKind.code : TraceKind → UInt64
  | .pair => 0
  | .allocate => 1
  | .free => 2
  | .toggle => 3

def traceChecksum (traces : List TraceEntry) : UInt64 :=
  traces.foldl (fun checksum entry =>
    (checksum ^^^ mix64 (entry.key ^^^ UInt64.ofNat entry.size ^^^ UInt64.ofNat entry.slot ^^^ entry.kind.code))
      * 1099511628211) 1469598103934665603

/-! ### Payloads -/

def patternByte (key : UInt64) (offset : Nat) : UInt8 :=
  (mix64 (key ^^^ (UInt64.ofNat offset * 0x9e3779b97f4a7c15))).toUInt8

def touchedPrefix : Nat := 64

/-- The offsets that `payload_fill` and `payload_check` go over: the first ones and the last one. -/
def touchedOffsets (size : Nat) : List Nat :=
  let count := min size touchedPrefix
  List.range count ++ if size > count then [size - 1] else []

def byteChecksum (key : UInt64) (offset : Nat) (value : UInt8) : UInt64 :=
  mix64 (key ^^^ UInt64.ofNat offset ^^^ value.toUInt64)

/-- Writes one byte of the pattern and adds it to the checksum. -/
def fillByte (key : UInt64) (filled : (Nat → UInt8) × UInt64) (offset : Nat) : (Nat → UInt8) × UInt64 :=
  let value := patternByte key offset
  (Function.update filled.1 offset value, filled.2 + byteChecksum key offset value)

/-- The bytes after `payload_fill`, and the checksum it returns. -/
def payloadFill (bytes : Nat → UInt8) (size : Nat) (key : UInt64) : (Nat → UInt8) × UInt64 :=
  (touchedOffsets size).foldl (fillByte key) (bytes, 0)

def checkByte (bytes : Nat → UInt8) (key observed : UInt64) (offset : Nat) : Option UInt64 :=
  if bytes offset = patternByte key offset then
    some (observed + byteChecksum key offset (bytes offset))
  else
    none

/-- What `payload_check` adds to the checksum; `none` if a byte is not as it was filled. -/
def payloadCheck (bytes : Nat → UInt8) (size : Nat) (key : UInt64) : Option UInt64 :=
  (touchedOffsets size).foldlM (checkByte bytes key) 0

/-- The checksum of a payload that is as it was filled. -/
def payloadChecksum (size : Nat) (key : UInt64) : UInt64 :=
  ((touchedOffsets size).map fun offset => byteChecksum key offset (patternByte key offset)).sum

/-- The bytes that are checked are those that were filled in. -/
def Filled (bytes : Nat → UInt8) (size : Nat) (key : UInt64) : Prop :=
  ∀ offset ∈ touchedOffsets size, bytes offset = patternByte key offset

section Folds

variable {key : UInt64} {bytes : Nat → UInt8}

/-- Filling in any offsets leaves the others alone. -/
theorem fill_foldl_of_notMem (offsets : List Nat) {offset : Nat} (hnotMem : offset ∉ offsets) (checksum : UInt64) :
    (offsets.foldl (fillByte key) (bytes, checksum)).1 offset = bytes offset := by
  induction offsets generalizing bytes checksum with
  | nil => rfl
  | cons first offsets ih =>
      rw [List.mem_cons, not_or] at hnotMem
      rw [List.foldl_cons, fillByte, ih hnotMem.2, Function.update_of_ne hnotMem.1]

theorem fill_foldl_of_mem (offsets : List Nat) {offset : Nat} (hmem : offset ∈ offsets) (checksum : UInt64) :
    (offsets.foldl (fillByte key) (bytes, checksum)).1 offset = patternByte key offset := by
  induction offsets generalizing bytes checksum with
  | nil => exact absurd hmem List.not_mem_nil
  | cons first offsets ih =>
      rw [List.foldl_cons, fillByte]
      by_cases htail : offset ∈ offsets
      · exact ih htail _
      · have hfirst : offset = first := (List.mem_cons.mp hmem).resolve_right htail
        rw [fill_foldl_of_notMem offsets htail, hfirst, Function.update_self]

theorem check_foldlM (offsets : List Nat) (hfilled : ∀ offset ∈ offsets, bytes offset = patternByte key offset)
    (observed : UInt64) :
    offsets.foldlM (checkByte bytes key) observed
      = some (observed + (offsets.map fun offset => byteChecksum key offset (patternByte key offset)).sum) := by
  induction offsets generalizing observed with
  | nil =>
      rw [List.foldlM_nil, List.map_nil, List.sum_nil, UInt64.add_zero]
      rfl
  | cons first offsets ih =>
      have hfirst : bytes first = patternByte key first := hfilled first List.mem_cons_self
      rw [List.foldlM_cons, checkByte, if_pos hfirst, Option.bind_eq_bind, Option.bind_some,
        ih (fun offset hmem => hfilled offset (List.mem_cons_of_mem _ hmem)), hfirst, List.map_cons, List.sum_cons,
        UInt64.add_assoc]

end Folds

theorem filled_payloadFill (bytes : Nat → UInt8) (size : Nat) (key : UInt64) :
    Filled (payloadFill bytes size key).1 size key :=
  fun _ hmem => fill_foldl_of_mem _ hmem 0

theorem payloadCheck_eq_of_filled {bytes : Nat → UInt8} {size : Nat} {key : UInt64} (hfilled : Filled bytes size key) :
    payloadCheck bytes size key = some (payloadChecksum size key) := by
  rw [payloadCheck, check_foldlM _ hfilled, UInt64.zero_add]
  rfl

end Hplf.Bench
