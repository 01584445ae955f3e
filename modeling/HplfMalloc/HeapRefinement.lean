import HplfMalloc.Layout
import HplfMalloc.Proof.Safety
import HplfMalloc.Proof.WholeCalls
import HplfMalloc.Schedule

/-!
# The heap a client sees

What the allocator is for, apart from how it works: a map from live pointers to their bytes. Any sequence
of calls of the public functions, by any threads one after the other and with the client writing into its
blocks in between, is a sequence of steps of this map, whatever the system answers. A call that asks for a
size the allocator accepts returns null only if the system has refused a mapping.
-/

namespace Hplf

open Lib Memory

/-! ### The abstract heap -/

/-- The calls of the interface, and a store by the client. -/
inductive HeapOp
  | malloc (size : Nat)
  | calloc (count size : Nat)
  | realloc (pointer : Ptr) (size : Nat)
  | free (pointer : Ptr)
  | threadFlush
  | trimQuiescent
  | write (pointer offset : Nat) (value : UInt8)
  deriving DecidableEq, Repr

/-- The bytes of each live pointer; the size of an allocation is their number, and a byte nobody has
stored since is not determined. -/
abbrev Heap := Nat → Option (List (Option UInt8))

/-- What an operation may return and do to the heap. -/
inductive HeapStep (heap : Heap) : HeapOp → Ptr → Heap → Prop
  | malloc {size p : Nat} {bytes : List (Option UInt8)} (hsize : 0 < size) (hfresh : heap p = none)
      (hlength : bytes.length = size) :
      HeapStep heap (.malloc size) (some p) (Function.update heap p (some bytes))
  | mallocNull {size : Nat} : HeapStep heap (.malloc size) none heap
  | calloc {count size p : Nat} (hsize : 0 < count * size) (hfresh : heap p = none) :
      HeapStep heap (.calloc count size) (some p)
        (Function.update heap p (some (List.replicate (count * size) (some 0))))
  | callocNull {count size : Nat} : HeapStep heap (.calloc count size) none heap
  | reallocNew {size : Nat} {result : Ptr} {heap' : Heap}
      (hmalloc : HeapStep heap (.malloc size) result heap') :
      HeapStep heap (.realloc none size) result heap'
  | reallocZero {p : Nat} : HeapStep heap (.realloc (some p) 0) none (Function.update heap p none)
  | reallocFailed {p size : Nat} (hsize : 0 < size) : HeapStep heap (.realloc (some p) size) none heap
  | retained {p size : Nat} {old bytes : List (Option UInt8)} (hsize : 0 < size)
      (hold : heap p = some old) (hlength : bytes.length = size)
      (hkept : bytes.take (min old.length size) = old.take (min old.length size)) :
      HeapStep heap (.realloc (some p) size) (some p) (Function.update heap p (some bytes))
  | moved {p q size : Nat} {old bytes : List (Option UInt8)} (hsize : 0 < size)
      (hold : heap p = some old) (hfresh : heap q = none) (hlength : bytes.length = size)
      (hkept : bytes.take (min old.length size) = old.take (min old.length size)) :
      HeapStep heap (.realloc (some p) size) (some q)
        (Function.update (Function.update heap p none) q (some bytes))
  | freeNull : HeapStep heap (.free none) none heap
  | free {p : Nat} : HeapStep heap (.free (some p)) none (Function.update heap p none)
  | threadFlush : HeapStep heap .threadFlush none heap
  | trimQuiescent : HeapStep heap .trimQuiescent none heap
  | write {p offset : Nat} {value : UInt8} {bytes : List (Option UInt8)} (hold : heap p = some bytes)
      (hoffset : offset < bytes.length) :
      HeapStep heap (.write p offset value) none
        (Function.update heap p (some (bytes.set offset (some value))))

/-- The abstract heap as a system; who performs an operation does not matter. -/
def heaps (Tid : Type) : System Heap (Tid × HeapOp × Ptr) where
  init heap := heap = fun _ => none
  step heap e heap' := ∃ t op result, e = some (t, op, result) ∧ HeapStep heap op result heap'

/-! ### The allocator with its client -/

variable {Tid : Type} [DecidableEq Tid]

/-- The allocator between two calls, and the pointers the client holds. -/
structure Session (Tid : Type) where
  state : State Tid
  live : Finset Nat

namespace Session

def initial : Session Tid := ⟨.initial, ∅⟩

/-- The `n` bytes from `p` on, as storage has them. -/
def bytesAt (m : Memory) (p n : Nat) : List (Option UInt8) := (List.range n).map fun i => m.byte (p + i)

/-- The requested bytes of the allocation at `p`. -/
def contents (m : Memory) (p : Nat) : Option (List (Option UInt8)) := do
  let a ← blockFromPayload (some p)
  let b ← m.block a
  some (bytesAt m p b.requestedSize)

/-- The heap the client sees. -/
def heap (σ : Session Tid) : Heap := fun p => if p ∈ σ.live then contents σ.state.memory p else none

/-- The client passes null or a live pointer, and writes inside the bytes it asked for. -/
def Allowed (σ : Session Tid) : HeapOp → Prop
  | .realloc pointer _ | .free pointer => ∀ p ∈ pointer, p ∈ σ.live
  | .write p offset _ => ∃ bytes ∈ σ.heap p, offset < bytes.length
  | _ => True

instance (σ : Session Tid) : (op : HeapOp) → Decidable (σ.Allowed op)
  | .malloc _ | .calloc _ _ | .threadFlush | .trimQuiescent => isTrue trivial
  | .realloc pointer _ | .free pointer => inferInstanceAs (Decidable (∀ p ∈ pointer, p ∈ σ.live))
  | .write p offset _ => inferInstanceAs (Decidable (∃ bytes ∈ σ.heap p, offset < bytes.length))

/-- The client gets a pointer. -/
def receive (σ : Session Tid) (s : State Tid) (pointer : Ptr) : Session Tid :=
  match pointer with
  | none => { σ with state := s }
  | some p => ⟨s, insert p σ.live⟩

/-- The client gives up a pointer. -/
def give (σ : Session Tid) (s : State Tid) (pointer : Ptr) : Session Tid :=
  match pointer with
  | none => { σ with state := s }
  | some p => ⟨s, σ.live.erase p⟩

/-- One operation by thread `t`. A resize consumes its argument unless it returns null for a nonzero
size. -/
def perform (v : Variant) (w : World) (σ : Session Tid) (t : Tid) :
    HeapOp → Option (Session Tid × Ptr)
  | .malloc size => do
      let (s, p) ← malloc v w σ.state t size
      some (σ.receive s p, p)
  | .calloc count size => do
      let (s, p) ← calloc v w σ.state t count size
      some (σ.receive s p, p)
  | .realloc pointer size => do
      let (s, p) ← realloc v w σ.state t pointer size
      if p = none ∧ size ≠ 0 then
        some ({ σ with state := s }, p)
      else
        some ((σ.give s pointer).receive s p, p)
  | .free pointer => do
      let s ← free v w σ.state t pointer
      some (σ.give s pointer, none)
  | .threadFlush => do
      let s ← threadFlush v σ.state t
      some ({ σ with state := s }, none)
  | .trimQuiescent => do
      let (s, _) ← trimQuiescent v w σ.state t
      some ({ σ with state := s }, none)
  | .write p offset value =>
      some ({ σ with state := { σ.state with
        memory := σ.state.memory.writeBytes (p + offset) 1 fun _ => some value } }, none)

end Session

/-- All sessions: any thread may perform any allowed operation next. -/
def sessions (Tid : Type) [DecidableEq Tid] (v : Variant) (w : World) :
    System (Session Tid) (Tid × HeapOp × Ptr) where
  init σ := σ = .initial
  step σ e σ' := ∃ t op result, e = some (t, op, result) ∧ σ.Allowed op ∧
    σ.perform v w t op = some (σ', result)

/-! ### Reading the heap from storage -/

namespace Session

/-- The invariant of the allocator, with the client's pointers as the payloads of the live blocks. -/
def Safe (σ : Session Tid) (live : List Nat) (leaked : List Mapping) (bases larges : List Nat)
    (g : Place Tid → List Nat) : Prop :=
  Inv (Config.resting σ.state live leaked) bases larges g ∧ σ.live = (live.map (· + 48)).toFinset

def Sound (σ : Session Tid) : Prop := ∃ live leaked bases larges g, σ.Safe live leaked bases larges g

variable {σ σ' : Session Tid} {t : Tid} {live : List Nat} {leaked : List Mapping} {bases larges : List Nat}
variable {g : Place Tid → List Nat} {v : Variant} {w : World}

theorem contents_payload (m : Memory) (a : Nat) :
    contents m (a + 48) = (m.block a).map fun b => bytesAt m (a + 48) b.requestedSize := by
  rw [contents, blockFromPayload_some, Nat.add_sub_cancel]
  cases hb : m.block a with
  | none => simp [hb]
  | some b => simp [hb]

section

omit [DecidableEq Tid]

theorem Safe.mem_iff (hsafe : σ.Safe live leaked bases larges g) {p : Nat} :
    p ∈ σ.live ↔ ∃ a ∈ live, p = a + 48 := by
  rw [hsafe.2]
  simp [eq_comm]

theorem Safe.mem_payload (hsafe : σ.Safe live leaked bases larges g) {a : Nat} :
    a + 48 ∈ σ.live ↔ a ∈ live := by
  rw [hsafe.2]
  simp

theorem Safe.heap_payload (hsafe : σ.Safe live leaked bases larges g) {a : Nat} (ha : a ∈ live)
    {b : Block} (hb : σ.state.memory.block a = some b) :
    σ.heap (a + 48) = some (bytesAt σ.state.memory (a + 48) b.requestedSize) := by
  rw [heap, if_pos (hsafe.mem_payload.mpr ha), contents_payload, hb]
  rfl

theorem heap_of_not_mem {p : Nat} (hp : p ∉ σ.live) : σ.heap p = none := if_neg hp

theorem Safe.block (hsafe : σ.Safe live leaked bases larges g) {a : Nat} (ha : a ∈ live) :
    ∃ b, σ.state.memory.block a = some b :=
  hsafe.1.exists_block (p := .live) (hsafe.1.live_eq ▸ ha)

/-- A client block that is kept has the same contents. -/
theorem contents_of_keeps {k : Config Tid} {m : Memory} (hkeeps : KeepsLive k m) {a : Nat}
    (ha : a ∈ k.live) : contents m (a + 48) = contents k.state.memory (a + 48) := by
  rw [contents_payload, contents_payload, hkeeps.block a ha]
  cases hb : k.state.memory.block a with
  | none => rfl
  | some b =>
      simp only [Option.map_some, Option.some.injEq]
      apply List.map_congr_left
      intro i hi
      exact hkeeps.byte a ha b hb i (List.mem_range.mp hi)

/-- **One pointer at a time.** If only the pointer `p` can come or go and all others keep their contents,
then the heap changes at `p` only. -/
theorem heap_eq_update {p : Nat} (hlive : ∀ q, q ≠ p → (q ∈ σ'.live ↔ q ∈ σ.live))
    (hsame : ∀ q ∈ σ.live, q ≠ p → contents σ'.state.memory q = contents σ.state.memory q) :
    σ'.heap = Function.update σ.heap p (σ'.heap p) := by
  funext q
  by_cases hq : q = p
  · subst hq
    rw [Function.update_self]
  · rw [Function.update_of_ne hq, heap, heap]
    by_cases hmem : q ∈ σ.live
    · rw [if_pos hmem, if_pos ((hlive q hq).mpr hmem), hsame q hmem hq]
    · rw [if_neg hmem, if_neg fun h => hmem ((hlive q hq).mp h)]

/-- All pointers stay and keep their contents. -/
theorem heap_eq_of_keeps (hsafe : σ.Safe live leaked bases larges g) {s : State Tid}
    (hkeeps : KeepsLive (Config.resting σ.state live leaked) s.memory) :
    ({ σ with state := s } : Session Tid).heap = σ.heap := by
  funext p
  rw [heap, heap]
  by_cases hp : p ∈ σ.live
  · obtain ⟨a, ha, rfl⟩ := hsafe.mem_iff.mp hp
    rw [if_pos hp, if_pos hp]
    exact contents_of_keeps hkeeps ha
  · rw [if_neg hp, if_neg hp]

end

theorem length_bytesAt (m : Memory) (p n : Nat) : (bytesAt m p n).length = n := by
  rw [bytesAt, List.length_map, List.length_range]

/-- Two places that agree on their first bytes. -/
theorem take_bytesAt {m m' : Memory} {p q n n' j : Nat} (hj : j ≤ n) (hj' : j ≤ n')
    (hsame : ∀ i, i < j → m'.byte (q + i) = m.byte (p + i)) :
    (bytesAt m' q n').take j = (bytesAt m p n).take j := by
  unfold bytesAt
  rw [← List.map_take, ← List.map_take, List.take_range, List.take_range, Nat.min_eq_left hj,
    Nat.min_eq_left hj']
  exact List.map_congr_left fun i hi => hsame i (List.mem_range.mp hi)

theorem bytesAt_zero {m : Memory} {p n : Nat} (hzero : ∀ i, i < n → m.byte (p + i) = some 0) :
    bytesAt m p n = List.replicate n (some 0) := by
  rw [List.eq_replicate_iff]
  refine ⟨length_bytesAt m p n, fun x hx => ?_⟩
  obtain ⟨i, hi, rfl⟩ := List.mem_map.mp hx
  exact hzero i (List.mem_range.mp hi)

theorem bytesAt_write (m : Memory) (p n offset : Nat) (value : Option UInt8) :
    bytesAt (m.writeBytes (p + offset) 1 fun _ => value) p n = (bytesAt m p n).set offset value := by
  apply List.ext_getElem
  · rw [List.length_set, length_bytesAt, length_bytesAt]
  · intro i hi _
    rw [List.getElem_set]
    simp only [bytesAt, List.getElem_map, List.getElem_range, writeBytes]
    by_cases heq : offset = i
    · subst heq
      rw [if_pos rfl, if_pos (by omega)]
    · rw [if_neg heq, if_neg (by omega)]

/-! ### The operations -/

section

omit [DecidableEq Tid]

/-- The client holds one more block. -/
theorem Safe.receive (hsafe : σ.Safe live leaked bases larges g) {size a : Nat} {s : State Tid}
    {bases' larges' : List Nat}
    (hdelivers : Delivers (Config.resting σ.state live leaked) t size bases g s a bases' larges') :
    (∃ g', (σ.receive s (some (a + 48))).Safe (a :: live) leaked bases' larges' g') ∧
      σ.heap (a + 48) = none ∧
      (σ.receive s (some (a + 48))).heap
        = Function.update σ.heap (a + 48) (some (bytesAt s.memory (a + 48) size)) := by
  obtain ⟨g', hinv, -⟩ := hdelivers.inv
  have hsafe' : (σ.receive s (some (a + 48))).Safe (a :: live) leaked bases' larges' g' := by
    refine ⟨hinv, ?_⟩
    rw [Session.receive, hsafe.2, List.map_cons, List.toFinset_cons]
  obtain ⟨b, hb⟩ := hsafe'.block List.mem_cons_self
  have hsize : b.requestedSize = size := by
    have hsized := hdelivers.sized.1
    rw [size_eq_some (show s.memory.block a = some b from hb)] at hsized
    exact Option.some.inj hsized
  refine ⟨⟨g', hsafe'⟩, heap_of_not_mem fun hmem => hdelivers.fresh (hsafe.mem_payload.mp hmem), ?_⟩
  rw [heap_eq_update (σ := σ) (p := a + 48), hsafe'.heap_payload List.mem_cons_self hb, hsize]
  · rfl
  · intro q hq
    rw [Session.receive, Finset.mem_insert]
    exact or_iff_right hq
  · intro q hq _
    obtain ⟨x, hx, rfl⟩ := hsafe.mem_iff.mp hq
    exact contents_of_keeps hdelivers.keeps hx

/-- The client holds one block less. -/
theorem Safe.give (hsafe : σ.Safe live leaked bases larges g) {a : Nat} {s : State Tid}
    (hreleases : Releases (Config.resting σ.state live leaked) t a bases g s) :
    (σ.give s (some (a + 48))).Sound ∧
      (σ.give s (some (a + 48))).heap = Function.update σ.heap (a + 48) none := by
  obtain ⟨leaked', larges', g', hinv, -⟩ := hreleases.inv
  have hnodup := hsafe.1.live_nodup
  have hsafe' : (σ.give s (some (a + 48))).Safe (live.erase a) leaked' bases larges' g' := by
    refine ⟨hinv, ?_⟩
    ext p
    rw [Session.give, Finset.mem_erase, hsafe.mem_iff]
    simp only [List.mem_toFinset, List.mem_map, (show live.Nodup from hnodup).mem_erase_iff]
    constructor
    · rintro ⟨hne, x, hx, rfl⟩
      exact ⟨x, ⟨fun heq => hne (heq ▸ rfl), hx⟩, rfl⟩
    · rintro ⟨x, ⟨hne, hx⟩, rfl⟩
      exact ⟨fun heq => hne (Nat.add_right_cancel heq), x, hx, rfl⟩
  refine ⟨⟨_, _, _, _, _, hsafe'⟩, ?_⟩
  rw [heap_eq_update (σ := σ) (p := a + 48), heap_of_not_mem (p := a + 48)]
  · simp [Session.give]
  · intro q hq
    rw [Session.give, Finset.mem_erase]
    exact and_iff_right hq
  · intro q hq hne
    obtain ⟨x, hx, rfl⟩ := hsafe.mem_iff.mp hq
    apply contents_of_keeps hreleases.keeps
    exact (List.mem_erase_of_ne fun heq => hne (congrArg (· + 48) heq)).mpr hx

/-- A call that fails changes nothing the client sees. -/
theorem Safe.declined (hsafe : σ.Safe live leaked bases larges g) {s : State Tid}
    (hdeclines : Declines (Config.resting σ.state live leaked) bases larges g s) :
    ({ σ with state := s } : Session Tid).Sound ∧
      ({ σ with state := s } : Session Tid).heap = σ.heap :=
  ⟨⟨_, _, _, _, _, hdeclines.inv, hsafe.2⟩, heap_eq_of_keeps hsafe (KeepsLive.of_eq hdeclines.memory)⟩

end

/-- The operation returns, and the abstract heap can take the same step. -/
def Refines (v : Variant) (w : World) (σ : Session Tid) (t : Tid) (op : HeapOp) : Prop :=
  ∃ σ' result, σ.perform v w t op = some (σ', result) ∧ σ'.Sound ∧ HeapStep σ.heap op result σ'.heap

theorem Safe.malloc (hsafe : σ.Safe live leaked bases larges g) (v : Variant) (w : World) (t : Tid)
    (size : Nat) :
    ∃ s pointer, Hplf.malloc v w σ.state t size = some (s, pointer) ∧ (σ.receive s pointer).Sound ∧
      HeapStep σ.heap (.malloc size) pointer (σ.receive s pointer).heap := by
  obtain ⟨s, block, hmalloc, houtcome⟩ := hsafe.1.malloc v w (t := t) rfl size
  refine ⟨s, blockPayload block, hmalloc, ?_⟩
  cases block with
  | none =>
      obtain ⟨hsound, hheap⟩ := hsafe.declined houtcome.declines
      refine ⟨hsound, ?_⟩
      change HeapStep σ.heap _ none ({ σ with state := s } : Session Tid).heap
      rw [hheap]
      exact .mallocNull
  | some a =>
      obtain ⟨hpos, bases', larges', hdelivers⟩ := houtcome.delivers
      obtain ⟨⟨g', hsafe'⟩, hfresh, hheap⟩ := hsafe.receive hdelivers
      rw [blockPayload_some]
      refine ⟨⟨_, _, _, _, _, hsafe'⟩, ?_⟩
      rw [hheap]
      exact .malloc hpos hfresh (length_bytesAt _ _ _)

theorem Safe.refines_malloc (hsafe : σ.Safe live leaked bases larges g) (v : Variant) (w : World)
    (t : Tid) (size : Nat) : Refines v w σ t (.malloc size) := by
  obtain ⟨s, pointer, hmalloc, hsound, hstep⟩ := hsafe.malloc v w t size
  refine ⟨_, pointer, ?_, hsound, hstep⟩
  simp only [perform, hmalloc, Option.bind_eq_bind, Option.bind_some]

theorem Safe.refines_calloc (hsafe : σ.Safe live leaked bases larges g) (v : Variant) (w : World)
    (t : Tid) (count size : Nat) : Refines v w σ t (.calloc count size) := by
  obtain ⟨s, block, hcalloc, houtcome⟩ := hsafe.1.calloc v w (t := t) rfl count size
  change Hplf.calloc v w σ.state t count size = _ at hcalloc
  have hfail : ∀ s, Hplf.calloc v w σ.state t count size = some (s, none) →
      Declines (Config.resting σ.state live leaked) bases larges g s →
      Refines v w σ t (.calloc count size) := by
    intro s hnull hdeclines
    obtain ⟨hsound, hheap⟩ := hsafe.declined hdeclines
    refine ⟨_, none, by simp only [perform, hnull, Option.bind_eq_bind, Option.bind_some]; rfl, hsound, ?_⟩
    rw [hheap]
    exact .callocNull
  cases houtcome with
  | refused _ _ hdeclines => exact hfail s hcalloc hdeclines
  | failed _ _ hmalloc => exact hfail s hcalloc hmalloc.declines
  | @cleared total a s hsize hproduct hmalloc =>
      obtain ⟨rfl, -⟩ := sizeMultiply_eq_some hproduct
      obtain ⟨hpos, bases', larges', hdelivers⟩ := hmalloc.delivers
      obtain ⟨⟨g', hsafe'⟩, hfresh, hheap⟩ := hsafe.receive (hdelivers.fill (Nat.le_refl _) fun _ => some 0)
      rw [blockPayload_some] at hcalloc
      refine ⟨_, some (a + 48), by
        simp only [perform, hcalloc, Option.bind_eq_bind, Option.bind_some], ⟨_, _, _, _, _, hsafe'⟩, ?_⟩
      rw [hheap, bytesAt_zero]
      · exact .calloc hpos hfresh
      · intro i hi
        apply if_pos
        unfold sizeofBlock
        omega

theorem Safe.refines_free (hsafe : σ.Safe live leaked bases larges g) (v : Variant) (w : World)
    (t : Tid) {pointer : Ptr} (hallowed : σ.Allowed (.free pointer)) : Refines v w σ t (.free pointer) := by
  cases pointer with
  | none => exact ⟨σ, none, rfl, ⟨_, _, _, _, _, hsafe⟩, .freeNull⟩
  | some p =>
      obtain ⟨a, ha, rfl⟩ := hsafe.mem_iff.mp (hallowed p rfl)
      obtain ⟨s, hfree, hreleases⟩ := hsafe.1.free v w (t := t) rfl ha fun _ h => by simp [Pc.argument, Config.resting] at h
      rw [blockPayload_some] at hfree
      change Hplf.free v w σ.state t _ = _ at hfree
      obtain ⟨hsound, hheap⟩ := hsafe.give hreleases
      refine ⟨_, none, by simp only [perform, hfree, Option.bind_eq_bind, Option.bind_some], hsound, ?_⟩
      rw [hheap]
      exact .free

omit [DecidableEq Tid] in
/-- The block at `a` keeps its place and gets another size. -/
theorem Safe.retained (hsafe : σ.Safe live leaked bases larges g) {a size : Nat} (ha : a ∈ live)
    {b : Block} (hb : σ.state.memory.block a = some b) {m : Memory}
    (hset : σ.state.memory.setRequestedSize a size = some m) (hframe : Framed [a] σ.state.memory m)
    (hinv : Inv (Config.resting { σ.state with memory := m } live leaked) bases larges g) :
    ({ σ with state := { σ.state with memory := m } } : Session Tid).Sound ∧
      ({ σ with state := { σ.state with memory := m } } : Session Tid).heap
        = Function.update σ.heap (a + 48) (some (bytesAt σ.state.memory (a + 48) size)) := by
  have hsafe' : ({ σ with state := { σ.state with memory := m } } : Session Tid).Safe live leaked bases
      larges g := ⟨hinv, hsafe.2⟩
  have hblock : m.block a = some { b with requestedSize := size } := by
    rw [Memory.setRequestedSize, modifyBlock_eq hb] at hset
    rw [← Option.some.inj hset]
    exact Function.update_self _ _ _
  refine ⟨⟨_, _, _, _, _, hsafe'⟩, ?_⟩
  rw [heap_eq_update (σ := σ) (p := a + 48), hsafe'.heap_payload ha hblock]
  · simp only [bytesAt, hframe.byte]
  · exact fun q _ => Iff.rfl
  · intro q hq hne
    obtain ⟨x, hx, rfl⟩ := hsafe.mem_iff.mp hq
    have hxa : x ∉ [a] := fun hmem => hne (congrArg (· + 48) (List.mem_singleton.mp hmem))
    rw [contents_payload, contents_payload]
    simp only [bytesAt, hframe.block x hxa, hframe.byte]

omit [DecidableEq Tid] in
/-- The block at `a` is replaced by the one at `a'`. -/
theorem Safe.moved (hsafe : σ.Safe live leaked bases larges g) {a a' size : Nat} (ha : a ∈ live)
    {s s' : State Tid} {bases' larges' : List Nat} {g' : Place Tid → List Nat}
    (hdelivers : Delivers (Config.resting σ.state live leaked) t size bases g s a' bases' larges')
    (hinv : Inv (Config.resting s (a' :: live) leaked) bases' larges' g')
    (hreleases : Releases (Config.resting s (a' :: live) leaked) t a bases' g' s') :
    ((σ.give s' (some (a + 48))).receive s' (some (a' + 48))).Sound ∧ σ.heap (a' + 48) = none ∧
      ((σ.give s' (some (a + 48))).receive s' (some (a' + 48))).heap
        = Function.update (Function.update σ.heap (a + 48) none) (a' + 48)
            (some (bytesAt s.memory (a' + 48) size)) := by
  have hne : a' ≠ a := fun heq => hdelivers.fresh (heq ▸ ha)
  have hpayload : a' + 48 ≠ a + 48 := fun heq => hne (Nat.add_right_cancel heq)
  obtain ⟨-, hfresh, hreceived⟩ := hsafe.receive hdelivers
  have hsafe₁ : (σ.receive s (some (a' + 48))).Safe (a' :: live) leaked bases' larges' g' := by
    refine ⟨hinv, ?_⟩
    rw [Session.receive, hsafe.2, List.map_cons, List.toFinset_cons]
  obtain ⟨hsound, hgiven⟩ := hsafe₁.give hreleases
  have hsame : (σ.give s' (some (a + 48))).receive s' (some (a' + 48))
      = (σ.receive s (some (a' + 48))).give s' (some (a + 48)) := by
    simp only [Session.give, Session.receive, Session.mk.injEq, true_and]
    exact (Finset.erase_insert_of_ne hpayload).symm
  rw [hsame]
  refine ⟨hsound, hfresh, ?_⟩
  rw [hgiven, hreceived, Function.update_comm hpayload]

theorem Safe.refines_realloc (hsafe : σ.Safe live leaked bases larges g) (v : Variant) (w : World)
    (t : Tid) {pointer : Ptr} {size : Nat} (hallowed : σ.Allowed (.realloc pointer size)) :
    Refines v w σ t (.realloc pointer size) := by
  cases pointer with
  | none =>
      -- A resize of the null pointer is an allocation.
      obtain ⟨s, p, hmalloc, hsound, hstep⟩ := hsafe.malloc v w t size
      have hrealloc : Hplf.realloc v w σ.state t none size = some (s, p) := hmalloc
      refine ⟨σ.receive s p, p, ?_, hsound, .reallocNew hstep⟩
      simp only [perform, hrealloc, Option.bind_eq_bind, Option.bind_some]
      split
      · rename_i hnull
        rw [hnull.1]
        rfl
      · cases p <;> rfl
  | some p =>
      obtain ⟨a, ha, rfl⟩ := hsafe.mem_iff.mp (hallowed p rfl)
      obtain ⟨s, block, hrealloc, houtcome⟩ := hsafe.1.realloc v w (t := t) rfl ha
        (fun _ h => by simp [Pc.argument, Config.resting] at h) size
      rw [blockPayload_some] at hrealloc
      change Hplf.realloc v w σ.state t _ size = _ at hrealloc
      have hperform : ∀ σ' result, blockPayload block = result →
          (if result = none ∧ size ≠ 0 then ({ σ with state := s } : Session Tid)
            else (σ.give s (some (a + 48))).receive s result) = σ' →
          σ.perform v w t (.realloc (some (a + 48)) size) = some (σ', result) := by
        rintro σ' result rfl rfl
        simp only [perform, hrealloc, Option.bind_eq_bind, Option.bind_some]
        split <;> rfl
      cases houtcome with
      | released hsize hreleases =>
          obtain ⟨hsound, hheap⟩ := hsafe.give hreleases
          refine ⟨_, none, hperform _ none rfl (if_neg fun h => h.2 hsize), hsound, ?_⟩
          change HeapStep _ _ _ (σ.give s (some (a + 48))).heap
          rw [hheap, hsize]
          exact .reallocZero
      | refused hsize _ hdeclines =>
          obtain ⟨hsound, hheap⟩ := hsafe.declined hdeclines
          have hpos : 0 < size := Nat.zero_lt_of_lt hsize
          refine ⟨_, none, hperform _ none rfl (if_pos ⟨rfl, Nat.ne_of_gt hpos⟩), hsound, ?_⟩
          rw [hheap]
          exact .reallocFailed hpos
      | failed hsize _ _ hmalloc =>
          obtain ⟨hsound, hheap⟩ := hsafe.declined hmalloc.declines
          refine ⟨_, none, hperform _ none rfl (if_pos ⟨rfl, Nat.ne_of_gt hsize.1⟩), hsound, ?_⟩
          rw [hheap]
          exact .reallocFailed hsize.1
      | @retained b m hsize hb _ hset hframe hinv =>
          obtain ⟨hsound, hheap⟩ := hsafe.retained ha hb hset hframe hinv
          refine ⟨{ σ with state := { σ.state with memory := m } }, some (a + 48),
            hperform _ _ (blockPayload_some a) ?_, hsound, ?_⟩
          · rw [if_neg fun h => by simp at h]
            simp only [Session.give, Session.receive, Session.mk.injEq]
            exact ⟨rfl, Finset.insert_erase (hallowed _ rfl)⟩
          · rw [hheap]
            refine .retained hsize.1 (hsafe.heap_payload ha hb) (length_bytesAt _ _ _) ?_
            rw [length_bytesAt]
            exact take_bytesAt (Nat.min_le_left _ _) (Nat.min_le_right _ _) fun _ _ => rfl
      | @moved b a' s₁ s' bases' larges' g' hsize hb _ hmalloc hdelivers hinv _ hreleases =>
          obtain ⟨hsound, hfresh, hheap⟩ := hsafe.moved ha hdelivers hinv hreleases
          obtain ⟨-, bases₁, larges₁, hdelivers₁⟩ := hmalloc.delivers
          refine ⟨_, some (a' + 48), hperform _ _ (blockPayload_some a') (if_neg fun h => by simp at h),
            hsound, ?_⟩
          rw [hheap]
          refine .moved hsize.1 (hsafe.heap_payload ha hb) hfresh (length_bytesAt _ _ _) ?_
          rw [length_bytesAt]
          apply take_bytesAt (Nat.min_le_left _ _) (Nat.min_le_right _ _)
          intro i hi
          have hold := hdelivers₁.keeps.byte a ha b hb i (hi.trans_le (Nat.min_le_left _ _))
          rw [← (show s₁.memory.byte (a + 48 + i) = σ.state.memory.byte (a + 48 + i) from hold)]
          change (if a' + sizeofBlock ≤ a' + 48 + i ∧ a' + 48 + i < a' + sizeofBlock + min b.requestedSize size
            then s₁.memory.byte (a + sizeofBlock + (a' + 48 + i - (a' + sizeofBlock))) else _) = _
          unfold sizeofBlock
          rw [if_pos (by omega), Nat.add_sub_cancel_left]

theorem Safe.refines_write (hsafe : σ.Safe live leaked bases larges g) (v : Variant) (w : World)
    (t : Tid) {p offset : Nat} {value : UInt8} (hallowed : σ.Allowed (.write p offset value)) :
    Refines v w σ t (.write p offset value) := by
  obtain ⟨bytes, hbytes, hoffset⟩ := hallowed
  have hp : p ∈ σ.live := by
    by_contra hp
    rw [heap_of_not_mem hp] at hbytes
    simp at hbytes
  obtain ⟨a, ha, rfl⟩ := hsafe.mem_iff.mp hp
  obtain ⟨b, hb⟩ := hsafe.block ha
  have hheap := hsafe.heap_payload ha hb
  obtain rfl := Option.some.inj (hbytes.symm.trans hheap)
  rw [length_bytesAt] at hoffset
  have hle := (hsafe.1.live_size_le ha hb).2
  obtain ⟨hinv, hheaders, hkeeps⟩ := hsafe.1.overwrite ha hb (a + 48 + offset) 1 (fun _ => some value)
    (by unfold sizeofBlock; omega) (by unfold sizeofBlock; omega)
  set m := σ.state.memory.writeBytes (a + 48 + offset) 1 fun _ => some value with hm
  set written : Session Tid := { σ with state := { σ.state with memory := m } } with hwritten
  have hsafe' : written.Safe live leaked bases larges g := ⟨hinv, hsafe.2⟩
  have hblock : written.state.memory.block a = some b :=
    (hheaders.block a (hsafe.1.live_populated ha)).trans hb
  have hupdate : written.heap
      = Function.update σ.heap (a + 48) (some ((bytesAt σ.state.memory (a + 48) b.requestedSize).set
          offset (some value))) := by
    rw [← bytesAt_write, ← hm]
    rw [heap_eq_update (σ := σ) (p := a + 48), hsafe'.heap_payload ha hblock]
    · exact fun q _ => Iff.rfl
    · intro q hq hne
      obtain ⟨x, hx, rfl⟩ := hsafe.mem_iff.mp hq
      apply contents_of_keeps hkeeps
      exact (List.mem_erase_of_ne fun heq => hne (congrArg (· + 48) heq)).mpr hx
  refine ⟨written, none, rfl, ⟨_, _, _, _, _, hsafe'⟩, ?_⟩
  rw [hupdate]
  refine .write hheap ?_
  rwa [length_bytesAt]

/-- **One operation.** Whatever the client may do next, the call returns and the abstract heap takes the
same step. -/
theorem Sound.refines (hsound : σ.Sound) (v : Variant) (w : World) (t : Tid) {op : HeapOp}
    (hallowed : σ.Allowed op) : Refines v w σ t op := by
  obtain ⟨live, leaked, bases, larges, g, hsafe⟩ := hsound
  cases op with
  | malloc size => exact hsafe.refines_malloc v w t size
  | calloc count size => exact hsafe.refines_calloc v w t count size
  | realloc pointer size => exact hsafe.refines_realloc v w t hallowed
  | free pointer => exact hsafe.refines_free v w t hallowed
  | write p offset value => exact hsafe.refines_write v w t hallowed
  | threadFlush =>
      obtain ⟨s, g', hflush, hquiet, hinv, -⟩ := hsafe.1.threadFlush v (t := t) rfl
      change Hplf.threadFlush v σ.state t = _ at hflush
      refine ⟨{ σ with state := s }, none, by
        simp only [perform, hflush, Option.bind_eq_bind, Option.bind_some],
        ⟨_, _, _, _, _, hinv, hsafe.2⟩, ?_⟩
      rw [heap_eq_of_keeps hsafe hquiet.keepsLive]
      exact .threadFlush
  | trimQuiescent =>
      obtain ⟨k', bases', g', htrim, htrims, -⟩ := hsafe.1.trimQuiescent (t := t) rfl v w
      change Hplf.trimQuiescent v w σ.state t = _ at htrim
      have hinv : Inv (Config.resting k'.state live leaked) bases' larges g' := by
        obtain ⟨_, _, _, _, _, _, heq⟩ := htrims.rest
        have hinv' := htrims.inv
        rw [heq] at hinv' ⊢
        exact hinv'
      refine ⟨{ σ with state := k'.state }, none, by
        simp only [perform, htrim, Option.bind_eq_bind, Option.bind_some],
        ⟨_, _, _, _, _, hinv, hsafe.2⟩, ?_⟩
      rw [heap_eq_of_keeps hsafe htrims.live]
      exact .trimQuiescent

/-! ### Null pointers -/

/-- The number of bytes an operation asks for. -/
def asked : HeapOp → Option Nat
  | .malloc size | .realloc _ size => some size
  | .calloc count size => some (count * size)
  | _ => none

theorem mallocOutcome_null {k : Config Tid} {pageSize size : Nat} {s : State Tid} (hpages : Pages w pageSize)
    (hsize : 0 < size ∧ size ≤ ptrdiffMax) (houtcome : MallocOutcome v w k t size bases larges g s none) :
    s.mapOutcomes = k.state.mapOutcomes ++ [false] := by
  cases houtcome with
  | refused hunfit _ _ => omega
  | slabFailed _ _ _ hbefore hcreate _ =>
      have hrefused := hpages.slabCreate_refused hcreate
      rw [← hbefore.outcomes]
      exact hrefused
  | mapFailed _ _ hallocate _ => exact hpages.allocateLarge_refused hsize hallocate

theorem Safe.malloc_null (hsafe : σ.Safe live leaked bases larges g) {pageSize size : Nat} (hpages : Pages w pageSize)
    (hsize : 0 < size ∧ size ≤ ptrdiffMax) {s : State Tid} (hmalloc : Hplf.malloc v w σ.state t size = some (s, none)) :
    s.mapOutcomes = σ.state.mapOutcomes ++ [false] := by
  obtain ⟨s₁, block, hmalloc₁, houtcome⟩ := hsafe.1.malloc v w (t := t) rfl size
  obtain ⟨rfl, hblock⟩ := Prod.mk.inj (Option.some.inj (hmalloc₁.symm.trans hmalloc))
  cases block with
  | none => exact mallocOutcome_null hpages hsize houtcome
  | some a => simp [blockPayload_some] at hblock

theorem Safe.calloc_null (hsafe : σ.Safe live leaked bases larges g) {pageSize count size : Nat}
    (hpages : Pages w pageSize) (hsize : 0 < count * size ∧ count * size ≤ ptrdiffMax) {s : State Tid}
    (hcalloc : Hplf.calloc v w σ.state t count size = some (s, none)) :
    s.mapOutcomes = σ.state.mapOutcomes ++ [false] := by
  obtain ⟨s₁, block, hcalloc₁, houtcome⟩ := hsafe.1.calloc v w (t := t) rfl count size
  obtain ⟨rfl, hblock⟩ := Prod.mk.inj (Option.some.inj (hcalloc₁.symm.trans hcalloc))
  cases houtcome with
  | refused hunfit _ _ =>
      -- The product fits, so neither zero nor the overflow check turned the call away.
      have hproduct := sizeMultiply_of_le (hsize.2.trans (by decide : ptrdiffMax ≤ sizeMax))
      rcases hunfit with rfl | rfl | hnone
      · omega
      · omega
      · simp [hproduct] at hnone
  | failed _ hproduct hmalloc =>
      obtain ⟨rfl, -⟩ := sizeMultiply_eq_some hproduct
      exact mallocOutcome_null hpages hsize hmalloc
  | cleared _ _ _ => simp [blockPayload_some] at hblock

theorem Safe.realloc_null (hsafe : σ.Safe live leaked bases larges g) {pageSize size : Nat} (hpages : Pages w pageSize)
    {pointer : Ptr} (hallowed : σ.Allowed (.realloc pointer size)) (hsize : 0 < size ∧ size ≤ ptrdiffMax)
    {s : State Tid} (hrealloc : Hplf.realloc v w σ.state t pointer size = some (s, none)) :
    s.mapOutcomes = σ.state.mapOutcomes ++ [false] := by
  cases pointer with
  | none => exact hsafe.malloc_null hpages hsize hrealloc
  | some p =>
      obtain ⟨a, ha, rfl⟩ := hsafe.mem_iff.mp (hallowed p rfl)
      obtain ⟨s₁, block, hrealloc₁, houtcome⟩ := hsafe.1.realloc v w (t := t) rfl ha
        (fun _ h => by simp [Pc.argument, Config.resting] at h) size
      rw [blockPayload_some] at hrealloc₁
      obtain ⟨rfl, hblock⟩ := Prod.mk.inj (Option.some.inj (hrealloc₁.symm.trans hrealloc))
      cases houtcome with
      | released hzero _ => omega
      | refused hbig _ _ => omega
      | retained _ _ _ _ _ _ => simp [blockPayload_some] at hblock
      | failed _ _ _ hmalloc => exact mallocOutcome_null hpages hsize hmalloc
      | moved _ _ _ _ _ _ _ _ => simp [blockPayload_some] at hblock

theorem Sound.null (hsound : σ.Sound) {pageSize n : Nat} (hpages : Pages w pageSize) {op : HeapOp}
    (hallowed : σ.Allowed op) (hasked : asked op = some n) (hn : 0 < n ∧ n ≤ ptrdiffMax)
    (hperform : σ.perform v w t op = some (σ', none)) :
    σ'.state.mapOutcomes = σ.state.mapOutcomes ++ [false] := by
  obtain ⟨live, leaked, bases, larges, g, hsafe⟩ := hsound
  cases op with
  | malloc size =>
      obtain rfl := Option.some.inj hasked
      obtain ⟨⟨s, p⟩, hmalloc, hperform⟩ := Option.bind_eq_some_iff.mp hperform
      obtain ⟨rfl, rfl⟩ := Prod.mk.inj (Option.some.inj hperform)
      exact hsafe.malloc_null hpages hn hmalloc
  | calloc count size =>
      obtain rfl := Option.some.inj hasked
      obtain ⟨⟨s, p⟩, hcalloc, hperform⟩ := Option.bind_eq_some_iff.mp hperform
      obtain ⟨rfl, rfl⟩ := Prod.mk.inj (Option.some.inj hperform)
      exact hsafe.calloc_null hpages hn hcalloc
  | realloc pointer size =>
      obtain rfl := Option.some.inj hasked
      obtain ⟨⟨s, p⟩, hrealloc, hperform⟩ := Option.bind_eq_some_iff.mp hperform
      have hresult : p = none ∧ σ'.state = s := by
        dsimp only at hperform
        split at hperform
        · rename_i hnull
          obtain ⟨rfl, -⟩ := Prod.mk.inj (Option.some.inj hperform)
          exact ⟨hnull.1, rfl⟩
        · obtain ⟨rfl, rfl⟩ := Prod.mk.inj (Option.some.inj hperform)
          exact ⟨rfl, by cases pointer <;> rfl⟩
      obtain ⟨rfl, hstate⟩ := hresult
      rw [hstate]
      exact hsafe.realloc_null hpages hallowed hn hrealloc
  | free _ | threadFlush | trimQuiescent | write _ _ _ => cases hasked

end Session

/-! ### Runs -/

omit [DecidableEq Tid] in
theorem Session.sound_initial : (Session.initial : Session Tid).Sound :=
  ⟨[], [], [], [], fun _ => [], Inv.initial, rfl⟩

/-- The sessions simulate the abstract heap through the heap they represent. -/
theorem sessions_simulation (v : Variant) (w : World) :
    System.Simulation (sessions Tid v w) (heaps Tid) fun σ heap => σ.Sound ∧ heap = σ.heap where
  init σ hinit := by
    obtain rfl : σ = Session.initial := hinit
    exact ⟨_, rfl, Session.sound_initial, rfl⟩
  internal σ σ' heap _ hstep := by
    obtain ⟨_, _, _, heq, -⟩ := hstep
    simp at heq
  observe σ σ' heap e hrel hstep := by
    obtain ⟨hsound, rfl⟩ := hrel
    obtain ⟨t, op, result, heq, hallowed, hperform⟩ := hstep
    obtain ⟨σ₁, result₁, hperform₁, hsound₁, hheap⟩ := hsound.refines v w t hallowed
    obtain ⟨rfl, rfl⟩ := Prod.mk.inj (Option.some.inj (hperform₁.symm.trans hperform))
    exact ⟨_, ⟨t, op, _, heq, hheap⟩, hsound₁, rfl⟩

/-- **Null pointers.** With pages of any one size, an allowed operation that asks for at least one byte and at
most `PTRDIFF_MAX` and returns null has been refused a mapping. -/
theorem null_refused {v : Variant} {w : World} {pageSize n : Nat} (hpages : Pages w pageSize)
    {trace : List (Tid × HeapOp × Ptr)} {σ σ' : Session Tid} (hrun : (sessions Tid v w).Run Session.initial trace σ)
    {t : Tid} {op : HeapOp} (hallowed : σ.Allowed op) (hasked : Session.asked op = some n)
    (hn : 0 < n ∧ n ≤ ptrdiffMax) (hperform : σ.perform v w t op = some (σ', none)) :
    σ'.state.mapOutcomes = σ.state.mapOutcomes ++ [false] := by
  obtain ⟨heap, -, hsound, -⟩ := (sessions_simulation v w).run hrun
    ⟨Session.sound_initial, show (fun _ => none) = (Session.initial : Session Tid).heap from rfl⟩
  exact hsound.null hpages hallowed hasked hn hperform

/-- **API refinement.** In both builds and whatever the system answers, every sequence of allowed operations
is a sequence of steps of the abstract heap with the same results, which ends in the heap the client sees;
and whatever allowed operation comes next, it returns. -/
theorem heap_refinement (v : Variant) (w : World) (trace : List (Tid × HeapOp × Ptr)) (σ : Session Tid)
    (hrun : (sessions Tid v w).Run Session.initial trace σ) :
    (heaps Tid).Run (fun _ => none) trace σ.heap ∧
      ∀ t op, σ.Allowed op → ∃ σ' result, σ.perform v w t op = some (σ', result) := by
  obtain ⟨heap, hheaps, hsound, rfl⟩ := (sessions_simulation v w).run hrun
    ⟨Session.sound_initial, show (fun _ => none) = (Session.initial : Session Tid).heap from rfl⟩
  refine ⟨hheaps, fun t op hallowed => ?_⟩
  obtain ⟨σ', result, hperform, -⟩ := hsound.refines v w t hallowed
  exact ⟨σ', result, hperform⟩

/-- Thread `t` performs an operation, if it is allowed. -/
def Session.next (v : Variant) (w : World) (σ : Session Tid) :
    Tid × HeapOp → Option (Option (Tid × HeapOp × Ptr) × Session Tid)
  | (t, op) =>
      if σ.Allowed op then
        (σ.perform v w t op).map fun (σ', result) => (some (t, op, result), σ')
      else
        none

theorem Session.next_step {v : Variant} {w : World} (σ : Session Tid) (entry : Tid × HeapOp)
    (e : Option (Tid × HeapOp × Ptr)) (σ' : Session Tid) (hnext : σ.next v w entry = some (e, σ')) :
    (sessions Tid v w).step σ e σ' := by
  obtain ⟨t, op⟩ := entry
  rw [Session.next] at hnext
  split at hnext
  · rename_i hallowed
    obtain ⟨⟨σ₁, result⟩, hperform, hsame⟩ := Option.map_eq_some_iff.mp hnext
    obtain ⟨rfl, rfl⟩ := Prod.mk.inj hsame
    exact ⟨t, op, result, rfl, hallowed, hperform⟩
  · cases hnext

/-- A block with a byte stored in it is moved by a resize, its storage is handed out again by a cleared allocation,
and two calls for a third mapping fail. Then that block is freed, the caches are flushed and its slab released. -/
def twoThreadsOps : List (Fin 2 × HeapOp) :=
  [(0, .malloc 3073), (0, .write 66320 3 7), (1, .realloc (some 66320) 5000), (1, .calloc 2 2048), (0, .malloc 2048),
    (0, .realloc (some 66320) 100), (1, .free (some 66320)), (0, .threadFlush), (1, .threadFlush), (0, .trimQuiescent)]

def twoThreadsResults : List Ptr :=
  [some 66320, none, some 73776, some 66320, none, none, none, none, none, none]

theorem heap_refinement_two_threads : ∃ (σ : Session (Fin 2)) (trace : List (Fin 2 × HeapOp × Ptr)),
    (sessions (Fin 2) .cached (scarceWorld 2)).Run Session.initial trace σ ∧
      trace.map (fun e => e.2.2) = twoThreadsResults ∧ σ.live = {73776} ∧ σ.state.mapped.length = 1 ∧
      (heaps (Fin 2)).Run (fun _ => none) trace σ.heap ∧
      ∀ t op, σ.Allowed op → ∃ σ' result, σ.perform .cached (scarceWorld 2) t op = some (σ', result) := by
  obtain ⟨trace, σ, hrun, hshows⟩ := System.exists_run (Session.next_step (v := .cached)
    (w := scarceWorld 2)) Session.initial twoThreadsOps
    (fun trace σ => decide (trace.map (fun e => e.2.2) = twoThreadsResults) && decide (σ.live = {73776}) &&
      σ.state.mapped.length == 1) (by decide +kernel)
  simp only [Bool.and_eq_true, decide_eq_true_eq, beq_iff_eq] at hshows
  obtain ⟨⟨htrace, hlive⟩, hmapped⟩ := hshows
  exact ⟨σ, trace, hrun, htrace, hlive, hmapped, heap_refinement _ _ trace σ hrun⟩

end Hplf
