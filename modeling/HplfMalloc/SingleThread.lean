import HplfMalloc.Allocator

/-!
# Programs with one thread

A program of one thread is a list of calls. Two builds hand out different addresses, so a call names its
pointer argument by the number of the call that returned it; a number whose pointer is null or gone stands
for the null pointer. `Tally` is what such a program can tell about the allocator without looking at
addresses: what kind of block it holds for each number, and how many slots each class has.
-/

namespace Hplf

inductive ScriptCall
  | malloc (size : Nat)
  | calloc (count size : Nat)
  | realloc (handle size : Nat)
  | free (handle : Nat)
  | threadFlush
  deriving DecidableEq, Repr

/-- What a block can be resized to in place: any size of its class, or any large size it has room for. -/
inductive Span
  | small (c : ClassIndex)
  | large (capacity : Nat)
  deriving DecidableEq, Repr

/-- What can be observed of a call: whether it returned null, whether a resize kept or moved its block, the
class of the slab it created if any, and the number of free and live blocks of each class after it. -/
structure Report where
  null : Bool
  retained : Bool
  moved : Bool
  created : Option ClassIndex
  free : ClassIndex → Option Nat
  live : ClassIndex → Nat

/-! ### The allocator under a program -/

/-- The allocator, and for each number of a call the block its pointer belongs to. -/
structure Program (Tid : Type) where
  state : State Tid
  held : List (Nat × Nat)

def spanOf (m : Memory) (block : Nat) : Option Span := do
  let header ← m.block block
  match header.kind with
  | .large => some (.large header.capacity)
  | .small => do
      let slab ← m.slab header.owner.slab
      some (.small slab.classIndex)

namespace Program

variable {Tid : Type}

def initial : Program Tid := ⟨.initial, []⟩

def pointer (P : Program Tid) (handle : Nat) : Ptr := blockPayload (P.held.lookup handle)

/-- The result of call `n` is kept unless it is null. -/
def keep (P : Program Tid) (n : Nat) (s : State Tid) (result : Ptr) : Program Tid :=
  match blockFromPayload result with
  | none => { P with state := s }
  | some block => ⟨s, (n, block) :: P.held⟩

def drop (P : Program Tid) (s : State Tid) (handle : Nat) : Program Tid :=
  ⟨s, P.held.eraseP fun entry => entry.1 == handle⟩

def argument (P : Program Tid) : ScriptCall → Ptr
  | .realloc handle _ => P.pointer handle
  | _ => none

/-- The blocks of a class on its shared list and in the cache of the thread. -/
def freeCount (s : State Tid) (t : Tid) (c : ClassIndex) : Option Nat := do
  let shared ← listLengthLoop s.memory addressSpace (s.sharedHeads c) 0
  match cacheCurrent s t with
  | none => some shared
  | some d => do
      let descriptor ← s.descriptor d
      let cached ← listLengthLoop s.memory addressSpace (descriptor.cache.heads c) 0
      some (shared + cached)

def liveCount (P : Program Tid) (c : ClassIndex) : Nat :=
  P.held.countP fun entry => spanOf P.state.memory entry.2 = some (.small c)

/-- The class of the slab at the head of the registry, if it was put there since `s`. -/
def newSlab (s s' : State Tid) : Option ClassIndex :=
  if s'.slabs = s.slabs then
    none
  else
    s'.slabs.bind fun base => (s'.memory.slab base).map Slab.classIndex

/-- What the call that leads from `P` to `P'` shows. -/
def report (P P' : Program Tid) (t : Tid) (argument result : Ptr) : Report where
  null := result.isNone
  retained := result.isSome && result = argument
  moved := result.isSome && argument.isSome && result ≠ argument
  created := newSlab P.state P'.state
  free := freeCount P'.state t
  live := P'.liveCount

variable [DecidableEq Tid]

/-- Call number `n` of the program. -/
def perform (v : Variant) (w : World) (P : Program Tid) (t : Tid) (n : Nat) :
    ScriptCall → Option (Program Tid × Ptr)
  | .malloc size => do
      let (s, p) ← malloc v w P.state t size
      some (P.keep n s p, p)
  | .calloc count size => do
      let (s, p) ← calloc v w P.state t count size
      some (P.keep n s p, p)
  | .realloc handle size => do
      let (s, p) ← realloc v w P.state t (P.pointer handle) size
      if p = none ∧ size ≠ 0 then
        some ({ P with state := s }, p)
      else
        some ((P.drop s handle).keep n s p, p)
  | .free handle => do
      let s ← free v w P.state t (P.pointer handle)
      some (P.drop s handle, none)
  | .threadFlush => do
      let s ← threadFlush v P.state t
      some ({ P with state := s }, none)

/-- The calls from number `n` on. -/
def run (v : Variant) (w : World) (t : Tid) : Nat → Program Tid → List ScriptCall →
    Option (Program Tid × List Report)
  | _, P, [] => some (P, [])
  | n, P, call :: rest => do
      let (P', result) ← P.perform v w t n call
      let (last, reports) ← run v w t (n + 1) P' rest
      some (last, P.report P' t (P.argument call) result :: reports)

end Program

/-! ### The tally -/

/-- What the system answers to each page-size query, and whether each mapping succeeds. -/
structure Answers where
  pageSize : Nat → Int
  maps : Nat → Bool

/-- How many queries and mappings were asked for. -/
structure Asked where
  queries : Nat
  maps : Nat
  deriving DecidableEq

namespace Answers

def page (A : Answers) (n : Nat) : Option Nat :=
  if A.pageSize n ≤ 0 ∨ (A.pageSize n).toNat > sizeMax then none else some (A.pageSize n).toNat

/-- The length of the mapping that `hplf_os_map` obtains. -/
def map (A : Answers) (asked : Asked) (minimumLength : Nat) : Asked × Option Nat :=
  if minimumLength = 0 then
    (asked, none)
  else
    match (A.page asked.queries).bind (sizeRoundUpMultiple minimumLength) with
    | none => (⟨asked.queries + 1, asked.maps⟩, none)
    | some length =>
        (⟨asked.queries + 1, asked.maps + 1⟩, if A.maps asked.maps then some length else none)

/-- The number of slots of the slab that `hplf_slab_create` obtains. -/
def slab (A : Answers) (asked : Asked) (c : ClassIndex) : Asked × Option Nat :=
  match (A.page asked.queries).bind (slabLayoutCompute (sizeClassCapacities c)) with
  | none => (⟨asked.queries + 1, asked.maps⟩, none)
  | some layout =>
      match A.map ⟨asked.queries + 1, asked.maps⟩ layout.mappingLength with
      | (asked, length) => (asked, length.map fun _ => layout.slotCount)

/-- The capacity of the large block that `hplf_allocate_large` obtains. -/
def large (A : Answers) (asked : Asked) (size : Nat) : Asked × Option Nat :=
  match (A.page asked.queries).bind (largeLayoutCompute size) with
  | none => (⟨asked.queries + 1, asked.maps⟩, none)
  | some layout =>
      match A.map ⟨asked.queries + 1, asked.maps⟩ layout.mappingLength with
      | (asked, length) => (asked, length.map fun length => sizeSub length layout.payloadOffset)

end Answers

def Span.retains : Span → Nat → Bool
  | .small c, size => (sizeClassFor size).any fun entry => entry.1 = c
  | .large capacity, size => (sizeClassFor size).isNone && size ≤ capacity

/-- The blocks a program holds, the slots of each class, and what was asked of the system. -/
structure Tally where
  held : List (Nat × Span)
  slots : ClassIndex → Nat
  asked : Asked

/-- The outcome of an allocation: what was obtained, and the class of the slab created for it. -/
structure Taken where
  tally : Tally
  span : Option Span
  created : Option ClassIndex

namespace Tally

def initial : Tally := ⟨[], fun _ => 0, ⟨0, 0⟩⟩

def live (T : Tally) (c : ClassIndex) : Nat := T.held.countP fun entry => entry.2 = .small c

/-- An allocation takes a free block of its class, and creates a slab only if all slots are live. -/
def take (A : Answers) (T : Tally) (size : Nat) : Taken :=
  if size = 0 ∨ size > ptrdiffMax then
    ⟨T, none, none⟩
  else
    match sizeClassFor size with
    | some (c, _) =>
        if T.live c < T.slots c then
          ⟨T, some (.small c), none⟩
        else
          match A.slab T.asked c with
          | (asked, none) => ⟨{ T with asked := asked }, none, none⟩
          | (asked, some n) =>
              ⟨{ T with asked := asked, slots := Function.update T.slots c (T.slots c + n) },
                some (.small c), some c⟩
    | none =>
        match A.large T.asked size with
        | (asked, capacity) => ⟨{ T with asked := asked }, capacity.map .large, none⟩

def keep (T : Tally) (n : Nat) (span : Option Span) : Tally :=
  match span with
  | none => T
  | some span => { T with held := (n, span) :: T.held }

def drop (T : Tally) (handle : Nat) : Tally :=
  { T with held := T.held.eraseP fun entry => entry.1 == handle }

def report (T : Tally) (null retained moved : Bool) (created : Option ClassIndex) : Report where
  null := null
  retained := retained
  moved := moved
  created := created
  free := fun c => some (T.slots c - T.live c)
  live := T.live

/-- A call that allocates only. -/
def allocate (A : Answers) (T : Tally) (n size : Nat) : Tally × Report :=
  let taken := T.take A size
  let T' := taken.tally.keep n taken.span
  (T', T'.report taken.span.isNone false false taken.created)

/-- Call number `n` of the program. -/
def call (A : Answers) (T : Tally) (n : Nat) : ScriptCall → Tally × Report
  | .malloc size => T.allocate A n size
  | .calloc count size =>
      if count = 0 ∨ size = 0 then
        (T, T.report true false false none)
      else
        match sizeMultiply count size with
        | none => (T, T.report true false false none)
        | some totalSize => T.allocate A n totalSize
  | .realloc handle size =>
      match T.held.lookup handle with
      | none => T.allocate A n size
      | some span =>
          if size = 0 then
            (T.drop handle, (T.drop handle).report true false false none)
          else if size > ptrdiffMax then
            (T, T.report true false false none)
          else if span.retains size then
            let T' := (T.drop handle).keep n (some span)
            (T', T'.report false true false none)
          else
            let taken := T.take A size
            match taken.span with
            | none => (taken.tally, taken.tally.report true false false taken.created)
            | some span =>
                let T' := (taken.tally.drop handle).keep n (some span)
                (T', T'.report false false true taken.created)
  | .free handle => (T.drop handle, (T.drop handle).report true false false none)
  | .threadFlush => (T, T.report true false false none)

def run (A : Answers) : Nat → Tally → List ScriptCall → Tally × List Report
  | _, T, [] => (T, [])
  | n, T, call :: rest =>
      let (T', report) := T.call A n call
      let (last, reports) := run A (n + 1) T' rest
      (last, report :: reports)

end Tally

end Hplf
