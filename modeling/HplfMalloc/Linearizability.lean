import HplfMalloc.HeapRefinement
import HplfMalloc.Lib.AtomicObject
import HplfMalloc.Proof.ClientView

/-!
# The heap under concurrent calls

The clients of the running allocator observe when a call starts, when it returns and with which pointer, and
the bytes they read and write in the blocks they hold. Whatever the interleaving, these observations are
those of the abstract heap with every call taking effect at one moment between its start and its return: a
free when it starts, an allocation or a moving resize when its block is handed over.
-/

namespace Hplf

open Lib Memory Session

variable {Tid : Type} [DecidableEq Tid]

/-! ### The heap as an atomic object -/

/-- What a client does without a call that returns a pointer. -/
inductive ClientAccess
  | write (pointer offset : Nat) (value : UInt8)
  | read (pointer offset : Nat) (value : Option UInt8)
  | trim

/-- What a call may return and do to the heap. -/
def Call.Effect (heap : Heap) : Call → Ptr → Heap → Prop
  | .malloc size => HeapStep heap (.malloc size)
  | .calloc count size => HeapStep heap (.calloc count size)
  | .realloc pointer size => HeapStep heap (.realloc pointer size)
  | .free pointer => HeapStep heap (.free pointer)
  | .threadFlush | .threadExit => HeapStep heap .threadFlush

def ClientAccess.Effect (heap : Heap) : ClientAccess → Heap → Prop
  | .write pointer offset value => HeapStep heap (.write pointer offset value) none
  | .read pointer offset value => fun heap' =>
      heap' = heap ∧ ∃ bytes, heap pointer = some bytes ∧ bytes[offset]? = some value
  | .trim => HeapStep heap .trimQuiescent none

def heapObject : Object Heap Call Ptr ClientAccess where
  init heap := heap = fun _ => none
  effect := Call.Effect
  access := ClientAccess.Effect

/-! ### What the clients observe -/

/-- A configuration, and the result of each call that is known but not returned yet. -/
structure Observation (Tid : Type) where
  config : Config Tid
  result : Tid → Option Ptr

/-- What a call returns that ends where it starts. -/
def Call.immediate : Call → Ptr
  | .realloc pointer size => if size = 0 ∨ size > ptrdiffMax then none else pointer
  | _ => none

/-- The result of a call after an action from `pc` to `pc'`: a delivery fixes it, and a call that ends
without one returns null. -/
def settle (pc pc' : Pc) (result : Option Ptr) : Option Ptr :=
  match pc with
  | .deliver _ block => some (blockPayload (some block))
  | _ => if pc' = .idle then some (result.getD none) else result

inductive ObservedStep (v : Variant) (w : World) :
    Observation Tid → Option (Event Tid Call Ptr ClientAccess) → Observation Tid → Prop
  | invoke {x : Observation Tid} {t : Tid} {call : Call} {s : State Tid} {pc : Pc}
      (hidle : x.config.pc t = .idle) (hreturned : x.result t = none) (hallowed : x.config.Allowed call)
      (henter : enter v x.config.state t call = some (s, pc)) :
      ObservedStep v w x (some (.invoke t call))
        ⟨{ x.config.goto t s pc with lastCall := Function.update x.config.lastCall t (some call) },
          Function.update x.result t (if pc = .idle then some call.immediate else none)⟩
  | advance {x : Observation Tid} {k : Config Tid} {t : Tid} (hadvance : advance v w x.config t = some k) :
      ObservedStep v w x none
        ⟨k, Function.update x.result t (settle (x.config.pc t) (k.pc t) (x.result t))⟩
  | respond {x : Observation Tid} {t : Tid} {result : Ptr} (hidle : x.config.pc t = .idle)
      (hresult : x.result t = some result) :
      ObservedStep v w x (some (.respond t result)) { x with result := Function.update x.result t none }
  | write {x : Observation Tid} {block : Nat} {header : Block} {offset : Nat} {value : UInt8} {p : Nat}
      (hlive : block ∈ x.config.live) (hunused : x.config.Unused block)
      (hheader : x.config.state.memory.block block = some header) (hoffset : offset < header.requestedSize)
      (hpayload : blockPayload (some block) = some p) :
      ObservedStep v w x (some (.access (.write p offset value)))
        { x with config := { x.config with state := { x.config.state with
          memory := x.config.state.memory.writeBytes (p + offset) 1 fun _ => some value } } }
  | read {x : Observation Tid} {block : Nat} {header : Block} {offset : Nat} {p : Nat}
      (hlive : block ∈ x.config.live) (hunused : x.config.Unused block)
      (hheader : x.config.state.memory.block block = some header) (hoffset : offset < header.requestedSize)
      (hpayload : blockPayload (some block) = some p) :
      ObservedStep v w x (some (.access (.read p offset (x.config.state.memory.byte (p + offset))))) x
  | trim {x : Observation Tid} {t : Tid} {s : State Tid} {released : Nat} (hquiescent : x.config.Quiescent)
      (hreturned : ∀ u, x.result u = none)
      (htrim : trimQuiescent v w x.config.state t = some (s, released)) :
      ObservedStep v w x (some (.access .trim)) { x with config := { x.config with state := s } }

/-- The running allocator as its clients see it. -/
def clients (Tid : Type) [DecidableEq Tid] (v : Variant) (w : World) :
    System (Observation Tid) (Event Tid Call Ptr ClientAccess) where
  init x := x = ⟨.initial, fun _ => none⟩
  step := ObservedStep v w

variable {v : Variant} {w : World} {k k' : Config Tid} {t : Tid} {heap : Heap}
variable {bases larges : List Nat} {g : Place Tid → List Nat}

/-- Every observed step is a step of the threads, or none. -/
theorem ObservedStep.machine {x y : Observation Tid} {e : Option (Event Tid Call Ptr ClientAccess)}
    (hstep : ObservedStep v w x e y) : (∃ e, Step v w x.config e y.config) ∨ y.config = x.config := by
  cases hstep with
  | invoke hidle _ hallowed henter => exact Or.inl ⟨_, .call hidle hallowed henter⟩
  | advance hadvance => exact Or.inl ⟨_, .advance hadvance⟩
  | respond _ _ => exact Or.inr rfl
  | write hlive hunused hheader hoffset hpayload =>
      exact Or.inl ⟨_, .write hlive hunused hheader hoffset hpayload⟩
  | read _ _ _ _ _ => exact Or.inr rfl
  | trim hquiescent _ htrim => exact Or.inl ⟨_, .trim hquiescent htrim⟩

theorem ObservedStep.safe {x y : Observation Tid} {e : Option (Event Tid Call Ptr ClientAccess)}
    (hstep : ObservedStep v w x e y) (hsafe : Safe x.config) : Safe y.config := by
  rcases hstep.machine with ⟨e', hmachine⟩ | heq
  · exact Safe.step hsafe hmachine
  · rwa [heq]

/-! ### The heap a configuration shows -/

/-- The client has `a`, and has not freed it. -/
def Config.Offers (k : Config Tid) (a : Nat) : Prop := a ∈ k.live ∧ ∀ t, k.pc t ≠ .release a

structure Shows (k : Config Tid) (heap : Heap) : Prop where
  offered : ∀ a, k.Offers a → heap (a + 48) = contents k.state.memory (a + 48)
  other : ∀ p, (∀ a, k.Offers a → p ≠ a + 48) → heap p = none

section

omit [DecidableEq Tid]

/-- The same blocks with the same contents. -/
theorem Shows.congr (hshows : Shows k heap) (hoffers : ∀ a, k'.Offers a ↔ k.Offers a)
    (hsame : ∀ a, k.Offers a → contents k'.state.memory (a + 48) = contents k.state.memory (a + 48)) :
    Shows k' heap := by
  constructor
  · intro a ha
    have hold := (hoffers a).mp ha
    rw [hshows.offered a hold, hsame a hold]
  · intro p hp
    exact hshows.other p fun a ha => hp a ((hoffers a).mpr ha)

/-- One block comes, goes or changes. -/
theorem Shows.update {a : Nat} {value : Option (List (Option UInt8))} (hshows : Shows k heap)
    (hoffers : ∀ x, x ≠ a → (k'.Offers x ↔ k.Offers x))
    (hsame : ∀ x, x ≠ a → k.Offers x →
      contents k'.state.memory (x + 48) = contents k.state.memory (x + 48))
    (hvalue : k'.Offers a → contents k'.state.memory (a + 48) = value)
    (hnone : ¬ k'.Offers a → value = none) : Shows k' (Function.update heap (a + 48) value) := by
  constructor
  · intro x hx
    by_cases hxa : x = a
    · subst hxa
      rw [Function.update_self, hvalue hx]
    · have hold := (hoffers x hxa).mp hx
      rw [Function.update_of_ne (fun h => hxa (Nat.add_right_cancel h)), hshows.offered x hold,
        hsame x hxa hold]
  · intro p hp
    by_cases hpa : p = a + 48
    · subst hpa
      rw [Function.update_self]
      exact hnone fun ha => hp a ha rfl
    · rw [Function.update_of_ne hpa]
      refine hshows.other p fun x hx => ?_
      by_cases hxa : x = a
      · rwa [hxa]
      · exact hp x ((hoffers x hxa).mpr hx)

theorem Config.Offers.of_unused {a : Nat} (ha : a ∈ k.live) (hunused : k.Unused a) : k.Offers a := by
  refine ⟨ha, fun u hu => hunused u ?_⟩
  rw [hu]
  rfl

end

/-- What is offered depends on the live blocks and on the releases that have begun. -/
theorem offers_congr {a : Nat} (hlive : a ∈ k'.live ↔ a ∈ k.live)
    (hothers : ∀ u, u ≠ t → k'.pc u = k.pc u) (hbefore : k.pc t ≠ .release a)
    (hafter : k'.pc t ≠ .release a) : k'.Offers a ↔ k.Offers a := by
  apply and_congr hlive
  apply forall_congr'
  intro u
  by_cases hu : u = t
  · subst hu
    exact ⟨fun _ => hbefore, fun _ => hafter⟩
  · rw [hothers u hu]

omit [DecidableEq Tid] in
theorem not_offers {a : Nat} (hpc : k.pc t = .release a) : ¬ k.Offers a := fun hoffers => hoffers.2 t hpc

/-! ### How a call begins -/

/-- The request of the allocation a call is in. -/
def Pc.request : Pc → Option Request
  | .allocateSmall r _ _ | .detach r _ _ _ | .lockRegistry r _ _ _ | .recheck r _ _ _
  | .createSlab r _ _ _ | .unlockRegistry r _ _ _ _ | .refill r _ _ _ _ | .publishRest r _ _ _
  | .allocateLarge r | .deliver r _ => some r
  | _ => none

/-- The request is made on behalf of the call. -/
def Request.Serves (r : Request) (call : Call) : Prop :=
  0 < r.size ∧
    match r.purpose with
    | .malloc => call = .malloc r.size ∨ call = .realloc none r.size
    | .calloc => ∃ count size, call = .calloc count size ∧ count * size = r.size
    | .realloc old => call = .realloc (some (old + 48)) r.size

/-- The ways in which a call can begin. -/
inductive Entry (k : Config Tid) : Call → State Tid → Pc → Prop
  /-- It does nothing and returns null. -/
  | declined {call : Call} {s : State Tid} (hmemory : s.memory = k.state.memory)
      (hnull : call.immediate = none) (heffect : ∀ heap, call.Effect heap none heap) :
      Entry k call s .idle
  /-- It resizes a block in place. -/
  | retained {a size : Nat} {m : Memory} (hsize : 0 < size ∧ size ≤ ptrdiffMax) (hlive : a ∈ k.live)
      (hunused : k.Unused a) (hset : k.state.memory.setRequestedSize a size = some m)
      (hframe : Framed [a] k.state.memory m) :
      Entry k (.realloc (some (a + 48)) size) { k.state with memory := m } .idle
  | allocates {call : Call} {r : Request} {pc : Pc} (hrequest : pc.request = some r)
      (hserves : r.Serves call) : Entry k call k.state pc
  | releases {call : Call} {a : Nat} (hlive : a ∈ k.live) (hunused : k.Unused a)
      (hcall : call = .free (some (a + 48)) ∨ call = .realloc (some (a + 48)) 0) :
      Entry k call k.state (.release a)
  | flushes {call : Call} {s : State Tid} {d : Nat} {teardown : Bool}
      (hmemory : s.memory = k.state.memory) (hcall : call = .threadFlush ∨ call = .threadExit) :
      Entry k call s (.flush d classIndices teardown)

theorem entry_of_enterMalloc {r : Request} {call : Call} {s : State Tid} {pc : Pc}
    (henter : enterMalloc k.state t r = (s, pc)) (hserves : 0 < r.size → r.Serves call)
    (hnull : r.size = 0 ∨ r.size > ptrdiffMax → call.immediate = none)
    (heffect : ∀ heap, call.Effect heap none heap) : Entry k call s pc := by
  unfold enterMalloc at henter
  split at henter
  · rename_i hzero
    obtain ⟨rfl, rfl⟩ := Prod.mk.inj henter
    exact .declined rfl (hnull (Or.inl hzero)) heffect
  rename_i hzero
  split at henter
  · rename_i hlarge
    obtain ⟨rfl, rfl⟩ := Prod.mk.inj henter
    exact .declined rfl (hnull (Or.inr hlarge)) heffect
  · split at henter
    all_goals
      obtain ⟨rfl, rfl⟩ := Prod.mk.inj henter
      exact .allocates rfl (hserves (Nat.pos_of_ne_zero hzero))

theorem entry_of_realloc (hinv : Inv k bases larges g) (hidle : k.pc t = .idle) {pointer : Ptr}
    {size : Nat} {s : State Tid} {pc : Pc} (hmay : k.MayPass pointer)
    (henter : enter v k.state t (.realloc pointer size) = some (s, pc)) :
    Entry k (.realloc pointer size) s pc := by
  rcases hmay with rfl | ⟨a, hlive, rfl, hunused⟩
  · -- A resize of the null pointer is an allocation.
    have heq : enterMalloc k.state t ⟨.malloc, size⟩ = (s, pc) := Option.some.inj henter
    exact entry_of_enterMalloc heq (fun hpos => ⟨hpos, Or.inr rfl⟩) (fun _ => ite_self _)
      fun _ => .reallocNew .mallocNull
  · rw [blockPayload_some] at henter ⊢
    simp only [enter, blockFromPayload_some, Nat.add_sub_cancel] at henter
    split at henter
    · rename_i hzero
      obtain ⟨rfl, rfl⟩ := Prod.mk.inj (Option.some.inj henter)
      exact .releases hlive hunused (Or.inr (by rw [hzero]))
    rename_i hzero
    have hpos : 0 < size := Nat.pos_of_ne_zero hzero
    split at henter
    · rename_i hlarge
      obtain ⟨rfl, rfl⟩ := Prod.mk.inj (Option.some.inj henter)
      exact .declined rfl (if_pos (Or.inr hlarge)) fun _ => .reallocFailed hpos
    rename_i hlarge
    obtain ⟨b, hb⟩ := hinv.exists_block (p := .live) (hinv.live_eq ▸ hlive)
    obtain ⟨retain, hretain, hiff⟩ := hinv.reallocCanRetain hlive hb size
    rw [hb] at henter
    simp only [hretain, Option.bind_eq_bind, Option.bind_some] at henter
    cases retain with
    | true =>
        obtain ⟨m, hset, hframe, -, -⟩ := hinv.retain hidle hlive (Sized.retained hb hzero (hiff.mp rfl))
        rw [if_pos rfl, setRequestedSize_eq hset] at henter
        obtain ⟨rfl, rfl⟩ := Prod.mk.inj (Option.some.inj henter)
        exact .retained ⟨hpos, Nat.not_lt.mp hlarge⟩ hlive hunused hset hframe
    | false =>
        have heq : enterMalloc k.state t ⟨.realloc a, size⟩ = (s, pc) := Option.some.inj henter
        exact entry_of_enterMalloc heq (fun hpos => ⟨hpos, rfl⟩) (fun h => if_pos h)
          fun _ => .reallocFailed hpos

/-- **Inversion.** Every call begins in one of these ways. -/
theorem entry_of_enter (hinv : Inv k bases larges g) (hidle : k.pc t = .idle) {call : Call} {s : State Tid}
    {pc : Pc} (hallowed : k.Allowed call) (henter : enter v k.state t call = some (s, pc)) :
    Entry k call s pc := by
  cases call with
  | malloc size =>
      have heq : enterMalloc k.state t ⟨.malloc, size⟩ = (s, pc) := Option.some.inj henter
      exact entry_of_enterMalloc heq (fun hpos => ⟨hpos, Or.inl rfl⟩) (fun _ => rfl) fun _ => .mallocNull
  | calloc count size =>
      simp only [enter] at henter
      split at henter
      · obtain ⟨rfl, rfl⟩ := Prod.mk.inj (Option.some.inj henter)
        exact .declined rfl rfl fun _ => .callocNull
      split at henter
      · obtain ⟨rfl, rfl⟩ := Prod.mk.inj (Option.some.inj henter)
        exact .declined rfl rfl fun _ => .callocNull
      · rename_i total hproduct
        obtain ⟨rfl, -⟩ := sizeMultiply_eq_some hproduct
        have heq : enterMalloc k.state t ⟨.calloc, count * size⟩ = (s, pc) := Option.some.inj henter
        exact entry_of_enterMalloc heq (fun hpos => ⟨hpos, count, size, rfl, rfl⟩) (fun _ => rfl)
          fun _ => .callocNull
  | realloc pointer size => exact entry_of_realloc hinv hidle hallowed henter
  | free pointer =>
      rcases hallowed with rfl | ⟨a, hlive, rfl, hunused⟩
      · obtain ⟨rfl, rfl⟩ := Prod.mk.inj (Option.some.inj henter)
        exact .declined rfl rfl fun _ => .freeNull
      · rw [blockPayload_some] at henter ⊢
        simp only [enter, blockFromPayload_some, Nat.add_sub_cancel] at henter
        obtain ⟨rfl, rfl⟩ := Prod.mk.inj (Option.some.inj henter)
        exact .releases hlive hunused (Or.inl rfl)
  | threadFlush =>
      simp only [enter] at henter
      split at henter
      · obtain ⟨rfl, rfl⟩ := Prod.mk.inj (Option.some.inj henter)
        exact .declined rfl rfl fun _ => .threadFlush
      split at henter
      all_goals obtain ⟨rfl, rfl⟩ := Prod.mk.inj (Option.some.inj henter)
      · exact .declined rfl rfl fun _ => .threadFlush
      · exact .flushes rfl (Or.inl rfl)
  | threadExit =>
      simp only [enter] at henter
      split at henter
      all_goals obtain ⟨rfl, rfl⟩ := Prod.mk.inj (Option.some.inj henter)
      · exact .declined rfl rfl fun _ => .threadFlush
      · exact .flushes rfl (Or.inr rfl)

/-! ### Where a call is -/

/-- How far a thread is with its call, and what the abstract heap has it doing. -/
def Tracks (pc : Pc) (result : Option Ptr) : Activity Call Ptr → Prop
  | .idle => pc = .idle ∧ result = none
  | .pending call => result = none ∧ ∃ r, pc.request = some r ∧ r.Serves call
  | .answered p => pc.request = none ∧ result.getD none = p ∧ (pc = .idle → result = some p)

theorem Tracks.between {activity : Activity Call Ptr} (htracks : Tracks .idle none activity) :
    activity = .idle := by
  cases activity with
  | idle => rfl
  | pending call =>
      obtain ⟨-, r, hrequest, -⟩ := htracks
      simp [Pc.request] at hrequest
  | answered p => simpa using htracks.2.2 rfl

theorem Tracks.before {pc : Pc} {result : Option Ptr} {activity : Activity Call Ptr} {r : Request}
    (htracks : Tracks pc result activity) (hrequest : pc.request = some r) :
    result = none ∧ ∃ call, activity = .pending call ∧ r.Serves call := by
  cases activity with
  | idle =>
      rw [htracks.1] at hrequest
      simp [Pc.request] at hrequest
  | pending call =>
      obtain ⟨hresult, r', hrequest', hserves⟩ := htracks
      obtain rfl := Option.some.inj (hrequest.symm.trans hrequest')
      exact ⟨hresult, call, rfl, hserves⟩
  | answered p =>
      rw [htracks.1] at hrequest
      simp at hrequest

theorem Tracks.after {pc : Pc} {result : Option Ptr} {activity : Activity Call Ptr}
    (htracks : Tracks pc result activity) (hrequest : pc.request = none)
    (hbusy : pc = .idle → result ≠ none) : activity = .answered (result.getD none) := by
  cases activity with
  | idle => exact absurd htracks.2 (hbusy htracks.1)
  | pending call =>
      obtain ⟨-, r, hrequest', -⟩ := htracks
      rw [hrequest] at hrequest'
      simp at hrequest'
  | answered p => rw [htracks.2.1]

/-- The clients' view and the abstract heap agree. -/
structure Mirrors (x : Observation Tid) (y : Service Tid Heap Call Ptr) : Prop where
  safe : Safe x.config
  shows : Shows x.config y.state
  tracks : ∀ t, Tracks (x.config.pc t) (x.result t) (y.activity t)

/-- One thread has moved. -/
theorem tracks_update {result : Tid → Option Ptr} {activity : Tid → Activity Call Ptr}
    (htracks : ∀ u, Tracks (k.pc u) (result u) (activity u)) (hothers : ∀ u, u ≠ t → k'.pc u = k.pc u)
    {r : Option Ptr} {a : Activity Call Ptr} (hthis : Tracks (k'.pc t) r a) (u : Tid) :
    Tracks (k'.pc u) (Function.update result t r u) (Function.update activity t a u) := by
  by_cases hu : u = t
  · subst hu
    rwa [Function.update_self, Function.update_self]
  · rw [Function.update_of_ne hu, Function.update_of_ne hu, hothers u hu]
    exact htracks u

omit [DecidableEq Tid] in
/-- A block a client may use, as the heap has it. -/
theorem Mirrors.held {x : Observation Tid} {y : Service Tid Heap Call Ptr} (hmirrors : Mirrors x y)
    {a : Nat} {b : Block} (hlive : a ∈ x.config.live) (hunused : x.config.Unused a)
    (hb : x.config.state.memory.block a = some b) :
    y.state (a + 48) = some (bytesAt x.config.state.memory (a + 48) b.requestedSize) := by
  rw [hmirrors.shows.offered a (.of_unused hlive hunused), contents_payload, hb]
  rfl

/-! ### Calls begin -/

/-- **A call begins.** The heap serves the invocation, and its effect too if the call needs no block. -/
theorem Mirrors.invoke {x : Observation Tid} {y : Service Tid Heap Call Ptr} (hmirrors : Mirrors x y)
    {call : Call} {pc : Pc} (hidle : x.config.pc t = .idle) (hreturned : x.result t = none)
    (hentry : Entry x.config call k'.state pc) (hsafe : Safe k') (hlive : k'.live = x.config.live)
    (hothers : ∀ u, u ≠ t → k'.pc u = x.config.pc u) (hpc : k'.pc t = pc) :
    ∃ y', (heapObject.atomic Tid).Run y [.invoke t call] y' ∧
      Mirrors ⟨k', Function.update x.result t (if pc = .idle then some call.immediate else none)⟩ y' := by
  have hactivity : y.activity t = .idle := by
    have htracks := hmirrors.tracks t
    rw [hidle, hreturned] at htracks
    exact htracks.between
  have hoffers : ∀ a, pc ≠ .release a → (k'.Offers a ↔ x.config.Offers a) := by
    intro a ha
    exact offers_congr (by rw [hlive]) hothers (by simp [hidle]) (by rwa [hpc])
  -- Nothing changes on the heap.
  have hsame : k'.state.memory = x.config.state.memory → (∀ a, pc ≠ .release a) → Shows k' y.state := by
    intro hmemory hafter
    refine hmirrors.shows.congr (fun a => hoffers a (hafter a)) fun a _ => ?_
    rw [hmemory]
  generalize hs : k'.state = s at hentry
  cases hentry with
  | declined hmemory hnull heffect =>
      refine ⟨_, Object.run_invoke_effect hactivity (heffect y.state), hsafe,
        hsame (by rw [hs, hmemory]) (by simp), ?_⟩
      apply tracks_update hmirrors.tracks hothers
      rw [if_pos rfl, hnull, hpc]
      exact ⟨rfl, rfl, fun _ => rfl⟩
  | @retained a size m hsize hmem hunused hset hframe =>
      obtain ⟨bases, larges, g, hinv⟩ := hmirrors.safe
      obtain ⟨b, hb⟩ := hinv.exists_block (p := .live) (hinv.live_eq ▸ hmem)
      have hm : k'.state.memory = m := by rw [hs]
      have hold := hmirrors.held hmem hunused hb
      have hnew : contents k'.state.memory (a + 48)
          = some (bytesAt x.config.state.memory (a + 48) size) := by
        rw [hm, contents_payload]
        rw [Memory.setRequestedSize, modifyBlock_eq hb] at hset
        rw [← Option.some.inj hset]
        simp [bytesAt]
      have heffect : Call.Effect y.state (.realloc (some (a + 48)) size) (some (a + 48))
          (Function.update y.state (a + 48) (some (bytesAt x.config.state.memory (a + 48) size))) := by
        refine .retained hsize.1 hold (length_bytesAt _ _ _) ?_
        rw [length_bytesAt]
        exact take_bytesAt (Nat.min_le_left _ _) (Nat.min_le_right _ _) fun _ _ => rfl
      refine ⟨_, Object.run_invoke_effect hactivity heffect, hsafe, ?_, ?_⟩
      · refine hmirrors.shows.update (fun c _ => hoffers c (by simp)) (fun c hc _ => ?_) (fun _ => hnew)
          fun hnot => absurd ((hoffers a (by simp)).mpr (.of_unused hmem hunused)) hnot
        rw [hm, contents_payload, contents_payload, hframe.block c (by simpa using hc)]
        simp only [bytesAt, hframe.byte]
      · apply tracks_update hmirrors.tracks hothers
        have himmediate : Call.immediate (.realloc (some (a + 48)) size) = some (a + 48) :=
          if_neg (by omega)
        rw [if_pos rfl, himmediate, hpc]
        exact ⟨rfl, rfl, fun _ => rfl⟩
  | @allocates _ r _ hrequest hserves =>
      have hne : pc ≠ .idle := by
        rintro rfl
        simp [Pc.request] at hrequest
      refine ⟨_, Object.run_invoke hactivity, hsafe, hsame (by rw [hs]) ?_, ?_⟩
      · rintro a rfl
        simp [Pc.request] at hrequest
      · apply tracks_update hmirrors.tracks hothers
        rw [if_neg hne, hpc]
        exact ⟨rfl, r, hrequest, hserves⟩
  | @releases _ a hmem hunused hcall =>
      have heffect : call.Effect y.state none (Function.update y.state (a + 48) none) := by
        rcases hcall with rfl | rfl
        · exact .free
        · exact .reallocZero
      refine ⟨_, Object.run_invoke_effect hactivity heffect, hsafe, ?_, ?_⟩
      · refine hmirrors.shows.update (fun c hc => hoffers c ?_) (fun c _ _ => by rw [hs])
          (fun hoffered => absurd hoffered (not_offers hpc)) fun _ => rfl
        exact fun heq => hc (Pc.release.inj heq).symm
      · apply tracks_update hmirrors.tracks hothers
        rw [if_neg (by simp), hpc]
        exact ⟨rfl, rfl, by simp⟩
  | flushes hmemory hcall =>
      have heffect : call.Effect y.state none y.state := by
        rcases hcall with rfl | rfl
        all_goals exact .threadFlush
      refine ⟨_, Object.run_invoke_effect hactivity heffect, hsafe,
        hsame (by rw [hs, hmemory]) (by simp), ?_⟩
      apply tracks_update hmirrors.tracks hothers
      rw [if_neg (by simp), hpc]
      exact ⟨rfl, rfl, by simp⟩

/-! ### Blocks are handed over -/

omit [DecidableEq Tid] in
theorem Inv.not_offered (hinv : Inv k bases larges g) {a : Nat} (hpc : k.pc t = .deliver r a) :
    a ∉ k.live := by
  have hmine : g (.inflight t) = [a] := hinv.carries_at hpc
  exact hinv.not_live (p := .inflight t) (by simp) (by simp [hmine])

omit [DecidableEq Tid] in
/-- No client has the block on its way yet. -/
theorem Shows.fresh (hshows : Shows k heap) {a : Nat} (ha : a ∉ k.live) : heap (a + 48) = none :=
  hshows.other _ fun _ hx heq => ha (Nat.add_right_cancel heq ▸ hx.1)

/-- After a delivery the new block is offered, and of the others the same. -/
theorem Inv.offers_deliver (hinv : Inv k bases larges g) {a : Nat} (hpc : k.pc t = .deliver r a)
    (hlive : k'.live = a :: k.live) (hothers : ∀ u, u ≠ t → k'.pc u = k.pc u)
    (hafter : k'.pc t ≠ .release a) :
    k'.Offers a ∧ ∀ x, x ≠ a → k'.pc t ≠ .release x → (k'.Offers x ↔ k.Offers x) := by
  constructor
  · refine ⟨hlive ▸ List.mem_cons_self, fun u hu => ?_⟩
    by_cases hut : u = t
    · exact hafter (hut ▸ hu)
    · rw [hothers u hut] at hu
      exact hinv.not_offered hpc (hinv.argument_live u a (by rw [hu]; rfl))
  · intro x hx hafter'
    refine offers_congr ?_ hothers (by simp [hpc]) hafter'
    rw [hlive, List.mem_cons]
    exact or_iff_right hx

/-- What is stored in the block on its way does not concern the clients. -/
theorem Inv.keeps_filling (hinv : Inv k bases larges g) {a n : Nat} (hpc : k.pc t = .deliver r a)
    (hn : n ≤ r.size) (value : Nat → Option UInt8) :
    KeepsLive k (k.state.memory.writeBytes (a + 48) n value) ∧
      (k.state.memory.writeBytes (a + 48) n value).block a = k.state.memory.block a := by
  obtain ⟨-, b, hb, -, hle⟩ := hinv.deliver_size_le hpc
  obtain ⟨-, hheaders, hkeeps⟩ := (hinv.handOver .idle hpc (Or.inl rfl)).overwrite List.mem_cons_self hb
    (a + 48) n value (Nat.le_refl _) (by unfold sizeofBlock; omega)
  have hpop := (hinv.handOver .idle hpc (Or.inl rfl)).live_populated List.mem_cons_self
  refine ⟨hkeeps.congr (fun x hx => ?_) rfl, hheaders.block a hpop⟩
  have hne : x ≠ a := fun heq => hinv.not_offered hpc (heq ▸ hx)
  exact (List.mem_erase_of_ne hne).mpr (List.mem_cons_of_mem a hx)

omit [DecidableEq Tid] in
/-- A block of `n` bytes comes to the client. -/
theorem Shows.receive (hshows : Shows k heap) {a n : Nat} {b : Block} (hnew : k'.Offers a)
    (hoffers : ∀ x, x ≠ a → (k'.Offers x ↔ k.Offers x)) (hkeeps : KeepsLive k k'.state.memory)
    (hblock : k'.state.memory.block a = some b) (hsize : b.requestedSize = n) :
    Shows k' (Function.update heap (a + 48) (some (bytesAt k'.state.memory (a + 48) n))) := by
  refine hshows.update hoffers (fun x _ hx => contents_of_keeps hkeeps hx.1) (fun _ => ?_)
    fun hnot => absurd hnew hnot
  rw [contents_payload, hblock, Option.map_some, hsize]

/-- **A moving resize takes effect.** The old block goes and the new one comes with its first bytes. -/
theorem Shows.moved (hshows : Shows k heap) (hinv : Inv k bases larges g) {r : Request} {a old : Nat}
    {header : Block} (hpc : k.pc t = .deliver r a) (hpurpose : r.purpose = .realloc old)
    (hheader : k.state.memory.block old = some header) (hpos : 0 < r.size)
    (hstate : k'.state = copyBytes k.state (a + 48) (old + 48) (min header.requestedSize r.size))
    (hlive : k'.live = a :: k.live) (hpcs : k'.pc = Function.update k.pc t (.release old)) :
    ∃ heap', HeapStep heap (.realloc (some (old + 48)) r.size) (some (a + 48)) heap' ∧ Shows k' heap' := by
  obtain ⟨-, b, hb, hsize, -⟩ := hinv.deliver_size_le hpc
  have hargument : (k.pc t).argument = some old := by
    rw [hpc]
    simp [Pc.argument, hpurpose]
  have holdLive := hinv.argument_live t old hargument
  have hne : old ≠ a := fun heq => hinv.not_offered hpc (heq ▸ holdLive)
  have holdOffered : k.Offers old := by
    refine ⟨holdLive, fun u hu => ?_⟩
    have hut : u = t := hinv.argument_unique u t old (by rw [hu]; rfl) hargument
    rw [hut, hpc] at hu
    simp at hu
  have hold : heap (old + 48) = some (bytesAt k.state.memory (old + 48) header.requestedSize) := by
    rw [hshows.offered old holdOffered, contents_payload, hheader]
    rfl
  have hmemory : k'.state.memory = k.state.memory.writeBytes (a + 48) (min header.requestedSize r.size)
      fun i => k.state.memory.byte (old + 48 + i) := by
    rw [hstate]
    rfl
  obtain ⟨hkeeps, hblock⟩ := hinv.keeps_filling hpc (Nat.min_le_right header.requestedSize r.size)
    fun i => k.state.memory.byte (old + 48 + i)
  rw [← hmemory] at hkeeps hblock
  have hothers : ∀ u, u ≠ t → (k.goto t k.state (.release old)).pc u = k.pc u := fun u hu =>
    Config.goto_pc_of_ne hu _ _
  have hgone : Shows (k.goto t k.state (.release old)) (Function.update heap (old + 48) none) := by
    refine hshows.update (fun x hx => offers_congr Iff.rfl hothers (by simp [hpc]) ?_)
      (fun _ _ _ => rfl) (fun hoffered => absurd hoffered (not_offers (Config.goto_pc _ _))) fun _ => rfl
    rw [Config.goto_pc]
    exact fun heq => hx (Pc.release.inj heq).symm
  have hnew : k'.Offers a := by
    refine (hinv.offers_deliver hpc hlive (fun u hu => ?_) ?_).1
    · rw [hpcs, Function.update_of_ne hu]
    · rw [hpcs, Function.update_self]
      exact fun heq => hne (Pc.release.inj heq)
  have hoffers : ∀ x, x ≠ a → (k'.Offers x ↔ (k.goto t k.state (.release old)).Offers x) := by
    intro x hx
    unfold Config.Offers
    rw [hpcs, hlive, List.mem_cons]
    exact and_congr_left fun _ => or_iff_right hx
  refine ⟨_, ?_, hgone.receive hnew hoffers (hkeeps.congr (fun _ h => h) rfl) (hblock.trans hb) hsize⟩
  refine .moved hpos hold (hshows.fresh (hinv.not_offered hpc)) (length_bytesAt _ _ _) ?_
  rw [length_bytesAt]
  apply take_bytesAt (Nat.min_le_left _ _) (Nat.min_le_right _ _)
  intro i hi
  rw [hmemory]
  simp only [Memory.writeBytes]
  rw [if_pos (by omega), Nat.add_sub_cancel_left]

/-- **A delivery takes effect.** The heap gives out the same block with the same bytes. -/
theorem Shows.deliver (hshows : Shows k heap) (hinv : Inv k bases larges g) {r : Request} {a : Nat}
    (hpc : k.pc t = .deliver r a) (hdeliver : DeliverStep k t r a k') {call : Call}
    (hserves : r.Serves call) :
    ∃ heap', call.Effect heap (some (a + 48)) heap' ∧ Shows k' heap' ∧ (k'.pc t).request = none := by
  obtain ⟨hpos, hpurposes⟩ := hserves
  obtain ⟨-, b, hb, hsize, -⟩ := hinv.deliver_size_le hpc
  have hfresh := hshows.fresh (hinv.not_offered hpc)
  have hreceived : k'.pc = Function.update k.pc t .idle → k'.live = a :: k.live →
      KeepsLive k k'.state.memory → k'.state.memory.block a = k.state.memory.block a →
      Shows k' (Function.update heap (a + 48) (some (bytesAt k'.state.memory (a + 48) r.size))) := by
    intro hpcs hlive hkeeps hblock
    have hidle : k'.pc t = .idle := by rw [hpcs, Function.update_self]
    obtain ⟨hnew, hoffers⟩ := hinv.offers_deliver hpc hlive
      (fun u hu => by rw [hpcs, Function.update_of_ne hu]) (by simp [hidle])
    exact hshows.receive hnew (fun x hx => hoffers x hx (by simp [hidle])) hkeeps (hblock.trans hb) hsize
  cases hdeliver with
  | malloc hpurpose =>
      rw [hpurpose] at hpurposes
      have hstep : HeapStep heap (.malloc r.size) (some (a + 48)) _ :=
        .malloc hpos hfresh (length_bytesAt k.state.memory (a + 48) r.size)
      refine ⟨_, ?_, hreceived rfl rfl (KeepsLive.of_eq rfl) rfl, by simp [Pc.request]⟩
      rcases hpurposes with rfl | rfl
      · exact hstep
      · exact .reallocNew hstep
  | @calloc payload hpurpose hpayload =>
      rw [blockPayload_some] at hpayload
      obtain rfl := Option.some.inj hpayload
      rw [hpurpose] at hpurposes
      obtain ⟨count, size, rfl, hproduct⟩ := hpurposes
      obtain ⟨hkeeps, hblock⟩ := hinv.keeps_filling hpc (Nat.le_refl _) fun _ => some 0
      have hzero : bytesAt (k.state.memory.writeBytes (a + 48) r.size fun _ => some 0) (a + 48) r.size
          = List.replicate (count * size) (some 0) := by
        rw [hproduct]
        exact bytesAt_zero fun i hi => if_pos (by omega)
      refine ⟨_, ?_, hreceived rfl rfl hkeeps hblock, by simp [Pc.request]⟩
      change HeapStep heap (.calloc count size) _ (Function.update heap (a + 48) (some (bytesAt
        (k.state.memory.writeBytes (a + 48) r.size fun _ => some 0) (a + 48) r.size)))
      rw [hzero]
      exact .calloc (hproduct ▸ hpos) hfresh
  | @realloc old payload pointer header hpurpose hpayload hheader hpointer =>
      rw [blockPayload_some] at hpayload hpointer
      obtain rfl := Option.some.inj hpayload
      obtain rfl := Option.some.inj hpointer
      rw [hpurpose] at hpurposes
      subst hpurposes
      have hcopied : (if header.requestedSize < r.size then header.requestedSize else r.size)
          = min header.requestedSize r.size := by
        split <;> omega
      rw [hcopied]
      obtain ⟨heap', hstep, hshown⟩ : ∃ heap', HeapStep heap (.realloc (some (old + 48)) r.size)
          (some (a + 48)) heap' ∧ Shows { k.goto t (copyBytes k.state (a + 48) (old + 48)
            (min header.requestedSize r.size)) (.release old) with live := a :: k.live } heap' :=
        hshows.moved hinv hpc hpurpose hheader hpos rfl rfl rfl
      exact ⟨heap', hstep, hshown, by simp [Pc.request]⟩

/-! ### Actions -/

/-- An action that delivers nothing goes on with the same request or ends the call, and begins no release. -/
theorem Transition.course (htransition : Transition v w k t k') (hdeliver : ∀ r a, k.pc t ≠ .deliver r a) :
    k.pc t ≠ .idle ∧ (∀ a, k'.pc t ≠ .release a) ∧
      ((k'.pc t).request = (k.pc t).request ∨ k'.pc t = .idle) := by
  cases htransition with
  | delivered hpc _ => exact absurd hpc (hdeliver _ _)
  | released hpc hrelease =>
      obtain ⟨s, pc, leaked, rfl, hcases⟩ := release_cases hrelease
      rcases hcases with rfl | ⟨c, list, e, rfl⟩ | ⟨c, d, e, rfl⟩
      all_goals simp [hpc, Pc.request, Config.goto]
  | flushDone hpc =>
      rename_i teardown
      cases teardown <;> simp [hpc, Pc.request]
  | _ hpc => simp [hpc, Pc.request]

/-- The action of a thread whose call needs no block any more. -/
theorem Tracks.finish {pc pc' : Pc} {result : Option Ptr} {p : Ptr} (htracks : Tracks pc result (.answered p))
    (hdeliver : ∀ r a, pc ≠ .deliver r a) (hrequest : pc'.request = none) :
    Tracks pc' (settle pc pc' result) (.answered p) := by
  have hsettle : settle pc pc' result = if pc' = .idle then some (result.getD none) else result := by
    unfold settle
    split
    · exact absurd rfl (hdeliver _ _)
    · rfl
  refine ⟨hrequest, ?_, ?_⟩
  · rw [hsettle]
    split
    · exact htracks.2.1
    · exact htracks.2.1
  · intro hidle
    rw [hsettle, if_pos hidle, htracks.2.1]

/-- The call of an allocation that failed has no effect. -/
theorem Request.Serves.declines {call : Call} {r : Request} (hserves : r.Serves call) (heap : Heap) :
    call.Effect heap none heap := by
  obtain ⟨hpos, hpurposes⟩ := hserves
  split at hpurposes
  · rcases hpurposes with rfl | rfl
    · exact .mallocNull
    · exact .reallocNew .mallocNull
  · obtain ⟨count, size, rfl, -⟩ := hpurposes
    exact .callocNull
  · subst hpurposes
    exact .reallocFailed hpos

/-- An action that delivers nothing does not change the heap. -/
theorem Shows.advance (hshows : Shows k heap) (hinv : Inv k bases larges g)
    (htransition : Transition v w k t k') (hdeliver : ∀ r a, k.pc t ≠ .deliver r a) : Shows k' heap := by
  obtain ⟨-, hafter, -⟩ := htransition.course hdeliver
  have hothers : ∀ u, u ≠ t → k'.pc u = k.pc u := fun u hu => htransition.pc_of_ne hu
  by_cases hrelease : ∃ a, k.pc t = .release a
  · obtain ⟨a, hpc⟩ := hrelease
    obtain ⟨hlive, hkeeps⟩ : k'.live = k.live.erase a ∧
        KeepsLive { k with live := k.live.erase a } k'.state.memory := by
      cases htransition with
      | released hpc' hrelease =>
          obtain rfl := Pc.release.inj (hpc'.symm.trans hpc)
          exact hinv.release_keepsLive hpc (releaseStep_of_release hrelease)
      | _ hpc' => simp [hpc'] at hpc
    -- The block was not offered before, and is not live after.
    have hoffers : ∀ x, k'.Offers x ↔ k.Offers x := by
      intro x
      by_cases hx : x = a
      · subst hx
        refine iff_of_false (fun hoffered => ?_) (not_offers hpc)
        rw [Config.Offers, hlive] at hoffered
        exact hinv.live_nodup.not_mem_erase hoffered.1
      · refine offers_congr ?_ hothers (fun h => hx (Pc.release.inj (h.symm.trans hpc))) (hafter x)
        rw [hlive]
        exact List.mem_erase_of_ne hx
    refine hshows.congr hoffers fun x hx => contents_of_keeps hkeeps ?_
    have hne : x ≠ a := fun heq => not_offers hpc (heq ▸ hx)
    exact (List.mem_erase_of_ne hne).mpr hx.1
  · have hbefore : ∀ a, k.pc t ≠ .release a := fun a h => hrelease ⟨a, h⟩
    obtain ⟨hlive, hkeeps⟩ := hinv.advance_keepsLive htransition hdeliver hbefore
    exact hshows.congr (fun x => offers_congr (by rw [hlive]) hothers (hbefore x) (hafter x))
      fun x hx => contents_of_keeps hkeeps hx.1

/-- **An action.** The heap makes the effect of the call if the action delivers a block or gives up. -/
theorem Mirrors.advance {x : Observation Tid} {y : Service Tid Heap Call Ptr} (hmirrors : Mirrors x y)
    (hadvance : advance v w x.config t = some k') :
    ∃ y', (heapObject.atomic Tid).Run y [] y' ∧
      Mirrors ⟨k', Function.update x.result t (settle (x.config.pc t) (k'.pc t) (x.result t))⟩ y' := by
  obtain ⟨bases, larges, g, hinv⟩ := hmirrors.safe
  have hsafe := hinv.safe_of_advance hadvance
  have htransition := transition_of_advance hadvance
  have hothers : ∀ u, u ≠ t → k'.pc u = x.config.pc u := fun u hu => htransition.pc_of_ne hu
  have htracks := hmirrors.tracks t
  by_cases hdelivers : ∃ r a, x.config.pc t = .deliver r a
  · obtain ⟨r, a, hpc⟩ := hdelivers
    have hstep : DeliverStep x.config t r a k' := by
      cases htransition with
      | delivered hpc' hdeliver =>
          obtain ⟨rfl, rfl⟩ := Pc.deliver.inj (hpc'.symm.trans hpc)
          exact deliverStep_of_deliver hdeliver
      | _ hpc' => simp [hpc'] at hpc
    obtain ⟨-, call, hactivity, hserves⟩ := htracks.before (r := r) (by rw [hpc]; rfl)
    obtain ⟨heap', heffect, hshows, hrequest⟩ := hmirrors.shows.deliver hinv hpc hstep hserves
    refine ⟨_, Object.run_effect hactivity heffect, hsafe, hshows, ?_⟩
    apply tracks_update hmirrors.tracks hothers
    rw [hpc]
    exact ⟨hrequest, rfl, fun _ => rfl⟩
  · have hdeliver : ∀ r a, x.config.pc t ≠ .deliver r a := fun r a h => hdelivers ⟨r, a, h⟩
    obtain ⟨hbusy, -, hcourse⟩ := htransition.course hdeliver
    have hshows := hmirrors.shows.advance hinv htransition hdeliver
    cases hrequest : (x.config.pc t).request with
    | none =>
        have hactivity := htracks.after hrequest fun h => absurd h hbusy
        refine ⟨y, .refl, hsafe, hshows, ?_⟩
        have hafter : (k'.pc t).request = none := by
          rcases hcourse with h | h
          · rw [h, hrequest]
          · rw [h]
            rfl
        rw [hactivity] at htracks
        have hmoved := tracks_update hmirrors.tracks hothers (htracks.finish hdeliver hafter)
        rwa [← hactivity, Function.update_eq_self] at hmoved
    | some r =>
        obtain ⟨hresult, call, hactivity, hserves⟩ := htracks.before hrequest
        have hsettle : settle (x.config.pc t) (k'.pc t) (x.result t)
            = if k'.pc t = .idle then some none else none := by
          unfold settle
          split
          · rename_i r' a hpc
            exact absurd hpc (hdeliver r' a)
          · rw [hresult]
            rfl
        rw [hsettle]
        by_cases hidle : k'.pc t = .idle
        · refine ⟨_, Object.run_effect hactivity (hserves.declines _), hsafe, hshows, ?_⟩
          apply tracks_update hmirrors.tracks hothers
          rw [if_pos hidle, hidle]
          exact ⟨rfl, rfl, fun _ => rfl⟩
        · rw [if_neg hidle]
          refine ⟨y, .refl, hsafe, hshows, ?_⟩
          have hsame : (k'.pc t).request = some r := (hcourse.resolve_right hidle).trans hrequest
          have hthis : Tracks (k'.pc t) none (y.activity t) := by
            rw [hactivity]
            exact ⟨rfl, r, hsame, hserves⟩
          have hmoved := tracks_update hmirrors.tracks hothers hthis
          rwa [Function.update_eq_self] at hmoved

/-! ### Responses, accesses and trims -/

theorem Mirrors.respond {x : Observation Tid} {y : Service Tid Heap Call Ptr} (hmirrors : Mirrors x y)
    {p : Ptr} (hidle : x.config.pc t = .idle) (hresult : x.result t = some p) :
    ∃ y', (heapObject.atomic Tid).Run y [.respond t p] y' ∧
      Mirrors { x with result := Function.update x.result t none } y' := by
  have htracks := hmirrors.tracks t
  have hactivity : y.activity t = .answered p := by
    have hafter := htracks.after (by rw [hidle]; rfl) fun _ => by simp [hresult]
    rwa [hresult] at hafter
  refine ⟨_, Object.run_respond hactivity, hmirrors.safe, hmirrors.shows, ?_⟩
  exact tracks_update hmirrors.tracks (fun _ _ => rfl) ⟨hidle, rfl⟩

theorem Mirrors.write {x : Observation Tid} {y : Service Tid Heap Call Ptr} (hmirrors : Mirrors x y)
    {a offset : Nat} {b : Block} {value : UInt8} (hlive : a ∈ x.config.live) (hunused : x.config.Unused a)
    (hb : x.config.state.memory.block a = some b) (hoffset : offset < b.requestedSize)
    (hstate : k'.state = { x.config.state with
      memory := x.config.state.memory.writeBytes (a + 48 + offset) 1 fun _ => some value })
    (hpcs : k'.pc = x.config.pc) (hlives : k'.live = x.config.live) (hsafe : Safe k') :
    ∃ y', (heapObject.atomic Tid).Run y [.access (.write (a + 48) offset value)] y' ∧
      Mirrors { x with config := k' } y' := by
  have hheld := hmirrors.held hlive hunused hb
  obtain ⟨bases, larges, g, hinv⟩ := hmirrors.safe
  have hle := (hinv.live_size_le hlive hb).2
  obtain ⟨-, hheaders, hkeeps⟩ := hinv.overwrite hlive hb (a + 48 + offset) 1 (fun _ => some value)
    (by unfold sizeofBlock; omega) (by unfold sizeofBlock; omega)
  have hoffers : ∀ c, k'.Offers c ↔ x.config.Offers c := by
    intro c
    unfold Config.Offers
    rw [hpcs, hlives]
  have hmemory : k'.state.memory
      = x.config.state.memory.writeBytes (a + 48 + offset) 1 fun _ => some value := by rw [hstate]
  have heffect : HeapStep y.state (.write (a + 48) offset value) none _ :=
    .write hheld (by rwa [length_bytesAt])
  refine ⟨_, Object.run_access heffect, hsafe, ?_, fun u => ?_⟩
  · refine hmirrors.shows.update (fun c _ => hoffers c) (fun c hc hoffered => ?_) (fun _ => ?_)
      fun hnot => absurd ((hoffers a).mpr (.of_unused hlive hunused)) hnot
    · rw [hmemory]
      exact contents_of_keeps hkeeps ((List.mem_erase_of_ne hc).mpr hoffered.1)
    · rw [hmemory, contents_payload, hheaders.block a (hinv.live_populated hlive), hb, Option.map_some,
        bytesAt_write]
  · change Tracks (k'.pc u) _ _
    rw [hpcs]
    exact hmirrors.tracks u

theorem Mirrors.read {x : Observation Tid} {y : Service Tid Heap Call Ptr} (hmirrors : Mirrors x y)
    {a offset : Nat} {b : Block} (hlive : a ∈ x.config.live) (hunused : x.config.Unused a)
    (hb : x.config.state.memory.block a = some b) (hoffset : offset < b.requestedSize) :
    (heapObject.atomic Tid).Run y
      [.access (.read (a + 48) offset (x.config.state.memory.byte (a + 48 + offset)))] y := by
  have haccess : heapObject.access y.state
      (.read (a + 48) offset (x.config.state.memory.byte (a + 48 + offset))) y.state := by
    refine ⟨rfl, _, hmirrors.held hlive hunused hb, ?_⟩
    rw [bytesAt, List.getElem?_map, List.getElem?_range hoffset]
    rfl
  exact Object.run_access haccess

theorem Mirrors.trim {x : Observation Tid} {y : Service Tid Heap Call Ptr} (hmirrors : Mirrors x y)
    {s : State Tid} {released : Nat} (hquiescent : x.config.Quiescent)
    (htrim : trimQuiescent v w x.config.state t = some (s, released))
    (hsafe : Safe { x.config with state := s }) :
    ∃ y', (heapObject.atomic Tid).Run y [.access .trim] y' ∧
      Mirrors { x with config := { x.config with state := s } } y' := by
  obtain ⟨bases, larges, g, hinv⟩ := hmirrors.safe
  obtain ⟨k', bases', g', htrim', htrims, -⟩ := hinv.trimQuiescent (hquiescent t) v w
  obtain ⟨rfl, -⟩ := Prod.mk.inj (Option.some.inj (htrim'.symm.trans htrim))
  refine ⟨_, Object.run_access (O := heapObject) (s := y.state) (a := .trim) .trimQuiescent, hsafe, ?_,
    hmirrors.tracks⟩
  exact hmirrors.shows.congr (fun _ => Iff.rfl) fun c hc => contents_of_keeps htrims.live hc.1

/-! ### Runs -/

/-- The clients' view is simulated by the atomic heap. -/
theorem clients_simulation (v : Variant) (w : World) :
    System.WeakSimulation (clients Tid v w) (heapObject.atomic Tid) Mirrors where
  init x hinit := by
    obtain rfl : x = ⟨.initial, fun _ => none⟩ := hinit
    refine ⟨⟨fun _ => none, fun _ => .idle⟩, ⟨rfl, fun _ => rfl⟩, ⟨_, _, _, Inv.initial⟩,
      ⟨fun a ha => ?_, fun _ _ => rfl⟩, fun _ => ⟨rfl, rfl⟩⟩
    exact absurd ha.1 List.not_mem_nil
  internal x x' y hmirrors hstep := by
    cases hstep with
    | advance hadvance => exact hmirrors.advance hadvance
  observe x x' y e hmirrors hstep := by
    have hsafe := ObservedStep.safe hstep hmirrors.safe
    cases hstep with
    | invoke hidle hreturned hallowed henter =>
        obtain ⟨bases, larges, g, hinv⟩ := hmirrors.safe
        exact hmirrors.invoke hidle hreturned (entry_of_enter hinv hidle hallowed henter) hsafe rfl
          (fun u hu => Function.update_of_ne hu _ _) (Function.update_self _ _ _)
    | respond hidle hresult => exact hmirrors.respond hidle hresult
    | write hlive hunused hheader hoffset hpayload =>
        rw [blockPayload_some] at hpayload
        obtain rfl := Option.some.inj hpayload
        exact hmirrors.write hlive hunused hheader hoffset rfl rfl rfl hsafe
    | read hlive hunused hheader hoffset hpayload =>
        rw [blockPayload_some] at hpayload
        obtain rfl := Option.some.inj hpayload
        exact ⟨y, hmirrors.read hlive hunused hheader hoffset, hmirrors⟩
    | trim hquiescent _ htrim => exact hmirrors.trim hquiescent htrim hsafe

theorem settle_idle (pc : Pc) (result : Option Ptr) : settle pc .idle result ≠ none := by
  unfold settle
  split
  · simp
  · simp

/-- A call that has ended returns at once. -/
theorem exists_returned {x : Observation Tid} (hx : (clients Tid v w).Reachable x)
    (hthis : x.config.pc t = .idle → x.result t ≠ none)
    (hothers : ∀ u, u ≠ t → x.config.pc u = .idle → x.result u = none) :
    ∃ y, (clients Tid v w).Reachable y ∧ y.config = x.config ∧
      ∀ u, x.config.pc u = .idle → y.result u = none := by
  by_cases hidle : x.config.pc t = .idle
  · obtain ⟨p, hp⟩ := Option.ne_none_iff_exists'.mp (hthis hidle)
    refine ⟨_, hx.step (.respond hidle hp), rfl, fun u hu => ?_⟩
    by_cases hut : u = t
    · subst hut
      exact Function.update_self _ _ _
    · exact (Function.update_of_ne hut _ _).trans (hothers u hut hu)
  · refine ⟨x, hx, rfl, fun u hu => hothers u ?_ hu⟩
    rintro rfl
    exact hidle hu

/-- The clients' view leaves no behaviour of the threads out. -/
theorem exists_observation (hreach : (machine Tid v w).Reachable k) :
    ∃ x, (clients Tid v w).Reachable x ∧ x.config = k ∧ ∀ t, k.pc t = .idle → x.result t = none := by
  refine hreach.invariant (I := fun k => ∃ x, (clients Tid v w).Reachable x ∧ x.config = k ∧
    ∀ t, k.pc t = .idle → x.result t = none) ?_ ?_
  · rintro k (rfl : k = .initial)
    exact ⟨_, System.Reachable.init rfl, rfl, fun _ _ => rfl⟩
  · rintro k e k' ⟨x, hx, rfl, hresults⟩ hstep
    cases hstep with
    | @call t call s pc hidle hallowed henter =>
        refine exists_returned (t := t) (hx.step (.invoke hidle (hresults t hidle) hallowed henter)) ?_ ?_
        · intro hpc
          have hstarted : pc = .idle := (Function.update_self _ _ _).symm.trans hpc
          change Function.update x.result t _ t ≠ none
          rw [Function.update_self, if_pos hstarted]
          exact Option.some_ne_none _
        · intro u hu hpc
          have hwas : x.config.pc u = .idle := (Function.update_of_ne hu _ _).symm.trans hpc
          exact (Function.update_of_ne hu _ _).trans (hresults u hwas)
    | @advance k' t hadvance =>
        refine exists_returned (t := t) (hx.step (.advance hadvance)) ?_ ?_
        · intro (hpc : k'.pc t = .idle)
          change Function.update x.result t _ t ≠ none
          rw [Function.update_self, hpc]
          exact settle_idle _ _
        · intro u hu (hpc : k'.pc u = .idle)
          rw [(transition_of_advance hadvance).pc_of_ne hu] at hpc
          exact (Function.update_of_ne hu _ _).trans (hresults u hpc)
    | write hlive hunused hheader hoffset hpayload =>
        exact ⟨_, hx.step (.write hlive hunused hheader hoffset hpayload), rfl, hresults⟩
    | trim hquiescent htrim =>
        exact ⟨_, hx.step (.trim hquiescent (fun u => hresults u (hquiescent u)) htrim), rfl, hresults⟩

theorem reachable_of_observation {x : Observation Tid} (hx : (clients Tid v w).Reachable x) :
    (machine Tid v w).Reachable x.config := by
  refine hx.invariant (I := fun x => (machine Tid v w).Reachable x.config) ?_ ?_
  · rintro x (rfl : x = ⟨.initial, fun _ => none⟩)
    exact System.Reachable.init rfl
  · intro x e y hreach hstep
    rcases ObservedStep.machine hstep with ⟨e', hmachine⟩ | heq
    · exact hreach.step hmachine
    · rwa [heq]

/-- **Linearizability.** In both builds, for any number of threads, any interleaving of their calls and
whatever the system answers, all the clients can observe is what they could observe of the abstract heap
serving each call at one moment. The configurations they observe are all those the threads reach. -/
theorem heap_linearizable (v : Variant) (w : World) : Linearizable (clients Tid v w) heapObject ∧
    ∀ k, (machine Tid v w).Reachable k ↔ ∃ x, (clients Tid v w).Reachable x ∧ x.config = k := by
  refine ⟨fun _ htrace => (clients_simulation v w).trace htrace, fun k => ⟨fun hreach => ?_, ?_⟩⟩
  · obtain ⟨x, hx, hconfig, -⟩ := exists_observation hreach
    exact ⟨x, hx, hconfig⟩
  · rintro ⟨x, hx, rfl⟩
    exact reachable_of_observation hx

end Hplf
