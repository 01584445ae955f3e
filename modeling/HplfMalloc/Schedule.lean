import HplfMalloc.Machine
import HplfMalloc.BumpWorld
import Mathlib.Data.Fintype.Basic

/-!
# Schedules

A schedule says which thread makes which call or takes its next action, one after another. Making its moves
computes the configuration they lead to, and what they lead to is reachable.
-/

namespace Hplf

open Lib

variable {Tid : Type} [DecidableEq Tid]

/-- A thread starts a call or takes its next action. -/
inductive Move (Tid : Type)
  | call (t : Tid) (call : Call)
  | advance (t : Tid)

section Moves

variable [Fintype Tid]

instance (k : Config Tid) (block : Nat) : Decidable (k.Unused block) :=
  inferInstanceAs (Decidable (∀ t, (k.pc t).argument ≠ some block))

instance (k : Config Tid) (pointer : Ptr) : Decidable (k.MayPass pointer) :=
  inferInstanceAs (Decidable (pointer = none ∨
    ∃ block ∈ k.live, pointer = blockPayload (some block) ∧ k.Unused block))

instance (k : Config Tid) (call : Call) : Decidable (k.Allowed call) :=
  match call with
  | .realloc pointer _ => inferInstanceAs (Decidable (k.MayPass pointer))
  | .free pointer => inferInstanceAs (Decidable (k.MayPass pointer))
  | .malloc _ | .calloc _ _ | .threadFlush | .threadExit => inferInstanceAs (Decidable True)

def makeMove (v : Variant) (w : World) (k : Config Tid) : Move Tid → Option (Config Tid)
  | .call t call =>
      if k.pc t = .idle ∧ k.Allowed call then
        (enter v k.state t call).map fun (s, pc) =>
          { k.goto t s pc with lastCall := Function.update k.lastCall t (some call) }
      else
        none
  | .advance t => advance v w k t

def makeMoves (v : Variant) (w : World) : List (Move Tid) → Config Tid → Option (Config Tid)
  | [], k => some k
  | m :: rest, k => do
      let k ← makeMove v w k m
      makeMoves v w rest k

theorem makeMove_step {v : Variant} {w : World} {k k' : Config Tid} {m : Move Tid}
    (hmove : makeMove v w k m = some k') : ∃ e, Step v w k e k' := by
  cases m with
  | call t call =>
      rw [makeMove] at hmove
      split at hmove
      · rename_i hready
        obtain ⟨⟨s, pc⟩, henter, rfl⟩ := Option.map_eq_some_iff.mp hmove
        exact ⟨_, .call hready.1 hready.2 henter⟩
      · simp at hmove
  | advance t => exact ⟨none, .advance hmove⟩

theorem reachable_makeMoves {v : Variant} {w : World} {moves : List (Move Tid)} :
    ∀ {k k' : Config Tid}, (machine Tid v w).Reachable k → makeMoves v w moves k = some k' →
      (machine Tid v w).Reachable k' := by
  induction moves with
  | nil =>
      intro k k' hreach hmoves
      obtain rfl := Option.some.inj hmoves
      exact hreach
  | cons m rest ih =>
      intro k k' hreach hmoves
      obtain ⟨k₁, hfirst, hrest⟩ := Option.bind_eq_some_iff.mp hmoves
      obtain ⟨e, hstep⟩ := makeMove_step hfirst
      exact ih (hreach.step hstep) hrest

/-- A property checked on the configuration the moves lead to holds of a reachable one. -/
theorem exists_makeMoves (v : Variant) (w : World) (moves : List (Move Tid)) (P : Config Tid → Bool)
    (hcheck : (makeMoves v w moves .initial).any P = true) :
    ∃ k, (machine Tid v w).Reachable k ∧ P k = true := by
  obtain ⟨k, hmoves, hk⟩ := (Option.any_eq_true _ _).mp hcheck
  exact ⟨k, reachable_makeMoves (System.Reachable.init rfl) hmoves, hk⟩

end Moves

/-- Thread `t` makes a call and takes the `n` actions of it. -/
def callMoves (t : Tid) (call : Call) (n : Nat) : List (Move Tid) :=
  .call t call :: List.replicate n (.advance t)

/-- Thread `t` allocates a block of the largest class on its own, through an empty list and a new slab. -/
def mallocMoves (t : Tid) : List (Move Tid) :=
  callMoves t (.malloc maxSmallSize) 9

/-- Thread 0 gets a block from each of three slabs and gives back the first two; after its flush their slabs are
wholly free. -/
def threeSlabsMoves : List (Move (Fin 2)) :=
  callMoves 0 (.malloc 4096) 9 ++ callMoves 0 (.malloc 3072) 9 ++ callMoves 0 (.malloc 2048) 9 ++
    callMoves 0 (.free (some 66320)) 4 ++ callMoves 0 (.free (some 133120)) 2 ++ callMoves 0 .threadFlush 19

/-- The second unmap fails. -/
def secondUnmapFails : World :=
  bumpWorld fun n => if n = 1 then some .EINVAL else none

/-- Nobody is in a call, a block is live, and a trim by thread 1 releases one slab and fails to release another one. -/
def showsThreeSlabs (k : Config (Fin 2)) : Bool :=
  decide (∀ t, k.pc t = .idle) && k.live.length == 1 &&
    (trimQuiescent .cached secondUnmapFails k.state 1).any fun result =>
      result.2 == 65536 && result.1.unmapCalls.length == k.state.unmapCalls.length + 2

theorem exists_threeSlabs : ∃ k, (machine (Fin 2) .cached secondUnmapFails).Reachable k ∧ k.Quiescent ∧
    k.live.length = 1 ∧ ∀ s released, trimQuiescent .cached secondUnmapFails k.state 1 = some (s, released) →
      released = 65536 ∧ s.unmapCalls.length = k.state.unmapCalls.length + 2 := by
  obtain ⟨k, hreach, hcheck⟩ := exists_makeMoves .cached secondUnmapFails threeSlabsMoves showsThreeSlabs
    (by decide +kernel)
  simp only [showsThreeSlabs, Bool.and_eq_true, decide_eq_true_eq, beq_iff_eq] at hcheck
  refine ⟨k, hreach, hcheck.1.1, hcheck.1.2, fun s released htrim => ?_⟩
  have hresult := hcheck.2
  rw [htrim, Option.any_some, Bool.and_eq_true, beq_iff_eq, beq_iff_eq] at hresult
  exact hresult

end Hplf
