import Mathlib.Algebra.GroupWithZero.Nat
import Mathlib.Logic.Relation
import Mathlib.Data.List.Basic
import Mathlib.Tactic.Common

/-!
# Transition systems

A system has initial states and labelled steps. Runs are finite sequences of steps; `Reachable` forgets
the labels. An invariant is proved by its initial case and its step case, and a simulation of one system
by another carries every run of the first to a run of the second with the same observable labels.
-/

namespace Lib

/-- The literals of `Fin 2`, in which runs of two threads are written. -/
instance neZeroTwo : NeZero 2 := ⟨Nat.succ_ne_zero 1⟩

/-- Initial states and labelled steps; a label `none` marks a step nobody observes. -/
structure System (σ ε : Type*) where
  init : σ → Prop
  step : σ → Option ε → σ → Prop

namespace System

variable {σ τ ε : Type*}

/-- A run from `x` to `y`, with the observed labels in order. -/
inductive Run (S : System σ ε) (x : σ) : List ε → σ → Prop
  | refl : Run S x [] x
  | internal {trace : List ε} {y z : σ} : Run S x trace y → S.step y none z → Run S x trace z
  | observe {trace : List ε} {y z : σ} {e : ε} :
      Run S x trace y → S.step y (some e) z → Run S x (trace ++ [e]) z

/-- Some run from an initial state arrives at `y`. -/
def Reachable (S : System σ ε) (y : σ) : Prop :=
  ∃ x trace, S.init x ∧ S.Run x trace y

theorem Reachable.init {S : System σ ε} {x : σ} (hinit : S.init x) : S.Reachable x :=
  ⟨x, [], hinit, .refl⟩

theorem Reachable.step {S : System σ ε} {x y : σ} {e : Option ε} (hreach : S.Reachable x)
    (hstep : S.step x e y) : S.Reachable y := by
  obtain ⟨start, trace, hinit, hrun⟩ := hreach
  cases e with
  | none => exact ⟨start, trace, hinit, hrun.internal hstep⟩
  | some e => exact ⟨start, trace ++ [e], hinit, hrun.observe hstep⟩

theorem Run.trans {S : System σ ε} {x y z : σ} {trace trace' : List ε} (hfirst : S.Run x trace y)
    (hsecond : S.Run y trace' z) : S.Run x (trace ++ trace') z := by
  induction hsecond with
  | refl => rwa [List.append_nil]
  | internal _ hlast ih => exact ih.internal hlast
  | observe _ hlast ih =>
      rw [← List.append_assoc]
      exact ih.observe hlast

/-- A property kept by every step is kept by every run. -/
theorem Run.preserves {S : System σ ε} {I : σ → Prop} (hstep : ∀ x e y, I x → S.step x e y → I y)
    {x y : σ} {trace : List ε} (hrun : S.Run x trace y) (hx : I x) : I y := by
  induction hrun with
  | refl => exact hx
  | internal _ hlast ih => exact hstep _ _ _ ih hlast
  | observe _ hlast ih => exact hstep _ _ _ ih hlast

/-- **Invariance.** What holds initially and is kept by every step holds in every reachable state. -/
theorem Reachable.invariant {S : System σ ε} {I : σ → Prop} (hinit : ∀ x, S.init x → I x)
    (hstep : ∀ x e y, I x → S.step x e y → I y) {y : σ} (hreach : S.Reachable y) : I y := by
  obtain ⟨x, trace, hx, hrun⟩ := hreach
  exact hrun.preserves hstep (hinit x hx)

/-- A simulation relation: initial states are matched, an internal step is matched by doing nothing,
and an observed step by a step with the same label. -/
structure Simulation (S : System σ ε) (T : System τ ε) (R : σ → τ → Prop) : Prop where
  init : ∀ x, S.init x → ∃ u, T.init u ∧ R x u
  internal : ∀ x y u, R x u → S.step x none y → R y u
  observe : ∀ x y u e, R x u → S.step x (some e) y → ∃ v, T.step u (some e) v ∧ R y v

/-- **Simulation.** Every run is matched by a run of the simulating system with the same trace. -/
theorem Simulation.run {S : System σ ε} {T : System τ ε} {R : σ → τ → Prop}
    (hsim : Simulation S T R) {x y : σ} {u : τ} {trace : List ε} (hrun : S.Run x trace y)
    (hR : R x u) : ∃ v, T.Run u trace v ∧ R y v := by
  induction hrun with
  | refl => exact ⟨u, .refl, hR⟩
  | internal _ hstep ih =>
      obtain ⟨v, hv, hRv⟩ := ih
      exact ⟨v, hv, hsim.internal _ _ v hRv hstep⟩
  | observe _ hstep ih =>
      obtain ⟨v, hv, hRv⟩ := ih
      obtain ⟨v', hv', hRv'⟩ := hsim.observe _ _ v _ hRv hstep
      exact ⟨v', hv.observe hv', hRv'⟩

/-! ### Weak simulation -/

/-- A weak simulation: a step may be matched by any number of steps that are observed alike. -/
structure WeakSimulation (S : System σ ε) (T : System τ ε) (R : σ → τ → Prop) : Prop where
  init : ∀ x, S.init x → ∃ u, T.init u ∧ R x u
  internal : ∀ x y u, R x u → S.step x none y → ∃ v, T.Run u [] v ∧ R y v
  observe : ∀ x y u e, R x u → S.step x (some e) y → ∃ v, T.Run u [e] v ∧ R y v

theorem WeakSimulation.run {S : System σ ε} {T : System τ ε} {R : σ → τ → Prop}
    (hsim : WeakSimulation S T R) {x y : σ} {u : τ} {trace : List ε} (hrun : S.Run x trace y)
    (hR : R x u) : ∃ v, T.Run u trace v ∧ R y v := by
  induction hrun with
  | refl => exact ⟨u, .refl, hR⟩
  | internal _ hstep ih =>
      obtain ⟨v, hv, hRv⟩ := ih
      obtain ⟨v', hv', hRv'⟩ := hsim.internal _ _ v hRv hstep
      refine ⟨v', ?_, hRv'⟩
      have hboth := hv.trans hv'
      rwa [List.append_nil] at hboth
  | observe _ hstep ih =>
      obtain ⟨v, hv, hRv⟩ := ih
      obtain ⟨v', hv', hRv'⟩ := hsim.observe _ _ v _ hRv hstep
      exact ⟨v', hv.trans hv', hRv'⟩

/-- What can be observed of a run from an initial state. -/
def Trace (S : System σ ε) (trace : List ε) : Prop := ∃ x y, S.init x ∧ S.Run x trace y

theorem WeakSimulation.trace {S : System σ ε} {T : System τ ε} {R : σ → τ → Prop}
    (hsim : WeakSimulation S T R) {trace : List ε} (htrace : S.Trace trace) : T.Trace trace := by
  obtain ⟨x, y, hinit, hrun⟩ := htrace
  obtain ⟨u, hu, hR⟩ := hsim.init x hinit
  obtain ⟨v, hv, -⟩ := hsim.run hrun hR
  exact ⟨u, v, hu, hv⟩

/-! ### Runs by instructions -/

section Instructions

variable {ι : Type*} {S : System σ ε} {next : σ → ι → Option (Option ε × σ)}

/-- What a list of instructions leads to, with the labels of the steps; `next` carries one of them out. -/
def follow (next : σ → ι → Option (Option ε × σ)) : σ → List ι → Option (List ε × σ)
  | x, [] => some ([], x)
  | x, i :: instructions =>
      match next x i with
      | none => none
      | some (e, y) => (follow next y instructions).map fun (trace, z) => (e.toList ++ trace, z)

theorem follow_run (hnext : ∀ x i e y, next x i = some (e, y) → S.step x e y) (instructions : List ι) {x y : σ}
    {trace : List ε} (hfollow : follow next x instructions = some (trace, y)) : S.Run x trace y := by
  induction instructions generalizing x trace with
  | nil =>
      cases Option.some.inj hfollow
      exact .refl
  | cons i instructions ih =>
      rw [follow] at hfollow
      split at hfollow
      · cases hfollow
      next e x' hfirst =>
        obtain ⟨⟨later, z⟩, hlater, hsame⟩ := Option.map_eq_some_iff.mp hfollow
        cases hsame
        have hstep := hnext x i e x' hfirst
        cases e with
        | none => exact (Run.refl.internal hstep).trans (ih hlater)
        | some e => exact (Run.refl.observe hstep).trans (ih hlater)

/-- A property checked on what the instructions lead to holds of a run and its end. -/
theorem exists_run (hnext : ∀ x i e y, next x i = some (e, y) → S.step x e y) (x : σ) (instructions : List ι)
    (P : List ε → σ → Bool) (hcheck : (follow next x instructions).any (fun run => P run.1 run.2) = true) :
    ∃ trace y, S.Run x trace y ∧ P trace y = true := by
  obtain ⟨⟨trace, y⟩, hfollow, hy⟩ := (Option.any_eq_true _ _).mp hcheck
  exact ⟨trace, y, follow_run hnext instructions hfollow, hy⟩

end Instructions

end System

end Lib
