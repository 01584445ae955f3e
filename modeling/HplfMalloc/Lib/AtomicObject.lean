import HplfMalloc.Lib.Transition
import Mathlib.Logic.Function.Basic

/-!
# Atomic objects

An object has calls, each with one effect, and accesses that are made without a call. Served atomically, a
call takes effect at one moment between its invocation and its response, and an access when it is observed.
A system is linearizable if it cannot be told from the object served atomically.
-/

namespace Lib

variable {Tid σ τ Call Result Access : Type*}

structure Object (σ Call Result Access : Type*) where
  init : σ → Prop
  effect : σ → Call → Result → σ → Prop
  access : σ → Access → σ → Prop

/-- What an observer sees of the threads that use an object. -/
inductive Event (Tid Call Result Access : Type*)
  | invoke (t : Tid) (call : Call)
  | respond (t : Tid) (result : Result)
  | access (a : Access)

inductive Activity (Call Result : Type*)
  | idle
  /-- The call has not taken effect yet. -/
  | pending (call : Call)
  /-- The call has taken effect and will return this result. -/
  | answered (result : Result)

/-- The state of an object, and how far each thread is with its call. -/
structure Service (Tid σ Call Result : Type*) where
  state : σ
  activity : Tid → Activity Call Result

namespace Object

variable [DecidableEq Tid]

inductive Step (O : Object σ Call Result Access) : Service Tid σ Call Result →
    Option (Event Tid Call Result Access) → Service Tid σ Call Result → Prop
  | invoke {x : Service Tid σ Call Result} {t : Tid} {call : Call} (hidle : x.activity t = .idle) :
      Step O x (some (.invoke t call)) { x with activity := Function.update x.activity t (.pending call) }
  | effect {x : Service Tid σ Call Result} {t : Tid} {call : Call} {result : Result} {s : σ}
      (hpending : x.activity t = .pending call) (heffect : O.effect x.state call result s) :
      Step O x none ⟨s, Function.update x.activity t (.answered result)⟩
  | respond {x : Service Tid σ Call Result} {t : Tid} {result : Result}
      (hanswered : x.activity t = .answered result) :
      Step O x (some (.respond t result)) { x with activity := Function.update x.activity t .idle }
  | access {x : Service Tid σ Call Result} {a : Access} {s : σ} (haccess : O.access x.state a s) :
      Step O x (some (.access a)) { x with state := s }

/-- The object served atomically. -/
def atomic (O : Object σ Call Result Access) (Tid : Type*) [DecidableEq Tid] :
    System (Service Tid σ Call Result) (Event Tid Call Result Access) where
  init x := O.init x.state ∧ ∀ t, x.activity t = .idle
  step := O.Step

variable {O : Object σ Call Result Access} {x : Service Tid σ Call Result} {t : Tid} {call : Call}
variable {result : Result} {s : σ}

theorem run_invoke (hidle : x.activity t = .idle) : (O.atomic Tid).Run x [.invoke t call]
    { x with activity := Function.update x.activity t (.pending call) } :=
  System.Run.refl.observe (.invoke hidle)

theorem run_effect (hpending : x.activity t = .pending call) (heffect : O.effect x.state call result s) :
    (O.atomic Tid).Run x [] ⟨s, Function.update x.activity t (.answered result)⟩ :=
  System.Run.refl.internal (.effect hpending heffect)

/-- A call that takes effect as soon as it is invoked. -/
theorem run_invoke_effect (hidle : x.activity t = .idle) (heffect : O.effect x.state call result s) :
    (O.atomic Tid).Run x [.invoke t call] ⟨s, Function.update x.activity t (.answered result)⟩ := by
  have hinvoke : (O.atomic Tid).Run x [.invoke t call] _ := run_invoke hidle
  have hrun := hinvoke.trans (run_effect (Function.update_self _ _ _) heffect)
  rwa [Function.update_idem, List.append_nil] at hrun

theorem run_respond (hanswered : x.activity t = .answered result) : (O.atomic Tid).Run x [.respond t result]
    { x with activity := Function.update x.activity t .idle } :=
  System.Run.refl.observe (.respond hanswered)

theorem run_access {a : Access} (haccess : O.access x.state a s) :
    (O.atomic Tid).Run x [.access a] { x with state := s } :=
  System.Run.refl.observe (.access haccess)

end Object

/-- Everything that can be observed of the system can be observed of the object served atomically. -/
def Linearizable [DecidableEq Tid] (S : System τ (Event Tid Call Result Access))
    (O : Object σ Call Result Access) : Prop :=
  ∀ trace, S.Trace trace → (O.atomic Tid).Trace trace

end Lib
