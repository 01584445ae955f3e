import HplfMalloc.Proof.AtomicActions

/-!
# Progress of the lock-free publish

A compare-exchange that does not fail spuriously fails because the head is not what the call last observed,
so another thread has changed the head since. The failing attempt observes the new value, and the next
failure needs another change: each failure of a call is charged to an update of its own.
-/

namespace Hplf.TransferAtomic

open Lib

variable {Tid : Type} [DecidableEq Tid]

/-- A failed compare-exchange of thread `t`. -/
def Event.isFailureOf (t : Tid) : Event Tid → Bool
  | .failed u _ _ => u = t
  | _ => false

def Event.isSpurious : Event Tid → Bool
  | .failed _ _ spurious => spurious
  | _ => false

/-- A value-changing update of the head of class `c` by a thread other than `t`. -/
def Event.isUpdate (t : Tid) (c : ClassIndex) : Event Tid → Bool
  | .published u e _ => u ≠ t ∧ e = c
  | .detached u e nonempty => u ≠ t ∧ e = c ∧ nonempty
  | _ => false

/-- An attempt of thread `t` to publish to class `c`. -/
def Event.IsAttempt (t : Tid) (c : ClassIndex) (e : Event Tid) : Prop :=
  (∃ spurious, e = .failed t c spurious) ∨ ∃ list, e = .published t c list

/-- The number of failed compare-exchanges of thread `t`. -/
def failures (t : Tid) (es : List (Event Tid)) : Nat := es.countP (Event.isFailureOf t)

/-- The number of updates of the head of class `c` by threads other than `t`. -/
def updates (t : Tid) (c : ClassIndex) (es : List (Event Tid)) : Nat :=
  es.countP (Event.isUpdate t c)

variable {k k' : Config Tid} {t u : Tid} {c : ClassIndex} {e : Event Tid} {es : List (Event Tid)}

theorem failures_append (t : Tid) (es : List (Event Tid)) (e : Event Tid) :
    failures t (es ++ [e]) = failures t es + if e.isFailureOf t then 1 else 0 := by
  simp [failures, List.countP_append, List.countP_singleton]

theorem updates_append (t : Tid) (c : ClassIndex) (es : List (Event Tid)) (e : Event Tid) :
    updates t c (es ++ [e]) = updates t c es + if e.isUpdate t c then 1 else 0 := by
  simp [updates, List.countP_append, List.countP_singleton]

theorem Event.isFailureOf_of_actor_ne (hactor : e.actor ≠ t) : e.isFailureOf t = false := by
  cases e with
  | failed u c spurious => exact decide_eq_false hactor
  | _ => rfl

/-- An action of another thread leaves the head unless it is an update. -/
theorem Action.heads_other (haction : Action k u e k') (hne : t ≠ u) :
    e.actor = u ∧ (k'.state.sharedHeads c = k.state.sharedHeads c ∨ e.isUpdate t c = true) := by
  cases haction with
  | @published d list observed hpc hhead =>
      refine ⟨rfl, ?_⟩
      by_cases hd : d = c
      · exact Or.inr (by simp [Event.isUpdate, hd, hne.symm])
      · exact Or.inl (Function.update_of_ne (Ne.symm hd) _ _)
  | @exchanged d hpc =>
      refine ⟨rfl, ?_⟩
      by_cases hd : d = c
      · subst hd
        cases hfirst : k.state.sharedHeads d with
        | none => exact Or.inl (by simp [Config.goto])
        | some first => exact Or.inr (by simp [Event.isUpdate, hne.symm])
      · exact Or.inl (Function.update_of_ne (Ne.symm hd) _ _)
  | _ => exact ⟨rfl, Or.inl rfl⟩

/-- A publish of class `c` is under way, and its failures so far are paid for. A head that differs from
the observed one is an update no failure was charged to yet. -/
structure Charged (k : Config Tid) (t : Tid) (c : ClassIndex) (es : List (Event Tid)) : Prop where
  intro ::
  charged : ∃ list observed,
    (k.pc t = .link c list observed ∨ k.pc t = .compareExchange c list observed) ∧
      failures t es + (if k.state.sharedHeads c = observed then 0 else 1) ≤ updates t c es

/-- What another thread does can only add to the updates. -/
theorem Charged.other (hcharged : Charged k t c es) (hactor : e.actor ≠ t) (hpc : k'.pc t = k.pc t)
    (hheads : k'.state.sharedHeads c = k.state.sharedHeads c ∨ e.isUpdate t c = true) :
    Charged k' t c (es ++ [e]) := by
  obtain ⟨list, observed, hat, hle⟩ := hcharged
  refine ⟨list, observed, by rwa [hpc], ?_⟩
  have hfailure := Event.isFailureOf_of_actor_ne hactor
  rw [failures_append, updates_append, if_neg (by simp [hfailure])]
  rcases hheads with hsame | hupdate
  · rw [hsame]
    omega
  · rw [if_pos hupdate]
    split <;> omega

/-- **One step.** -/
theorem Charged.step (hcharged : Charged k t c es) (hstep : Step k e k') (hspurious : e.isSpurious = false)
    (hsame : ∀ list, e ≠ .published t c list) : Charged k' t c (es ++ [e]) := by
  obtain ⟨list, observed, hat, hle⟩ := hcharged
  have hbusy : k.pc t ≠ .idle := by
    rcases hat with hat | hat <;> simp [hat]
  have hother : ∀ u, k.pc u = .idle → t ≠ u := fun u hidle heq => hbusy (heq ▸ hidle)
  cases hstep with
  | relink hidle hown hwrite =>
      exact Charged.other ⟨list, observed, hat, hle⟩ (hother _ hidle).symm rfl (Or.inl rfl)
  | callPublish hidle hlist =>
      have hne := hother _ hidle
      exact Charged.other ⟨list, observed, hat, hle⟩ hne.symm (Config.goto_pc_of_ne hne _ _) (Or.inl rfl)
  | callDetach hidle =>
      have hne := hother _ hidle
      exact Charged.other ⟨list, observed, hat, hle⟩ hne.symm (Config.goto_pc_of_ne hne _ _) (Or.inl rfl)
  | @act _ u _ _ hact =>
      have haction := action_of_act hact
      by_cases hu : t = u
      · subst hu
        cases haction with
        | @linked _ list' observed' last m hpc hlast hwrite =>
            -- The tail link is private: neither the head nor the counts change.
            have hlink : k.pc t = .link c list observed := by
              rcases hat with hat | hat
              · exact hat
              · rw [hpc] at hat
                cases hat
            obtain ⟨rfl, rfl, rfl⟩ := Pc.link.inj (hpc.symm.trans hlink)
            refine ⟨_, _, Or.inr (Config.goto_pc _ _ _ _), ?_⟩
            rw [failures_append, updates_append]
            exact hle
        | @failed _ list' observed' hpc =>
            have hattempt : k.pc t = .compareExchange c list observed := by
              rcases hat with hat | hat
              · rw [hpc] at hat
                cases hat
              · exact hat
            obtain ⟨rfl, rfl, rfl⟩ := Pc.compareExchange.inj (hpc.symm.trans hattempt)
            -- The head has moved since it was observed, and the call has now seen where to.
            have hmoved := of_decide_eq_false hspurious
            refine ⟨_, _, Or.inl (Config.goto_pc _ _ _ _), ?_⟩
            rw [failures_append, updates_append, if_pos (by simp [Event.isFailureOf])]
            rw [if_neg hmoved] at hle
            simpa [Config.goto, Event.isUpdate] using hle
        | published hpc _ =>
            rcases hat with hat | hat
            · rw [hpc] at hat
              cases hat
            · obtain ⟨rfl, rfl, rfl⟩ := Pc.compareExchange.inj (hpc.symm.trans hat)
              exact absurd rfl (hsame _)
        | loaded hpc | exchanged hpc | read hpc _ | returned hpc =>
            rcases hat with hat | hat <;> rw [hpc] at hat <;> cases hat
      · obtain ⟨hactor, hheads⟩ := haction.heads_other (c := c) hu
        refine Charged.other ⟨list, observed, hat, hle⟩ ?_ (haction.pc_of_ne hu) hheads
        rw [hactor]
        exact Ne.symm hu

/-- **Whole runs.** -/
theorem Charged.run {before : List (Event Tid)} (hcharged : Charged k t c before)
    (hrun : (history Tid).Run k es k') (hspurious : ∀ e ∈ es, e.isSpurious = false)
    (hsame : ∀ list, Event.published t c list ∉ es) : Charged k' t c (before ++ es) := by
  induction hrun with
  | refl => rwa [List.append_nil]
  | internal _ hstep _ =>
      obtain ⟨event, hnone, -⟩ := hstep
      cases hnone
  | @observe trace y z e _ hstep ih =>
      obtain ⟨event, hevent, hstep⟩ := hstep
      obtain rfl := Option.some.inj hevent
      have hbefore := ih (fun e he => hspurious e (List.mem_append_left _ he))
        fun list hlist => hsame list (List.mem_append_left _ hlist)
      rw [← List.append_assoc]
      refine hbefore.step hstep (hspurious e (by simp)) fun list heq => hsame list ?_
      rw [← heq]
      simp

theorem charged_of_load (hload : Step k (.load t c) k') : Charged k' t c [] := by
  cases hload with
  | act hact =>
      cases action_of_act hact with
      | loaded hpc =>
          refine ⟨_, _, Or.inl (Config.goto_pc _ _ _ _), ?_⟩
          simp [failures, Config.goto]

/-- **Progress.** From the load of a publish of thread `t` to any attempt of that call, in a run without
spurious failures, the failed attempts are at most as many as the updates of the head by other threads in
between; without such updates that attempt is the first one, and it succeeds. -/
theorem publish_progress {k₀ k₁ k₂ k₃ : Config Tid} {t : Tid} {c : ClassIndex}
    {es : List (Event Tid)} {e : Event Tid} (hload : Step k₀ (.load t c) k₁)
    (hrun : (history Tid).Run k₁ es k₂) (hcall : ∀ list, Event.published t c list ∉ es)
    (hstep : Step k₂ e k₃) (hattempt : e.IsAttempt t c)
    (hspurious : ∀ e' ∈ es ++ [e], e'.isSpurious = false) :
    failures t (es ++ [e]) ≤ updates t c es ∧
      (updates t c es = 0 → failures t es = 0 ∧ ∃ list, e = .published t c list) := by
  have hcharged : Charged k₂ t c es :=
    (charged_of_load hload).run hrun (fun e' he' => hspurious e' (List.mem_append_left _ he')) hcall
  have hbound : failures t (es ++ [e]) ≤ updates t c es := by
    rcases hattempt with ⟨spurious, rfl⟩ | ⟨list, rfl⟩
    · have hnext := hcharged.step hstep (hspurious _ (by simp)) fun list => by simp
      obtain ⟨_, _, -, hle⟩ := hnext
      have hnot : (Event.failed t c spurious).isUpdate t c = false := rfl
      rw [updates_append, hnot] at hle
      exact (Nat.le_add_right _ _).trans hle
    · obtain ⟨_, _, -, hle⟩ := hcharged
      have hnot : (Event.published t c list).isFailureOf t = false := rfl
      rw [failures_append, hnot]
      exact (Nat.le_add_right _ _).trans hle
  refine ⟨hbound, fun hnone => ?_⟩
  rw [hnone, failures_append] at hbound
  refine ⟨by omega, ?_⟩
  rcases hattempt with ⟨spurious, rfl⟩ | hpublished
  · simp [Event.isFailureOf] at hbound
  · exact hpublished

/-! ### A contended publish -/

/-- The threads of the schedule act one after another, without spurious failures. -/
def actAll : List Tid → Config Tid → Option (List (Event Tid) × Config Tid)
  | [], k => some ([], k)
  | t :: rest, k => do
      let (e, k) ← act k t false
      let (es, k) ← actAll rest k
      some (e :: es, k)

theorem Run.cons {k₁ k₂ k₃ : Config Tid} (hstep : Step k₁ e k₂)
    (hrun : (history Tid).Run k₂ es k₃) : (history Tid).Run k₁ (e :: es) k₃ := by
  induction hrun with
  | refl =>
      have hempty : (history Tid).Run k₁ [] k₁ := .refl
      exact hempty.observe ⟨e, rfl, hstep⟩
  | internal _ hlast ih => exact ih.internal hlast
  | observe _ hlast ih => exact ih.observe hlast

theorem run_of_actAll {schedule : List Tid} (hacts : actAll schedule k = some (es, k')) :
    (history Tid).Run k es k' := by
  induction schedule generalizing k es with
  | nil =>
      obtain ⟨rfl, rfl⟩ := Prod.mk.inj (Option.some.inj hacts)
      exact .refl
  | cons t rest ih =>
      obtain ⟨⟨e, k₁⟩, hact, h⟩ := Option.bind_eq_some_iff.mp hacts
      obtain ⟨⟨es', k₂⟩, hrest, h⟩ := Option.bind_eq_some_iff.mp h
      obtain ⟨rfl, rfl⟩ := Prod.mk.inj (Option.some.inj h)
      exact Run.cons (.act hact) (ih hrest)

/-- Both threads are about to publish their block. -/
def contended : Config (Fin 2) :=
  { twoOwners with
    pc := fun t => .load firstClass (if t = 0 then single 4096 else single 8192) }

/-- Thread 1 publishes between the load and the compare-exchange of thread 0, whose first attempt fails. -/
theorem publish_progress_contended : ∃ k₁ k₂ k₃ es,
    Step contended (.load 0 firstClass) k₁ ∧ (history (Fin 2)).Run k₁ es k₂ ∧
      Step k₂ (.failed 0 firstClass false) k₃ ∧
      failures 0 (es ++ [.failed 0 firstClass false]) = 1 ∧
      failures 0 (es ++ [.failed 0 firstClass false]) ≤ updates 0 firstClass es := by
  have hacts : ∃ k₁ k₂ k₃, act contended 0 false = some (.load 0 firstClass, k₁) ∧
      actAll [1, 1, 1, 0] k₁ = some ([.load 1 firstClass, .link 1 8192,
        .published 1 firstClass (single 8192), .link 0 4096], k₂) ∧
      act k₂ 0 false = some (.failed 0 firstClass false, k₃) := ⟨_, _, _, rfl, rfl, rfl⟩
  obtain ⟨k₁, k₂, k₃, hload, hes, hfailed⟩ := hacts
  refine ⟨k₁, k₂, k₃, _, .act hload, run_of_actAll hes, .act hfailed, by decide, ?_⟩
  refine (publish_progress (.act hload) (run_of_actAll hes) ?_ (.act hfailed) (Or.inl ⟨false, rfl⟩)
    ?_).1
  · simp
  · decide

end Hplf.TransferAtomic
