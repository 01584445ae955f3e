import HplfMalloc.Proof.CallRank
import HplfMalloc.Schedule

/-!
# Calls return

A call takes at most a fixed number of actions of its own, whatever all other threads do meanwhile. The
only thing it ever waits for is the registry mutex, and the thread that holds it leaves within three
actions. A run in which no call starts therefore comes to an end, with every call returned.
-/

namespace Hplf

open Lib
open scoped BigOperators

variable {Tid : Type} [DecidableEq Tid]

/-- Thread `t` takes its next action. -/
def Acts (v : Variant) (w : World) (t : Tid) (k k' : Config Tid) : Prop := advance v w k t = some k'

/-- Anything happens that leaves thread `t` where it is in its call. -/
def StandsBy (v : Variant) (w : World) (t : Tid) (k k' : Config Tid) : Prop :=
  (∃ e, Step v w k e k') ∧ k'.pc t = k.pc t

/-- Anything happens that leaves every thread where it is. -/
def AllStandBy (v : Variant) (w : World) (k k' : Config Tid) : Prop :=
  (∃ e, Step v w k e k') ∧ k'.pc = k.pc

structure CallsReturn (v : Variant) (w : World) (k : Config Tid) : Prop where
  /-- A call takes at most its budget of actions, and has returned when it has taken them. -/
  bounded : ∀ t call s pc, k.pc t = .idle → k.Allowed call → enter v k.state t call = some (s, pc) →
    ∀ n k', Stretch (Acts v w t) (StandsBy v w t)
        { k.goto t s pc with lastCall := Function.update k.lastCall t (some call) } n k' →
      n ≤ call.budget ∧ (n = call.budget → k'.pc t = .idle)
  /-- A thread inside a call can act, unless another one holds the mutex it waits for and can act. -/
  waits : ∀ t, k.pc t ≠ .idle → (∃ k', Acts v w t k k') ∨
    ∃ u, u ≠ t ∧ k.registryOwner = some u ∧ ∃ k', Acts v w u k k'
  /-- With its third action the owner of the registry has released it. -/
  releases : ∀ u, k.registryOwner = some u → ∀ n k', Stretch (Acts v w u) (StandsBy v w u) k n k' →
    k'.registryOwner = some u → n ≤ 2
  /-- While no call starts that has anything to do, the threads take finitely many actions, and stop only
  between calls. -/
  settles : ∃ busy : Finset Tid, (∀ t, t ∈ busy ↔ k.pc t ≠ .idle) ∧
    ∀ n k', Stretch (fun k k' => ∃ t, Acts v w t k k') (AllStandBy v w) k n k' →
      n ≤ 34 * busy.card ∧ ((∀ t, advance v w k' t = none) → k'.Quiescent)

variable {v : Variant} {w : World} {k k' : Config Tid} {t : Tid} {e : Option (Tid × Option Call)}

/-! ### The start of a call -/

theorem length_classIndices : classIndices.length = 16 := List.length_finRange

theorem enterMalloc_remaining (s : State Tid) (t : Tid) (r : Request) (n : ClassIndex → Nat) :
    (enterMalloc s t r).2.remaining n ≤ r.afterwards + 9 := by
  unfold enterMalloc
  split
  · exact Nat.zero_le _
  split
  · exact Nat.zero_le _
  split
  · exact Nat.le_refl _
  · simp only [Pc.remaining]
    omega

theorem enter_remaining {s s' : State Tid} {call : Call} {pc : Pc}
    (henter : enter v s t call = some (s', pc)) (n : ClassIndex → Nat) : pc.remaining n ≤ call.budget := by
  have hmalloc : ∀ r, some (enterMalloc s t r) = some (s', pc) → pc.remaining n ≤ r.afterwards + 9 := by
    intro r h
    have hle := enterMalloc_remaining s t r n
    rwa [Option.some.inj h] at hle
  cases call with
  | malloc size => exact hmalloc _ henter
  | calloc count size =>
      simp only [enter] at henter
      split at henter
      · obtain ⟨-, rfl⟩ := Prod.mk.inj (Option.some.inj henter)
        exact Nat.zero_le _
      split at henter
      · obtain ⟨-, rfl⟩ := Prod.mk.inj (Option.some.inj henter)
        exact Nat.zero_le _
      · exact hmalloc _ henter
  | realloc pointer size =>
      simp only [enter] at henter
      split at henter
      · exact (hmalloc _ henter).trans (Nat.add_le_add_right (Nat.zero_le 4) 9)
      split at henter
      · obtain ⟨-, rfl⟩ := Prod.mk.inj (Option.some.inj henter)
        simp only [Pc.remaining, Call.budget]
        omega
      split at henter
      · obtain ⟨-, rfl⟩ := Prod.mk.inj (Option.some.inj henter)
        exact Nat.zero_le _
      obtain ⟨header, -, h⟩ := Option.bind_eq_some_iff.mp henter
      obtain ⟨retain, -, h⟩ := Option.bind_eq_some_iff.mp h
      split at h
      · obtain ⟨s₁, -, h⟩ := Option.bind_eq_some_iff.mp h
        obtain ⟨-, rfl⟩ := Prod.mk.inj (Option.some.inj h)
        exact Nat.zero_le _
      · exact hmalloc _ h
  | free pointer =>
      simp only [enter] at henter
      split at henter
      all_goals obtain ⟨-, rfl⟩ := Prod.mk.inj (Option.some.inj henter)
      · exact Nat.zero_le _
      · exact Nat.le_refl _
  | threadFlush =>
      simp only [enter] at henter
      split at henter
      · obtain ⟨-, rfl⟩ := Prod.mk.inj (Option.some.inj henter)
        exact Nat.zero_le _
      split at henter
      all_goals obtain ⟨-, rfl⟩ := Prod.mk.inj (Option.some.inj henter)
      · exact Nat.zero_le _
      · simp [Pc.remaining, Call.budget, length_classIndices]
  | threadExit =>
      simp only [enter] at henter
      split at henter
      all_goals obtain ⟨-, rfl⟩ := Prod.mk.inj (Option.some.inj henter)
      · exact Nat.zero_le _
      · simp [Pc.remaining, Call.budget, length_classIndices]

theorem Pc.Starts.owes {pc : Pc} (hstarts : pc.Starts) (n : ClassIndex → Nat) : pc.Owes n := by
  cases hstarts <;> exact trivial

theorem Call.budget_le (call : Call) : call.budget ≤ 34 := by
  cases call <;> simp [Call.budget]

/-! ### Steps of other threads -/

theorem Transition.pc_ne (htransition : Transition v w k t k') : k'.pc t ≠ k.pc t := by
  cases htransition with
  | delivered hpc hdeliver =>
      cases deliverStep_of_deliver hdeliver with
      | malloc _ | calloc _ _ | realloc _ _ _ _ =>
          simp only [Config.goto_pc]
          simp [hpc]
  | released hpc hrelease =>
      cases releaseStep_of_release hrelease with
      | unmapped _ _ _ | leaked _ _ _ | locked _ _ _ _ _ | uncached _ _ _ _ _ _ | stored _ _ _ _ _ _ =>
          simp only [Config.goto_pc]
          simp [hpc]
  | @flushDone d teardown hpc =>
      rw [Config.goto_pc, hpc]
      cases teardown <;> simp
  | _ => simp_all

/-- A step that leaves a busy thread where it is leaves its cache alone. -/
theorem Inv.cached_standsBy {bases larges : List Nat} {g : Place Tid → List Nat}
    (hinv : Inv k bases larges g) (hstep : Step v w k e k') (hpc : k'.pc t = k.pc t)
    (hbusy : k.pc t ≠ .idle) : k'.cached t = k.cached t := by
  rw [hinv.cached_eq t]
  cases hstep with
  | @call u call s pc hidle hallowed henter =>
      obtain ⟨s', pc', henter', hinv'⟩ := hinv.enter v hidle hallowed
      obtain ⟨rfl, rfl⟩ := Prod.mk.inj (Option.some.inj (henter'.symm.trans henter))
      exact hinv'.cached_eq t
  | @advance _ u hadvance =>
      by_cases hu : t = u
      · subst hu
        exact absurd hpc (transition_of_advance hadvance).pc_ne
      · obtain ⟨bases', larges', g', hinv', hforeign⟩ := hinv.of_advance hadvance
        rw [hinv'.cached_eq t]
        ext c
        rw [hforeign (.cache t c) t rfl hu]
  | write hlive _ hheader hoffset hpayload =>
      exact (hinv.write hlive hheader hoffset hpayload _).cached_eq t
  | trim hquiescent _ => exact absurd (hquiescent t) hbusy

/-- What is known of every thread: where its call is, and how far it has to go at most. -/
structure OnCourse (k : Config Tid) : Prop where
  safe : Safe k
  owes : ∀ t, (k.pc t).Owes (k.cached t)
  within : ∀ t, k.remaining t ≤ 34

omit [DecidableEq Tid] in
theorem remaining_idle (hidle : k.pc t = .idle) : k.remaining t = 0 := by
  rw [Config.remaining, hidle, Pc.remaining]

/-- Others leave a call the actions it has left. -/
theorem OnCourse.standsBy (hcourse : OnCourse k) (hstep : Step v w k e k') (hpc : k'.pc t = k.pc t) :
    (k'.pc t).Owes (k'.cached t) ∧ k'.remaining t = k.remaining t := by
  by_cases hidle : k.pc t = .idle
  · rw [remaining_idle hidle, remaining_idle (hpc.trans hidle), hpc, hidle]
    exact ⟨trivial, rfl⟩
  · obtain ⟨bases, larges, g, hinv⟩ := hcourse.safe
    have hcached := hinv.cached_standsBy hstep hpc hidle
    rw [Config.remaining, Config.remaining, hpc, hcached]
    exact ⟨hcourse.owes t, rfl⟩

/-- An action of the thread itself takes one of them. -/
theorem OnCourse.acts (hcourse : OnCourse k) (hacts : Acts v w t k k') :
    (k'.pc t).Owes (k'.cached t) ∧ k'.remaining t < k.remaining t := by
  obtain ⟨bases, larges, g, hinv⟩ := hcourse.safe
  exact hinv.remaining_lt (hcourse.owes t) (transition_of_advance hacts)

/-- A call begins within its budget. -/
theorem begins_within {call : Call} {s : State Tid} {pc : Pc} (henter : enter v k.state t call = some (s, pc)) :
    (({ k.goto t s pc with lastCall := Function.update k.lastCall t (some call) } : Config Tid).pc t).Owes
        (({ k.goto t s pc with lastCall := Function.update k.lastCall t (some call) } : Config Tid).cached t) ∧
      ({ k.goto t s pc with lastCall := Function.update k.lastCall t (some call) } : Config Tid).remaining t
        ≤ call.budget := by
  rw [Config.remaining]
  simp only [Config.goto_pc]
  exact ⟨(enter_starts henter).owes _, enter_remaining henter _⟩

theorem OnCourse.step (hcourse : OnCourse k) (hstep : Step v w k e k') : OnCourse k' := by
  have hkept : ∀ t, (k'.pc t).Owes (k'.cached t) ∧ k'.remaining t ≤ 34 := by
    intro t
    by_cases hpc : k'.pc t = k.pc t
    · obtain ⟨howes, hremaining⟩ := hcourse.standsBy hstep hpc
      exact ⟨howes, hremaining ▸ hcourse.within t⟩
    -- Only a thread that begins a call or acts moves.
    cases id hstep with
    | @call u call s pc hidle hallowed henter =>
        by_cases hu : t = u
        · subst hu
          obtain ⟨howes, hbudget⟩ := begins_within henter
          exact ⟨howes, hbudget.trans call.budget_le⟩
        · exact absurd (Function.update_of_ne hu _ _) hpc
    | @advance _ u hadvance =>
        by_cases hu : t = u
        · subst hu
          obtain ⟨howes, hlt⟩ := hcourse.acts hadvance
          exact ⟨howes, hlt.le.trans (hcourse.within t)⟩
        · exact absurd ((transition_of_advance hadvance).pc_of_ne hu) hpc
    | write _ _ _ _ _ => exact absurd rfl hpc
    | trim _ _ => exact absurd rfl hpc
  exact ⟨hcourse.safe.step hstep, fun t => (hkept t).1, fun t => (hkept t).2⟩

theorem onCourse_of_reachable (hreach : (machine Tid v w).Reachable k) : OnCourse k := by
  refine hreach.invariant (I := OnCourse) ?_ fun _ _ _ hcourse hstep => hcourse.step hstep
  rintro k (rfl : k = Config.initial)
  exact ⟨⟨_, _, _, Inv.initial⟩, fun _ => trivial, fun _ => Nat.zero_le _⟩

omit [DecidableEq Tid] in
theorem idle_of_remaining (hzero : k.remaining t = 0) : k.pc t = .idle := by
  unfold Config.remaining at hzero
  cases hpc : k.pc t with
  | idle => rfl
  | evict c d e =>
      rw [hpc, Pc.remaining] at hzero
      split at hzero <;> simp at hzero
  | _ => simp [hpc, Pc.remaining] at hzero

/-- **One call.** The actions a thread takes without starting a call are no more than it has left. -/
theorem OnCourse.stretch (hcourse : OnCourse k) {n : Nat}
    (hstretch : Stretch (Acts v w t) (StandsBy v w t) k n k') : n + k'.remaining t ≤ k.remaining t := by
  refine hstretch.add_rank_le (I := OnCourse) (fun k => k.remaining t) ?_ ?_ hcourse
  · intro x y hx hacts
    exact ⟨hx.step (.advance hacts), (hx.acts hacts).2⟩
  · rintro x y hx ⟨⟨e, hstep⟩, hpc⟩
    exact ⟨hx.step hstep, (hx.standsBy hstep hpc).2.le⟩

/-! ### The registry section -/

/-- How far a call is from leaving the registry, if it has not left it. -/
def Pc.untilUnlocked : Pc → Nat
  | .allocateSmall _ _ _ => 6
  | .detach _ _ _ _ => 5
  | .lockRegistry _ _ _ _ => 4
  | .recheck _ _ _ _ => 3
  | .createSlab _ _ _ _ => 2
  | .unlockRegistry _ _ _ _ _ => 1
  | _ => 0

theorem Transition.untilUnlocked (htransition : Transition v w k t k') :
    (k'.pc t).untilUnlocked = 0 ∨ (k'.pc t).untilUnlocked < (k.pc t).untilUnlocked := by
  cases htransition with
  | delivered hpc hdeliver =>
      cases deliverStep_of_deliver hdeliver with
      | malloc _ | calloc _ _ | realloc _ _ _ _ =>
          simp only [Config.goto_pc]
          exact Or.inl rfl
  | released hpc hrelease =>
      cases releaseStep_of_release hrelease with
      | unmapped _ _ _ | leaked _ _ _ | locked _ _ _ _ _ | uncached _ _ _ _ _ _ | stored _ _ _ _ _ _ =>
          simp only [Config.goto_pc]
          exact Or.inl rfl
  | @flushDone d teardown hpc =>
      rw [Config.goto_pc]
      cases teardown <;> exact Or.inl rfl
  | _ => simp_all [Pc.untilUnlocked]

theorem Pc.InRegistry.untilUnlocked {pc : Pc} (hregistry : pc.InRegistry) :
    0 < pc.untilUnlocked ∧ pc.untilUnlocked ≤ 3 := by
  cases pc with
  | recheck | createSlab | unlockRegistry => simp [Pc.untilUnlocked]
  | _ => exact hregistry.elim

omit [DecidableEq Tid] in
theorem OnCourse.inRegistry_iff (hcourse : OnCourse k) : (k.pc t).InRegistry ↔ k.registryOwner = some t := by
  obtain ⟨bases, larges, g, hinv⟩ := hcourse.safe
  exact hinv.registry t

theorem OnCourse.releases (hcourse : OnCourse k) (howner : k.registryOwner = some t) {n : Nat}
    (hstretch : Stretch (Acts v w t) (StandsBy v w t) k n k') (howner' : k'.registryOwner = some t) :
    n ≤ 2 := by
  have hstart := (hcourse.inRegistry_iff.mpr howner).untilUnlocked
  have hcourse' : OnCourse k' := hstretch.preserves (I := OnCourse)
    (fun _ _ hx hacts => hx.step (.advance hacts)) (fun _ _ hx hstands => hx.step hstands.1.choose_spec) hcourse
  have hend := (hcourse'.inRegistry_iff.mpr howner').untilUnlocked
  have hway : (k'.pc t).untilUnlocked = 0 ∨ n + (k'.pc t).untilUnlocked ≤ 3 := by
    clear hend hcourse' howner'
    induction hstretch with
    | refl => exact Or.inr ((Nat.zero_add _).le.trans hstart.2)
    | own _ hacts ih =>
        rcases (transition_of_advance hacts).untilUnlocked with hzero | hlt
        · exact Or.inl hzero
        · exact ih.imp (fun hzero => by omega) fun hle => by omega
    | other _ hstands ih => rwa [hstands.2]
  omega

/-! ### Waiting -/

theorem OnCourse.waits (hcourse : OnCourse k) (v : Variant) (w : World) (hbusy : k.pc t ≠ .idle) :
    (∃ k', Acts v w t k k') ∨ ∃ u, u ≠ t ∧ k.registryOwner = some u ∧ ∃ k', Acts v w u k k' := by
  obtain ⟨bases, larges, g, hinv⟩ := hcourse.safe
  by_cases hwaits : k.Waits t
  · obtain ⟨⟨r, c, capacity, cache, hpc⟩, howner⟩ := hwaits.resolve_left hbusy
    obtain ⟨u, hu⟩ := Option.ne_none_iff_exists'.mp howner
    have hregistry := (hinv.registry u).mpr hu
    have hne : u ≠ t := by
      rintro rfl
      rw [hpc] at hregistry
      exact hregistry
    -- The owner is inside its section, where it waits for nothing.
    have hmoves : ¬ k.Waits u := by
      rintro (hidle | ⟨⟨r', c', capacity', cache', hpc'⟩, -⟩)
      · rw [hidle] at hregistry
        exact hregistry
      · rw [hpc'] at hregistry
        exact hregistry
    obtain ⟨k', hadvance, -⟩ := hinv.progresses v w u hmoves
    exact Or.inr ⟨u, hne, hu, k', hadvance⟩
  · obtain ⟨k', hadvance, -⟩ := hinv.progresses v w t hwaits
    exact Or.inl ⟨k', hadvance⟩

/-! ### A run in which no call starts -/

theorem finite_busy (hreach : (machine Tid v w).Reachable k) : {t | k.pc t ≠ .idle}.Finite := by
  refine hreach.invariant (I := fun k => {t | k.pc t ≠ .idle}.Finite) ?_ ?_
  · rintro k (rfl : k = Config.initial)
    simp [Config.initial]
  · intro k e k' hfinite hstep
    have hupdate : ∀ {t : Tid} {pc : Pc}, k'.pc = Function.update k.pc t pc →
        {u | k'.pc u ≠ .idle}.Finite := by
      intro t pc heq
      refine (hfinite.insert t).subset fun u hu => ?_
      by_cases hut : u = t
      · exact Or.inl hut
      · refine Or.inr ?_
        rw [Set.mem_ofPred_eq, heq, Function.update_of_ne hut] at hu
        exact hu
    cases hstep with
    | call _ _ _ => exact hupdate rfl
    | advance hadvance =>
        obtain ⟨s, pc, live, owner, leaked, rfl⟩ := (transition_of_advance hadvance).config_eq
        exact hupdate rfl
    | write _ _ _ _ _ => exact hfinite
    | trim _ _ => exact hfinite

theorem OnCourse.settles (hcourse : OnCourse k) {busy : Finset Tid}
    (hbusy : ∀ t, t ∈ busy ↔ k.pc t ≠ .idle) {n : Nat}
    (hstretch : Stretch (fun k k' => ∃ t, Acts v w t k k') (AllStandBy v w) k n k') :
    n ≤ 34 * busy.card ∧ ((∀ t, advance v w k' t = none) → k'.Quiescent) := by
  have hstart : OnCourse k ∧ ∀ t ∉ busy, k.pc t = .idle :=
    ⟨hcourse, fun t ht => not_not.mp fun h => ht ((hbusy t).mpr h)⟩
  have hacts : ∀ x y : Config Tid, (OnCourse x ∧ ∀ t ∉ busy, x.pc t = .idle) → (∃ t, Acts v w t x y) →
      (OnCourse y ∧ ∀ t ∉ busy, y.pc t = .idle) ∧
        ∑ t ∈ busy, y.remaining t < ∑ t ∈ busy, x.remaining t := by
    rintro x y ⟨hx, hidle⟩ ⟨t, hadvance⟩
    have ht : t ∈ busy := by
      by_contra hnot
      simp [Acts, advance, hidle t hnot] at hadvance
    have hother : ∀ u, u ≠ t → y.pc u = x.pc u := fun u hu =>
      (transition_of_advance hadvance).pc_of_ne hu
    refine ⟨⟨hx.step (.advance hadvance), fun u hu => ?_⟩, ?_⟩
    · rw [hother u (fun heq => hu (heq ▸ ht)), hidle u hu]
    · refine Finset.sum_lt_sum (fun u _ => ?_) ⟨t, ht, (hx.acts hadvance).2⟩
      by_cases hu : u = t
      · subst hu
        exact (hx.acts hadvance).2.le
      · exact (hx.standsBy (.advance hadvance) (hother u hu)).2.le
  have hstands : ∀ x y : Config Tid, (OnCourse x ∧ ∀ t ∉ busy, x.pc t = .idle) →
      AllStandBy v w x y →
      (OnCourse y ∧ ∀ t ∉ busy, y.pc t = .idle) ∧
        ∑ t ∈ busy, y.remaining t ≤ ∑ t ∈ busy, x.remaining t := by
    rintro x y ⟨hx, hidle⟩ ⟨⟨e, hstep⟩, hpc⟩
    refine ⟨⟨hx.step hstep, fun u hu => (congrFun hpc u).trans (hidle u hu)⟩, ?_⟩
    exact Finset.sum_le_sum fun u _ => (hx.standsBy hstep (congrFun hpc u)).2.le
  refine ⟨?_, fun hstuck t => ?_⟩
  · have hle := hstretch.add_rank_le (fun k => ∑ t ∈ busy, k.remaining t) hacts hstands hstart
    have hsum : ∑ t ∈ busy, k.remaining t ≤ busy.card * 34 :=
      Finset.sum_le_card_nsmul busy _ 34 fun t _ => hcourse.within t
    omega
  · have hkept := hstretch.preserves (I := OnCourse) 
      (fun _ _ hx hacts => hx.step (.advance hacts.choose_spec))
      (fun _ _ hx hstands => hx.step hstands.1.choose_spec) hcourse
    by_contra hbusy'
    rcases hkept.waits v w hbusy' with ⟨k'', hadvance⟩ | ⟨u, -, -, k'', hadvance⟩
    · simp [Acts, hstuck t] at hadvance
    · simp [Acts, hstuck u] at hadvance

/-- **Calls return.** In every reachable configuration of either build and for any behaviour of the
operating system: no call takes more actions of its own than its budget, however the other threads act in
between; a thread inside a call can act unless another one is in the registry section, which that one leaves
within three actions without waiting; and a run in which no call starts comes to an end with all calls
returned. -/
theorem calls_return (v : Variant) (w : World) (k : Config Tid) (hreach : (machine Tid v w).Reachable k) :
    CallsReturn v w k := by
  have hcourse := onCourse_of_reachable hreach
  refine ⟨fun t call s pc hidle hallowed henter n k' hstretch => ?_, fun t => hcourse.waits v w,
    fun u howner n k' hstretch => hcourse.releases howner hstretch, ?_⟩
  · have hbegun := hcourse.step (Step.call (w := w) hidle hallowed henter)
    have hle := hbegun.stretch hstretch
    have hbudget := (begins_within henter).2
    exact ⟨by omega, fun hn => idle_of_remaining (by omega)⟩
  · have hfinite := finite_busy hreach
    refine ⟨hfinite.toFinset, fun t => by simp, fun n k' => hcourse.settles fun t => by simp⟩

/-! ### A contended call -/

/-- The move is the next action of thread `t`. -/
def Move.isActionOf (t : Tid) : Move Tid → Bool
  | .call _ _ => false
  | .advance u => u == t

/-- The move is not a call of thread `t`. -/
def Move.startsNone (t : Tid) : Move Tid → Bool
  | .call u _ => u != t
  | .advance _ => true

theorem makeMove_standsBy [Fintype Tid] {m : Move Tid} (hmove : makeMove v w k m = some k')
    (hnone : m.startsNone t = true) (haction : m.isActionOf t = false) : StandsBy v w t k k' := by
  refine ⟨makeMove_step hmove, ?_⟩
  cases m with
  | call u call =>
      have hne : u ≠ t := bne_iff_ne.mp hnone
      rw [makeMove] at hmove
      split at hmove
      · obtain ⟨_, -, rfl⟩ := Option.map_eq_some_iff.mp hmove
        exact Function.update_of_ne hne.symm _ _
      · simp at hmove
  | advance u =>
      have hne : u ≠ t := beq_eq_false_iff_ne.mp haction
      exact (transition_of_advance hmove).pc_of_ne hne.symm

/-- Moves among which thread `t` calls nothing count its actions. -/
theorem stretch_of_makeMoves [Fintype Tid] {moves : List (Move Tid)} (hmoves : makeMoves v w moves k = some k')
    (hnone : ∀ m ∈ moves, m.startsNone t = true) :
    Stretch (Acts v w t) (StandsBy v w t) k (moves.countP (Move.isActionOf t)) k' := by
  induction moves generalizing k with
  | nil =>
      obtain rfl := Option.some.inj hmoves
      exact .refl
  | cons m rest ih =>
      obtain ⟨k₁, hfirst, hrest⟩ := Option.bind_eq_some_iff.mp hmoves
      have hlater := ih hrest fun m hm => hnone m (List.mem_cons_of_mem _ hm)
      rw [List.countP_cons, Nat.add_comm]
      by_cases haction : m.isActionOf t = true
      · rw [if_pos haction]
        cases m with
        | call _ _ => cases haction
        | advance u =>
            obtain rfl : u = t := beq_iff_eq.mp haction
            have hacts : Acts v w u k k₁ := hfirst
            exact (Stretch.refl.own hacts).trans hlater
      · rw [if_neg haction]
        have hstands := makeMove_standsBy hfirst (hnone m List.mem_cons_self) (eq_false_of_ne_true haction)
        exact (Stretch.refl.other hstands).trans hlater

/-- Thread 1 has called `hplf_malloc`. -/
def calledMoves : List (Move (Fin 2)) := callMoves 1 (.malloc 4096) 1

/-- Thread 0, which has called it too, takes the registry mutex, and thread 1 comes to wait for it. -/
def contendedMoves : List (Move (Fin 2)) :=
  [.advance 0, .advance 1, .advance 0, .advance 0]

/-- Thread 0 leaves the registry section; the mutex goes to thread 1 before its call ends. -/
def releasedMoves : List (Move (Fin 2)) :=
  List.replicate 3 (.advance 0) ++ [.advance 1] ++ List.replicate 3 (.advance 0)

/-- The configuration in which thread 0 has just called `hplf_malloc`. -/
def afterCall (k : Config (Fin 2)) (s : State (Fin 2)) (pc : Pc) : Config (Fin 2) :=
  { k.goto 0 s pc with lastCall := Function.update k.lastCall 0 (some (.malloc 4096)) }

def showsContention (k : Config (Fin 2)) : Bool :=
  k.pc 0 == .idle && (enter .cached k.state 0 (.malloc 4096)).any fun (s, pc) =>
    (makeMoves .cached (bumpWorld fun _ => none) contendedMoves (afterCall k s pc)).any fun k₁ =>
      (k₁.registryOwner == some 0 && k₁.pc 1 != .idle &&
        (advance .cached (bumpWorld fun _ => none) k₁ 1).isNone) &&
      (makeMoves .cached (bumpWorld fun _ => none) releasedMoves k₁).isSome

/-- On the way thread 1 waits and thread 0 can act; with its ninth action the call of thread 0 has returned. -/
theorem calls_return_contended : ∃ (k : Config (Fin 2)) (s : State (Fin 2)) (pc : Pc) (k₁ k₂ : Config (Fin 2)),
    (machine (Fin 2) .cached (bumpWorld fun _ => none)).Reachable k ∧ k.pc 0 = .idle ∧
      enter .cached k.state 0 (.malloc 4096) = some (s, pc) ∧
      Stretch (Acts .cached (bumpWorld fun _ => none) 0) (StandsBy .cached (bumpWorld fun _ => none) 0)
        (afterCall k s pc) 3 k₁ ∧
      k₁.registryOwner = some 0 ∧ k₁.pc 1 ≠ .idle ∧ advance .cached (bumpWorld fun _ => none) k₁ 1 = none ∧
      CallsReturn .cached (bumpWorld fun _ => none) k₁ ∧
      Stretch (Acts .cached (bumpWorld fun _ => none) 0) (StandsBy .cached (bumpWorld fun _ => none) 0)
        (afterCall k s pc) 9 k₂ ∧
      k₂.pc 0 = .idle := by
  obtain ⟨k, hreach, hcheck⟩ := exists_makeMoves .cached (bumpWorld fun _ => none) calledMoves showsContention
    (by decide +kernel)
  rw [showsContention, Bool.and_eq_true, beq_iff_eq, Option.any_eq_true] at hcheck
  obtain ⟨hidle, ⟨s, pc⟩, henter, hcheck⟩ := hcheck
  obtain ⟨k₁, hcontended, hcheck⟩ := (Option.any_eq_true _ _).mp hcheck
  rw [Bool.and_eq_true, Option.isSome_iff_exists] at hcheck
  obtain ⟨hwaits, k₂, hreleased⟩ := hcheck
  simp only [Bool.and_eq_true, beq_iff_eq, bne_iff_ne, Option.isNone_iff_eq_none] at hwaits
  obtain ⟨⟨howner, hbusy⟩, hstuck⟩ := hwaits
  have hcalled : Step .cached (bumpWorld fun _ => none) k (some (0, some (.malloc 4096))) (afterCall k s pc) :=
    .call hidle trivial henter
  have hreach₁ := reachable_makeMoves (hreach.step hcalled) hcontended
  have hfirst := stretch_of_makeMoves (t := 0) hcontended (by decide)
  have hboth := hfirst.trans (stretch_of_makeMoves (t := 0) hreleased (by decide))
  have hbounded := (calls_return _ _ k hreach).bounded 0 (.malloc 4096) s pc hidle trivial henter 9 k₂ hboth
  exact ⟨k, s, pc, k₁, k₂, hreach, hidle, henter, hfirst, howner, hbusy, hstuck, calls_return _ _ k₁ hreach₁, hboth,
    hbounded.2 rfl⟩

end Hplf
