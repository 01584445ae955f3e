import HplfMalloc.Proof.LifecycleInv

/-!
# Teardown

A thread that exits flushes its cache class by class before the descriptor is unmapped. Along every run,
whatever the other threads do meanwhile, each block that was cached at the exit is still cached, or in the
hands of the exiting thread on its way to the list of its class, or has been on that list.
-/

namespace Hplf

open Lib Memory

variable {Tid : Type} [DecidableEq Tid]
variable {k k' : Config Tid} {t : Tid} {bases larges : List Nat} {g : Place Tid → List Nat}
variable {v : Variant} {w : World} {d : Nat}

/-- Block `a` is on the shared list of class `c`. -/
def OnShared (k : Config Tid) (c : ClassIndex) (a : Nat) : Prop :=
  ∃ xs, Chain k.state.memory.next (k.state.sharedHeads c) xs ∧ a ∈ xs

/-- What an action does with the blocks a teardown still has to publish. -/
structure Drains (t : Tid) (g g' : Place Tid → List Nat) (pc pc' : Pc) : Prop where
  cached : ∀ c, ∀ a ∈ g (.cache t c),
    a ∈ g' (.cache t c) ∨ a ∈ g' (.inflight t) ∧ pc'.listClass = some c
  held : ∀ c, pc.listClass = some c → ∀ a ∈ g (.inflight t),
    (a ∈ g' (.inflight t) ∧ pc'.listClass = some c) ∨ a ∈ g' (.shared c)

/-- The exiting thread's own actions. -/
theorem Inv.drains (hinv : Inv k bases larges g) (hbefore : (k.pc t).teardown = some d)
    (hadvance : advance v w k t = some k') (hafter : (k'.pc t).teardown = some d) :
    ∃ bases' larges' g', Inv k' bases' larges' g' ∧ Drains t g g' (k.pc t) (k'.pc t) := by
  cases hpc : k.pc t with
  | flush e rest teardown =>
      cases rest with
      | nil =>
          cases teardown with
          | false => simp [hpc, Pc.teardown] at hbefore
          | true =>
              simp only [advance, hpc, if_true, Option.some.injEq] at hadvance
              subst hadvance
              exact ⟨bases, larges, g, hinv.flushed hpc, fun c a ha => Or.inl ha, by simp [Pc.listClass]⟩
      | cons c rest =>
          rcases hinv.flushExtract hpc with ⟨hempty, hinv'⟩ | ⟨s, list, hextract, -, -, hinv'⟩
          · simp only [advance, hpc, hempty, Option.bind_eq_bind, Option.bind_some,
              Option.some.injEq] at hadvance
            subst hadvance
            exact ⟨bases, larges, g, hinv', fun c a ha => Or.inl ha, by simp [Pc.listClass]⟩
          · simp only [advance, hpc, hextract, Option.bind_eq_bind, Option.bind_some,
              Option.some.injEq] at hadvance
            subst hadvance
            refine ⟨bases, larges, _, hinv', fun f a ha => ?_, by simp [Pc.listClass]⟩
            by_cases hf : f = c
            · subst hf
              refine Or.inr ⟨?_, by rw [Config.goto_pc]; rfl⟩
              rwa [replace₂_right]
            · apply Or.inl
              rwa [replace₂_of_ne (by simpa using hf) (by simp)]
  | publishFlush e c list rest teardown =>
      obtain ⟨s, hpublish, -, hinv'⟩ := hinv.publishFlush hpc
      simp only [advance, hpc, hpublish, Option.bind_eq_bind, Option.bind_some,
        Option.some.injEq] at hadvance
      subst hadvance
      refine ⟨bases, larges, _, hinv', fun f a ha => Or.inl ?_, fun f hf a ha => Or.inr ?_⟩
      · rwa [replace₂_of_ne (by simp) (by simp)]
      · obtain rfl : c = f := Option.some.inj hf
        rw [replace₂_left (by simp)]
        exact List.mem_append_left _ ha
  | unmapDescriptor e =>
      obtain ⟨s, hunmap, -⟩ := hinv.unmapDescriptor w hpc
      simp only [advance, hpc, hunmap, Option.bind_eq_bind, Option.bind_some,
        Option.some.injEq] at hadvance
      subst hadvance
      simp [Pc.teardown] at hafter
  | _ => simp [hpc, Pc.teardown] at hbefore

omit [DecidableEq Tid] in
/-- What the other threads do does not touch the blocks of a teardown. -/
theorem Foreign.drains {g' : Place Tid → List Nat} {u : Tid} (hforeign : Foreign u g g') (hu : t ≠ u)
    (pc : Pc) : Drains t g g' pc pc where
  cached c a ha := Or.inl (by rwa [hforeign (.cache t c) t rfl hu])
  held c hc a ha := Or.inl ⟨by rwa [hforeign (.inflight t) t rfl hu], hc⟩

/-- **One step.** While thread `t` makes no call, every step that leaves it in the teardown of `d` drains
its cache. -/
theorem Inv.step_drains (hinv : Inv k bases larges g) {e : Option (Tid × Option Call)}
    (hstep : Step v w k e k') (hcall : ∀ call, e ≠ some (t, some call))
    (hafter : (k'.pc t).teardown = some d) :
    (k.pc t).teardown = some d ∧
      ∃ bases' larges' g', Inv k' bases' larges' g' ∧ Drains t g g' (k.pc t) (k'.pc t) := by
  cases hstep with
  | @call u call s pc hidle hallowed henter =>
      have htu : t ≠ u := by
        rintro rfl
        exact hcall call rfl
      obtain ⟨s', pc', henter', hinv'⟩ := hinv.enter v hidle hallowed
      obtain ⟨rfl, rfl⟩ := Prod.mk.inj (Option.some.inj (henter'.symm.trans henter))
      have hpc : (k.goto u s' pc').pc t = k.pc t := Config.goto_pc_of_ne htu _ _
      refine ⟨by rwa [← hpc], bases, larges, g, hinv'.congr
        ⟨rfl, rfl, rfl, rfl, rfl, rfl, rfl, rfl, rfl, rfl, rfl, rfl, rfl⟩, ?_⟩
      have hdrains := (Foreign.refl u g).drains htu (k.pc t)
      rwa [← hpc] at hdrains ⊢
  | @advance k' u hadvance =>
      obtain ⟨pc, hpc, hmove⟩ := hinv.moved hadvance
      by_cases htu : t = u
      · subst htu
        have hbefore : (k.pc t).teardown = some d := by
          rw [hpc, Function.update_self] at hafter
          cases hmove with
          | same _ hteardown => rwa [← hteardown]
          | acquire _ _ _ hnone => simp [hnone] at hafter
          | unmap _ _ hidle => simp [hidle, Pc.teardown] at hafter
        exact ⟨hbefore, hinv.drains hbefore hadvance hafter⟩
      · have hsame : k'.pc t = k.pc t := by rw [hpc, Function.update_of_ne htu]
        obtain ⟨bases', larges', g', hinv', hforeign⟩ := hinv.of_advance hadvance
        rw [hsame] at hafter ⊢
        exact ⟨hafter, bases', larges', g', hinv', hforeign.drains htu _⟩
  | write hlive _ hheader hoffset hpayload =>
      exact ⟨hafter, bases, larges, g, hinv.write hlive hheader hoffset hpayload _,
        fun c a ha => Or.inl ha, fun c hc a ha => Or.inl ⟨ha, hc⟩⟩
  | @trim u s released hquiescent htrim =>
      -- A thread in a teardown is not between calls.
      have hidle : k.pc t = .idle := hquiescent t
      simp [hidle, Pc.teardown] at hafter

/-- Block `a` was on the shared list of class `c` at some point of a run from `start` to `k`. -/
def WasPublished (v : Variant) (w : World) (start k : Config Tid) (c : ClassIndex) (a : Nat) : Prop :=
  ∃ j before after, (machine Tid v w).Run start before j ∧ (machine Tid v w).Run j after k ∧
    OnShared j c a

theorem WasPublished.step {start : Config Tid} {c : ClassIndex} {a : Nat}
    {e : Option (Tid × Option Call)} (hwas : WasPublished v w start k c a) (hstep : Step v w k e k') :
    WasPublished v w start k' c a := by
  obtain ⟨j, before, after, hbefore, hafter, hon⟩ := hwas
  cases e with
  | none => exact ⟨j, before, after, hbefore, hafter.internal hstep, hon⟩
  | some e => exact ⟨j, before, after ++ [e], hbefore, hafter.observe hstep, hon⟩

/-- Where the blocks `content` of a teardown that began at `start` are. -/
def Accounted (v : Variant) (w : World) (start k : Config Tid) (t : Tid) (g : Place Tid → List Nat)
    (content : ClassIndex → List Nat) : Prop :=
  ∀ c, ∀ a ∈ content c, a ∈ g (.cache t c) ∨ (a ∈ g (.inflight t) ∧ (k.pc t).listClass = some c) ∨
    WasPublished v w start k c a

theorem Accounted.step {start : Config Tid} {g' : Place Tid → List Nat}
    {content : ClassIndex → List Nat} {bases' larges' : List Nat} {trace : List (Tid × Option Call)}
    {e : Option (Tid × Option Call)} (haccounted : Accounted v w start k t g content)
    (hrun : (machine Tid v w).Run start trace k') (hstep : Step v w k e k')
    (hinv' : Inv k' bases' larges' g') (hdrains : Drains t g g' (k.pc t) (k'.pc t)) :
    Accounted v w start k' t g' content := by
  intro c a ha
  rcases haccounted c a ha with hcached | ⟨hheld, hclass⟩ | hwas
  · exact (hdrains.cached c a hcached).imp_right Or.inl
  · rcases hdrains.held c hclass a hheld with hstill | hshared
    · exact Or.inr (Or.inl hstill)
    · exact Or.inr (Or.inr ⟨k', trace, [], hrun, .refl, g' (.shared c), hinv'.holds (.shared c),
        hshared⟩)
  · exact Or.inr (Or.inr (hwas.step hstep))

/-- **A whole teardown.** Along every run in which thread `t` makes no call, its blocks are accounted for
as long as it is in the teardown. -/
theorem Inv.run_accounted {start : Config Tid} (hinv : Inv start bases larges g)
    {trace : List (Tid × Option Call)} (hrun : (machine Tid v w).Run start trace k)
    (hcall : ∀ call, (t, some call) ∉ trace) (hafter : (k.pc t).teardown = some d) :
    ∃ bases' larges' g', Inv k bases' larges' g' ∧
      Accounted v w start k t g' fun c => g (.cache t c) := by
  induction hrun with
  | refl => exact ⟨bases, larges, g, hinv, fun c a ha => Or.inl ha⟩
  | internal hrun hstep ih =>
      obtain ⟨b₁, l₁, g₁, hinv₁⟩ := hrun.preserves (I := Safe)
        (fun _ _ _ hsafe hstep => Safe.step hsafe hstep) ⟨bases, larges, g, hinv⟩
      obtain ⟨hbefore, -⟩ := hinv₁.step_drains hstep (by simp) hafter
      obtain ⟨b₂, l₂, g₂, hinv₂, haccounted⟩ := ih hcall hbefore
      obtain ⟨-, b₃, l₃, g₃, hinv₃, hdrains⟩ := hinv₂.step_drains hstep (by simp) hafter
      exact ⟨b₃, l₃, g₃, hinv₃, haccounted.step (hrun.internal hstep) hstep hinv₃ hdrains⟩
  | @observe trace _ _ e hrun hstep ih =>
      have he : ∀ call, some e ≠ some (t, some call) := by
        rintro call heq
        exact hcall call (by simp [Option.some.inj heq])
      obtain ⟨b₁, l₁, g₁, hinv₁⟩ := hrun.preserves (I := Safe)
        (fun _ _ _ hsafe hstep => Safe.step hsafe hstep) ⟨bases, larges, g, hinv⟩
      obtain ⟨hbefore, -⟩ := hinv₁.step_drains hstep he hafter
      obtain ⟨b₂, l₂, g₂, hinv₂, haccounted⟩ :=
        ih (fun call hmem => hcall call (List.mem_append_left _ hmem)) hbefore
      obtain ⟨-, b₃, l₃, g₃, hinv₃, hdrains⟩ := hinv₂.step_drains hstep he hafter
      exact ⟨b₃, l₃, g₃, hinv₃, haccounted.step (hrun.observe hstep) hstep hinv₃ hdrains⟩

/-- **The end of a teardown.** When the descriptor is about to be unmapped, every block that was cached
when the thread exited has been on the list of its class. -/
theorem Inv.teardown_published (hinv : Inv k bases larges g) (hidle : k.pc t = .idle)
    (hkey : k.state.keyValue t = some d) {start : Config Tid}
    (hexit : Step v w k (some (t, some .threadExit)) start) {trace : List (Tid × Option Call)}
    (hrun : (machine Tid v w).Run start trace k') (hcall : ∀ call, (t, some call) ∉ trace)
    (hend : k'.pc t = .unmapDescriptor d) (c : ClassIndex) {a : Nat} (ha : a ∈ g (.cache t c)) :
    WasPublished v w start k' c a := by
  have hstart : Inv start bases larges g := by
    cases hexit with
    | call _ _ henter =>
        simp only [Hplf.enter, hkey, Option.some.injEq, Prod.mk.injEq] at henter
        obtain ⟨rfl, rfl⟩ := henter
        exact (hinv.exit hidle hkey).congr
          ⟨rfl, rfl, rfl, rfl, rfl, rfl, rfl, rfl, rfl, rfl, rfl, rfl, rfl⟩
  obtain ⟨bases', larges', g', hinv', haccounted⟩ :=
    hstart.run_accounted hrun hcall (show (k'.pc t).teardown = some d by rw [hend]; rfl)
  have hnone : (k'.pc t).listClass = none := by rw [hend]; rfl
  rcases haccounted c a ha with hcached | ⟨-, hclass⟩ | hwas
  · rw [hinv'.emptied t c (by rw [hend]; trivial)] at hcached
    cases hcached
  · simp [hnone] at hclass
  · exact hwas

end Hplf
