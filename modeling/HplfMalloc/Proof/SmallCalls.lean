import HplfMalloc.Proof.Advance

/-!
# Whole allocations of the cached build

`hplf_allocate_small` as one function, run by a thread while no other thread acts: it takes a cached block,
or refills from the shared list, or maps a new slab, and it fails only if the mapping does.
-/

namespace Hplf

open Lib Memory

variable {Tid : Type}
variable {k : Config Tid} {t : Tid} {bases larges : List Nat} {g : Place Tid → List Nat}
variable {c : ClassIndex} {w : World} {r : Request} {capacity : Nat} {cache : Ptr}

/-- Detaching an empty list changes nothing. -/
theorem transferMutexDetach_empty {s : State Tid} (hnone : s.sharedHeads c = none) :
    transferMutexDetach s c = some (s, .clear) := by
  have hupdate : Function.update s.sharedHeads c none = s.sharedHeads := by
    rw [← hnone, Function.update_eq_self]
  unfold transferMutexDetach
  rw [hupdate, hnone]
  rfl

variable [DecidableEq Tid]

/-- Once blocks are at hand, one of them goes to the client: the defensive branch is not taken. -/
theorem Inv.allocateFrom (hinv : Inv k bases larges g) {available : TransferList}
    (hpc : k.pc t = .refill r c capacity cache available) :
    ∃ a s g', allocateFrom k.state t cache r.size c capacity available
        = some (s, blockPayload (some a)) ∧ Quiet k s ∧
      Inv (k.goto t s (.deliver r a)) bases larges g' ∧ Foreign t g g' := by
  obtain ⟨s₁, rest, a, ys, zs, hrefill, hquiet₁, -, hinv₁⟩ := hinv.refillAndTake hpc
  obtain ⟨a', s₂, s₃, heq, hpublish, hset, hquiet₂, g', hinv₂, hforeign⟩ :=
    hinv₁.publishRest (t := t) (by rw [Config.goto_pc])
  obtain rfl := Option.some.inj heq
  rw [Config.goto_state] at hpublish
  rw [Config.goto_goto] at hinv₂
  refine ⟨a, s₃, g', ?_, Quiet.trans (j := k.goto t s₁ (.publishRest r c rest (some a))) hquiet₁ rfl hquiet₂,
    hinv₂, (Foreign.cache _ _ _).trans hforeign⟩
  simp only [Hplf.allocateFrom, hrefill, hpublish, hset, Option.bind_eq_bind, Option.bind_some]

/-- The outcome of a small allocation that starts with the cache acquired in state `s`. -/
inductive SmallOutcome (w : World) (k : Config Tid) (t : Tid) (r : Request) (c : ClassIndex)
    (bases larges : List Nat) (g : Place Tid → List Nat) (s : State Tid) :
    Option (State Tid × Ptr) → Prop
  /-- A free block was at hand, in the cache or on the shared list. -/
  | reused {a : Nat} {s' : State Tid} {g' : Place Tid → List Nat}
      (hfree : g (.cache t c) ≠ [] ∨ g (.shared c) ≠ []) (hquiet : Quiet (k.goto t s (k.pc t)) s')
      (hinv : Inv (k.goto t s' (.deliver r a)) bases larges g') (hforeign : Foreign t g g') :
      SmallOutcome w k t r c bases larges g s (some (s', blockPayload (some a)))
  /-- There was none, and a slab was mapped. -/
  | created {a base : Nat} {free : Ptr} {s₁ s' : State Tid} {h : Slab} {g' : Place Tid → List Nat}
      (hnone : g (.cache t c) = [] ∧ g (.shared c) = [])
      (hcreate : slabCreate w s t c (sizeClassCapacities c) = (s₁, some (base, free)))
      (hqueries : s'.pageQueries = s₁.pageQueries) (houtcomes : s'.mapOutcomes = s₁.mapOutcomes)
      (hkeeps : KeepsLive k s'.memory)
      (hslabs : ∀ base ∈ bases, s'.memory.slab base = k.state.memory.slab base)
      (hnew : base ∉ bases) (hheader : s'.memory.slab base = some h) (hclass : h.classIndex = c)
      (hcount : h.slotCount = slabSlots c (w.sysconf s.pageQueries).toNat)
      (hinv : Inv (k.goto t s' (.deliver r a)) (base :: bases) larges g')
      (hforeign : Foreign t g g') :
      SmallOutcome w k t r c bases larges g s (some (s', blockPayload (some a)))
  /-- There was none, and slab creation failed. -/
  | failed {s₁ : State Tid} (hnone : g (.cache t c) = [] ∧ g (.shared c) = [])
      (hcreate : slabCreate w s t c (sizeClassCapacities c) = (s₁, none)) (hnoise : OsNoise s s₁) :
      SmallOutcome w k t r c bases larges g s (some (s₁.setErrno t .ENOMEM, none))

/-- **A whole small allocation of the cached build.** -/
theorem Inv.allocateSmallCached (hinv : Inv k bases larges g) (w : World)
    (hpc : k.pc t = .allocateSmall r c capacity) :
    ∃ s cache, cacheAcquire w k.state t = some (s, cache) ∧ SameStorage k.state s ∧
      Inv (k.goto t s (k.pc t)) bases larges g ∧
      SmallOutcome w k t r c bases larges g s
        (allocateSmallCached w k.state t r.size c capacity) := by
  have hfor : sizeClassFor r.size = some (c, capacity) := hinv.fits_at hpc
  obtain ⟨-, -, rfl⟩ := sizeClassFor_eq_some hfor
  have hmine : g (.inflight t) = [] := hinv.carries_at hpc
  obtain ⟨s, cache, hacquire, hcache, hsame, hinv₁⟩ := hinv.acquire w (by rw [hpc]; rfl)
    (by rw [hpc]; rfl) (by rw [hpc]; exact fun _ h => h.elim) (by rw [hpc]; exact fun _ => hfor)
  refine ⟨s, cache, hacquire, hsame, hinv₁, ?_⟩
  rw [hpc] at hinv₁
  set j := k.goto t s (.allocateSmall r c (sizeClassCapacities c)) with hj
  have hpcj : j.pc t = .allocateSmall r c (sizeClassCapacities c) := Config.goto_pc _ _
  have hgoto : k.goto t s (k.pc t) = j := by rw [hpc]
  have hfollows : ∀ pc, pc.teardown = none → pc.argument = (Pc.allocateSmall r c
      (sizeClassCapacities c)).argument → ¬ pc.InRegistry → (j.pc t).Follows pc := by
    intro pc hteardown hargument hregistry
    rw [hpcj]
    exact .of_request hteardown hargument ⟨fun h => absurd h hregistry, fun h => h.elim⟩
  unfold Hplf.allocateSmallCached
  rcases hinv₁.takeLocal (by rw [hpcj]; rfl) (by rw [hpcj]; rfl) hmine c with
    ⟨hmiss, hnil⟩ | ⟨a, rest, s₂, hlist, hhit, hquiet₂, hnext⟩
  · rw [hj, Config.goto_state, ← hcache] at hmiss
    simp only [hacquire, hmiss, Option.bind_eq_bind, Option.bind_some]
    have hchain : Chain s.memory.next (s.sharedHeads c) (g (.shared c)) := hinv₁.holds (.shared c)
    by_cases hshared : g (.shared c) = []
    · -- Both detaches find nothing.
      rw [hshared] at hchain
      have hdetach := transferMutexDetach_empty hchain
      simp only [hdetach, Option.bind_some, TransferList.clear, ne_eq, not_true_eq_false, if_false]
      rcases hinv₁.createSlab w hmine c with ⟨s₂, hfailed, hnoise⟩ |
        ⟨s₂, list, base, h, hcreated, hkeeps, hslabs, hclass, hcount, hnew, hheader, howns, hne, hcreate⟩
      · rw [hj, Config.goto_state] at hfailed hnoise
        simp only [hfailed, Option.bind_some]
        exact .failed ⟨hnil, hshared⟩ (createRegisteredSlab_none hfailed) hnoise
      · rw [hj, Config.goto_state] at hcreated
        obtain ⟨s₁, slab, hslab, hregister⟩ := createRegisteredSlab_some hcreated
        have hinv₂ := hcreate (.refill r c (sizeClassCapacities c) cache list)
          (hfollows _ rfl rfl fun h => h.elim) (by rw [hpcj]; rfl) (fun _ h => h.elim) ⟨hfor, hcache⟩
          ⟨howns, hne⟩ rfl
        obtain ⟨m, hm⟩ : ∃ m, s₂ = { s₁ with memory := m, slabs := some slab } := by
          obtain ⟨m, -, heq⟩ := Option.bind_eq_some_iff.mp hregister
          exact ⟨m, (Option.some.inj heq).symm⟩
        have hbase : slab = base := by
          have hinit := hinv₂.storage.registry.1
          rw [Config.goto_state, hm] at hinit
          exact Option.some.inj hinit
        subst hbase
        obtain ⟨a, s₃, g', hfrom, hquiet, hinv₃, hforeign⟩ :=
          hinv₂.allocateFrom (t := t) (by rw [Config.goto_pc])
        rw [Config.goto_state] at hfrom
        rw [hj, Config.goto_goto, Config.goto_goto] at hinv₃
        obtain ⟨_, _, _, _, hlists⟩ := hquiet.lists
        simp only [hcreated, hfrom, Option.bind_some]
        refine .created ⟨hnil, hshared⟩ hslab ?_ ?_ ?_ ?_ hnew ?_ hclass hcount hinv₃
          ((Foreign.inflight _).trans hforeign)
        · rw [hlists, Config.goto_state, hm]
        · rw [hlists, Config.goto_state, hm]
        · have hkeeps' : KeepsLive k s₂.memory := ⟨fun a ha => ?_, fun a ha => ?_⟩
          · exact hkeeps'.trans
              (j := j.goto t s₂ (.refill r c (sizeClassCapacities c) cache list)) rfl hquiet.keepsLive
          · rw [hkeeps.block a ha, hj, Config.goto_state, hsame.memory]
          · have hbyte := hkeeps.byte a ha
            rwa [hj, Config.goto_state, hsame.memory] at hbyte
        · intro base hbase
          rw [hquiet.slab, ← hsame.memory]
          exact hslabs base hbase
        · rw [hquiet.slab]
          exact hheader
    · obtain ⟨s₂, list, hdetach, hquiet₂, howns, hdetached⟩ := hinv₁.detach hmine c
      rw [hj, Config.goto_state] at hdetach
      have hfirst : list.first ≠ none := fun h => hshared (howns.chain.eq_nil_iff.mp h)
      have hinv₂ := hdetached (.refill r c (sizeClassCapacities c) cache list)
        (hfollows _ rfl rfl fun h => h.elim) (by rw [hpcj]; rfl) (fun _ h => h.elim) ⟨hfor, hcache⟩
        ⟨howns, hshared⟩ fun a ha => Pc.admits_of_free (c := c) rfl (hinv₁.free_of_shared ha)
      obtain ⟨a, s₃, g', hfrom, hquiet₃, hinv₃, hforeign⟩ :=
        hinv₂.allocateFrom (t := t) (by rw [Config.goto_pc])
      rw [Config.goto_state] at hfrom
      rw [hj, Config.goto_goto, Config.goto_goto] at hinv₃
      simp only [hdetach, Option.bind_some, if_pos hfirst, hfrom]
      refine .reused (Or.inr hshared) ?_ hinv₃ ((Foreign.shared _ _ _).trans hforeign)
      rw [hgoto]
      exact Quiet.trans (j := j.goto t s₂ (.refill r c (sizeClassCapacities c) cache list)) hquiet₂ rfl
        hquiet₃
  · rw [hj, Config.goto_state, ← hcache] at hhit
    have hinv₂ := hnext r (hfollows _ rfl rfl fun h => h.elim) hfor
    rw [hj, Config.goto_goto] at hinv₂
    obtain ⟨s₃, hset, hquiet₃, hinv₃⟩ := hinv₂.handOut (t := t) (r := r) (c := c) .clear
      (a := a) (by rw [Config.goto_pc]; rfl) replace₂_right
    rw [Config.goto_state] at hset
    rw [Config.goto_goto] at hinv₃
    simp only [hacquire, hhit, hset, Option.bind_eq_bind, Option.bind_some]
    refine .reused (Or.inl (by rw [hlist]; exact List.cons_ne_nil _ _)) ?_ hinv₃ (Foreign.cache _ _ _)
    rw [hgoto]
    exact Quiet.trans (j := k.goto t s₂ (.hand r c a)) hquiet₂ rfl hquiet₃

end Hplf
