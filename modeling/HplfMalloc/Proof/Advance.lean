import HplfMalloc.Proof.SmallSteps

/-!
# Every action succeeds and keeps the invariant

One lemma for each program counter: in a configuration that satisfies the invariant the action does not
fault, and the next configuration satisfies the invariant. Only a thread between calls and a thread that
waits for the registry mutex have no action.
-/

namespace Hplf

open Lib Memory

variable {Tid : Type} [DecidableEq Tid]
variable {k : Config Tid} {t : Tid} {bases larges : List Nat} {g : Place Tid → List Nat}
variable {c : ClassIndex} {v : Variant} {w : World} {r : Request} {capacity : Nat} {cache : Ptr}

/-- Some account of the storage and of the places satisfies the invariant. -/
def Safe (k : Config Tid) : Prop := ∃ bases larges g, Inv k bases larges g

/-- The action of thread `t` succeeds, leads to a configuration that satisfies the invariant, and moves
nothing that belongs to another thread. -/
def Progresses (v : Variant) (w : World) (k : Config Tid) (t : Tid) (g : Place Tid → List Nat) :
    Prop :=
  ∃ k', advance v w k t = some k' ∧ ∃ bases larges g', Inv k' bases larges g' ∧ Foreign t g g'

theorem blockFromPayload_blockPayload (a : Nat) : blockFromPayload (blockPayload (some a)) = some a := by
  simp

theorem Pc.Follows.of_request {pc pc' : Pc} (hteardown : pc'.teardown = pc.teardown)
    (hargument : pc'.argument = pc.argument) (hregistry : pc'.InRegistry ↔ pc.InRegistry) :
    pc.Follows pc' :=
  ⟨hteardown, fun _ h => hargument ▸ h, hregistry⟩

/-! ### Allocation -/

theorem Inv.advance_allocateSmall_cached (hinv : Inv k bases larges g) (w : World)
    (hpc : k.pc t = .allocateSmall r c capacity) : Progresses .cached w k t g := by
  have hfor : sizeClassFor r.size = some (c, capacity) := hinv.fits_at hpc
  obtain ⟨-, -, rfl⟩ := sizeClassFor_eq_some hfor
  have hmine : g (.inflight t) = [] := hinv.carries_at hpc
  obtain ⟨s₁, cache, hacquire, rfl, -, hinv₁⟩ := hinv.acquire w (by rw [hpc]; rfl) (by rw [hpc]; rfl)
    (by rw [hpc]; exact fun _ h => h.elim) (by rw [hpc]; exact fun _ => hfor)
  rw [hpc] at hinv₁
  rcases hinv₁.takeLocal (by rw [Config.goto_pc]; rfl) (by rw [Config.goto_pc]; rfl) hmine c with
    ⟨hmiss, -⟩ | ⟨a, rest, s₂, -, hhit, -, hnext⟩
  · rw [Config.goto_state] at hmiss
    refine ⟨k.goto t s₁ (.detach r c (sizeClassCapacities c) (cacheCurrent s₁ t)), ?_,
      bases, larges, g, ?_, Foreign.refl _ _⟩
    · simp only [advance, hpc, hacquire, hmiss, Option.bind_eq_bind, Option.bind_some]
    rw [← Config.goto_goto s₁ s₁ (.allocateSmall r c (sizeClassCapacities c))]
    have hfollows : Pc.Follows ((k.goto t s₁ (.allocateSmall r c (sizeClassCapacities c))).pc t)
        (.detach r c (sizeClassCapacities c) (cacheCurrent s₁ t)) := by
      rw [Config.goto_pc]
      exact .of_request rfl rfl Iff.rfl
    refine hinv₁.rewrite (Framed.refl [] _) (by simp) hfollows (by rw [Config.goto_pc]; rfl)
      (fun e he => he.elim) ⟨hfor, rfl⟩ hmine ?_
    simp [hmine]
  · rw [Config.goto_state] at hhit
    have hinv₂ := hnext r (by rw [Config.goto_pc]; exact .of_request rfl rfl Iff.rfl) hfor
    rw [Config.goto_goto] at hinv₂
    obtain ⟨s₃, hset, -, hinv₃⟩ := hinv₂.handOut (t := t) (r := r) (c := c) .clear
      (a := a) (by rw [Config.goto_pc]; rfl) replace₂_right
    rw [Config.goto_state] at hset
    rw [Config.goto_goto] at hinv₃
    refine ⟨k.goto t s₃ (.deliver r a), ?_, bases, larges, _, hinv₃, Foreign.cache _ _ _⟩
    simp only [advance, hpc, hacquire, hhit, hset, Option.bind_eq_bind, Option.bind_some]

/-- The shared part of the two detaches: blocks in hand, or nothing and on to the next step. -/
theorem Inv.detach_cases (hinv : Inv k bases larges g) (hmine : g (.inflight t) = [])
    (found : TransferList → Pc) (empty : Pc)
    (hfound : ∀ list, (k.pc t).Follows (found list) ∧ (found list).evicting = (k.pc t).evicting ∧
      (∀ e, ¬ (found list).Emptied e) ∧ (found list).listClass = some c ∧
      (found list).Fits k.state t ∧
      ∀ m xs, list.Owns m xs → xs ≠ [] → (found list).Carries m xs)
    (hempty : (k.pc t).Follows empty ∧ empty.evicting = (k.pc t).evicting ∧
      (∀ e, ¬ empty.Emptied e) ∧ empty.Fits k.state t ∧ ∀ m, empty.Carries m []) :
    ∃ s list, transferMutexDetach k.state c = some (s, list) ∧ Quiet k s ∧
      ((list.first ≠ none ∧ g (.shared c) ≠ [] ∧ Inv (k.goto t s (found list)) bases larges
          (replace₂ g (.shared c) (.inflight t) [] (g (.shared c)))) ∨
        (list.first = none ∧ g (.shared c) = [] ∧ Inv (k.goto t s empty) bases larges g)) := by
  obtain ⟨s, list, hdetach, hquiet, howns, hnext⟩ := hinv.detach hmine c
  refine ⟨s, list, hdetach, hquiet, ?_⟩
  by_cases hnil : g (.shared c) = []
  · right
    refine ⟨howns.chain.eq_nil_iff.mpr hnil, hnil, ?_⟩
    obtain ⟨hfollows, hevicting, hemptied, hfits, hcarries⟩ := hempty
    have hinv' := hnext empty hfollows hevicting hemptied hfits (by rw [hnil]; exact hcarries _)
      (by simp [hnil])
    have hsame : replace₂ g (.shared c) (.inflight t) [] (g (.shared c)) = g := by
      rw [replace₂, hnil]
      conv_lhs => rw [← hnil, Function.update_eq_self, hnil, ← hmine, Function.update_eq_self]
    rwa [hsame] at hinv'
  · left
    refine ⟨fun h => hnil (howns.chain.eq_nil_iff.mp h), hnil, ?_⟩
    obtain ⟨hfollows, hevicting, hemptied, hclass, hfits, hcarries⟩ := hfound list
    exact hnext _ hfollows hevicting hemptied hfits (hcarries _ _ howns hnil)
      fun a ha => Pc.admits_of_free hclass (hinv.free_of_shared ha)

theorem Inv.advance_detach (hinv : Inv k bases larges g) (v : Variant) (w : World)
    (hpc : k.pc t = .detach r c capacity cache) : Progresses v w k t g := by
  obtain ⟨hfor, hcache⟩ : sizeClassFor r.size = some (c, capacity) ∧
      cache = cacheCurrent k.state t := hinv.fits_at hpc
  have hmine : g (.inflight t) = [] := hinv.carries_at hpc
  obtain ⟨s, list, hdetach, -, hcases⟩ := hinv.detach_cases hmine
    (fun list => .refill r c capacity cache list) (.lockRegistry r c capacity cache)
    (fun list => by
      rw [hpc]
      exact ⟨.of_request rfl rfl Iff.rfl, rfl, fun _ h => h.elim, rfl, ⟨hfor, hcache⟩,
        fun _ _ howns hne => ⟨howns, hne⟩⟩)
    (by
      rw [hpc]
      exact ⟨.of_request rfl rfl Iff.rfl, rfl, fun _ h => h.elim, ⟨hfor, hcache⟩, fun _ => rfl⟩)
  rcases hcases with ⟨hfirst, -, hinv'⟩ | ⟨hfirst, -, hinv'⟩
  · refine ⟨_, ?_, _, _, _, hinv', Foreign.shared _ _ _⟩
    simp only [advance, hpc, hdetach, Option.bind_eq_bind, Option.bind_some]
    rw [if_pos hfirst]
  · refine ⟨_, ?_, _, _, _, hinv', Foreign.refl _ _⟩
    simp only [advance, hpc, hdetach, Option.bind_eq_bind, Option.bind_some]
    rw [if_neg (by simpa using hfirst)]

theorem Inv.advance_recheck (hinv : Inv k bases larges g) (v : Variant) (w : World)
    (hpc : k.pc t = .recheck r c capacity cache) : Progresses v w k t g := by
  obtain ⟨hfor, hcache⟩ : sizeClassFor r.size = some (c, capacity) ∧
      cache = cacheCurrent k.state t := hinv.fits_at hpc
  have hmine : g (.inflight t) = [] := hinv.carries_at hpc
  obtain ⟨s, list, hdetach, -, hcases⟩ := hinv.detach_cases hmine
    (fun list => .unlockRegistry r c capacity cache list) (.createSlab r c capacity cache)
    (fun list => by
      rw [hpc]
      exact ⟨.of_request rfl rfl Iff.rfl, rfl, fun _ h => h.elim, rfl, ⟨hfor, hcache⟩,
        fun _ _ howns hne => ⟨howns, hne⟩⟩)
    (by
      rw [hpc]
      exact ⟨.of_request rfl rfl Iff.rfl, rfl, fun _ h => h.elim, ⟨hfor, hcache⟩, fun _ => rfl⟩)
  rcases hcases with ⟨hfirst, -, hinv'⟩ | ⟨hfirst, -, hinv'⟩
  · refine ⟨_, ?_, _, _, _, hinv', Foreign.shared _ _ _⟩
    simp only [advance, hpc, hdetach, Option.bind_eq_bind, Option.bind_some]
    rw [if_pos hfirst]
  · refine ⟨_, ?_, _, _, _, hinv', Foreign.refl _ _⟩
    simp only [advance, hpc, hdetach, Option.bind_eq_bind, Option.bind_some]
    rw [if_neg (by simpa using hfirst)]

theorem Inv.advance_lockRegistry (hinv : Inv k bases larges g) (v : Variant) (w : World)
    (hpc : k.pc t = .lockRegistry r c capacity cache) (hfree : k.registryOwner = none) :
    Progresses v w k t g := by
  have hfits := hinv.fits_at hpc
  have hmine : g (.inflight t) = [] := hinv.carries_at hpc
  refine ⟨{ k.goto t k.state (.recheck r c capacity cache) with registryOwner := some t },
    by simp only [advance, hpc, hfree, if_true], bases, larges, g, ?_, Foreign.refl _ _⟩
  refine hinv.retarget (t := t) (Config.goto_localStep rfl rfl rfl (Framed.refl _ _)
    (ListsOnly.refl _) (fun _ _ => rfl) (by rw [hpc]; rfl)) rfl rfl rfl ?_ ?_ ?_ ?_ ?_ ?_ ?_
  · simp only [Config.goto_pc, hmine]
    rfl
  · simp [hmine]
  · simp only [Config.goto_pc]
    exact fun _ h => h.elim
  · simp only [Config.goto_pc, hpc]
    rfl
  · simp only [Config.goto_pc]
    exact hfits
  · intro a ha
    simp only [Config.goto_pc] at ha
    exact hinv.argument_own (by rw [hpc]; exact ha)
  · intro u
    by_cases hu : u = t
    · subst hu
      simp [Pc.InRegistry]
    · have hnot := hinv.registry u
      rw [hfree] at hnot
      change ((k.goto t k.state _).pc u).InRegistry ↔ _
      rw [Config.goto_pc_of_ne hu, hnot]
      simp [Ne.symm hu]

/-- A thread in the registry section leaves it. -/
theorem Inv.leaveRegistry (hinv : Inv k bases larges g) (howner : (k.pc t).InRegistry) {pc : Pc}
    (houtside : ¬ pc.InRegistry) (u : Tid) :
    ((k.goto t k.state pc).pc u).InRegistry ↔ (none : Option Tid) = some u := by
  have ht := (hinv.registry t).mp howner
  by_cases hu : u = t
  · subst hu
    simp [houtside]
  · rw [Config.goto_pc_of_ne hu, hinv.registry u, ht]
    simp [Ne.symm hu]

theorem Inv.advance_unlockRegistry (hinv : Inv k bases larges g) (v : Variant) (w : World)
    {available : TransferList} (hpc : k.pc t = .unlockRegistry r c capacity cache available) :
    Progresses v w k t g := by
  have hmine := hinv.carries_at hpc
  have hfits := hinv.fits_at hpc
  refine ⟨{ k.goto t k.state (.refill r c capacity cache available) with registryOwner := none },
    by simp only [advance, hpc], bases, larges, g, ?_, Foreign.refl _ _⟩
  refine hinv.retarget (t := t) (Config.goto_localStep rfl rfl rfl (Framed.refl _ _)
    (ListsOnly.refl _) (fun _ _ => rfl) (by rw [hpc]; rfl)) rfl rfl rfl ?_ ?_ ?_ ?_ ?_ ?_
    (hinv.leaveRegistry (by rw [hpc]; trivial) fun h => h.elim)
  · simp only [Config.goto_pc]
    exact hmine
  · intro a ha
    simp only [Config.goto_pc]
    exact Pc.admits_of_free (c := c) rfl (hinv.free_of_inflight (by rw [hpc]; rfl) ha)
  · simp only [Config.goto_pc]
    exact fun _ h => h.elim
  · simp only [Config.goto_pc, hpc]
    rfl
  · simp only [Config.goto_pc]
    exact hfits
  · intro a ha
    simp only [Config.goto_pc] at ha
    exact hinv.argument_own (by rw [hpc]; exact ha)

/-- A call that holds nothing returns. -/
theorem Inv.giveUp (hinv : Inv k bases larges g) (owner : Option Tid) (hmine : g (.inflight t) = [])
    (hteardown : (k.pc t).teardown = none) (hevicting : (k.pc t).evicting = none)
    (hregistry : ∀ u, ((k.goto t k.state .idle).pc u).InRegistry ↔ owner = some u) :
    Inv { k.goto t k.state .idle with registryOwner := owner } bases larges g := by
  refine hinv.retarget (t := t) (Config.goto_localStep rfl rfl rfl (Framed.refl _ _)
    (ListsOnly.refl _) (fun _ _ => rfl) (by rw [hteardown]; rfl)) rfl rfl rfl ?_ ?_ ?_ ?_ ?_ ?_ hregistry
  · simp only [Config.goto_pc, hmine]
    rfl
  · simp [hmine]
  · simp only [Config.goto_pc]
    exact fun _ h => h.elim
  · simp only [Config.goto_pc, hevicting]
    rfl
  · simp only [Config.goto_pc]
    trivial
  · intro a ha
    simp [Pc.argument] at ha

/-- The registry owner does not change when a call outside the registry section returns. -/
theorem Inv.outside_registry (hinv : Inv k bases larges g) (houtside : ¬ (k.pc t).InRegistry)
    (u : Tid) : ((k.goto t k.state .idle).pc u).InRegistry ↔ k.registryOwner = some u := by
  rw [← hinv.registry u]
  by_cases hu : u = t
  · subst hu
    rw [Config.goto_pc]
    exact ⟨fun h => h.elim, fun h => absurd h houtside⟩
  · rw [Config.goto_pc_of_ne hu]

theorem Inv.advance_createSlab (hinv : Inv k bases larges g) (v : Variant) (w : World)
    (hpc : k.pc t = .createSlab r c capacity cache) : Progresses v w k t g := by
  obtain ⟨hfor, hcache⟩ : sizeClassFor r.size = some (c, capacity) ∧
      cache = cacheCurrent k.state t := hinv.fits_at hpc
  obtain ⟨-, -, rfl⟩ := sizeClassFor_eq_some hfor
  have hmine : g (.inflight t) = [] := hinv.carries_at hpc
  rcases hinv.createSlab w hmine c with
    ⟨s, hfailed, errno, queries, outcomes, rfl⟩ | ⟨s, list, base, h, hcreated, -, -, -, -, -, -, howns, hne, hnext⟩
  · refine ⟨_, by simp only [advance, hpc, hfailed, Option.bind_eq_bind, Option.bind_some]; rfl,
      bases, larges, g, ?_, Foreign.refl _ _⟩
    have hinv' := hinv.giveUp none hmine (by rw [hpc]; rfl) (by rw [hpc]; rfl)
      (hinv.leaveRegistry (by rw [hpc]; trivial) fun h => h.elim)
    exact hinv'.congr ⟨rfl, rfl, rfl, rfl, rfl, rfl, rfl, rfl, rfl, rfl, rfl, rfl, rfl⟩
  · refine ⟨_, by simp only [advance, hpc, hcreated, Option.bind_eq_bind, Option.bind_some],
      _, _, _, hnext (.unlockRegistry r c (sizeClassCapacities c) cache list) ?_ ?_ (fun _ h => h.elim)
        ⟨hfor, hcache⟩ ⟨howns, hne⟩ rfl, Foreign.inflight _⟩
    · rw [hpc]
      exact .of_request rfl rfl Iff.rfl
    · rw [hpc]
      rfl

theorem Inv.advance_refill (hinv : Inv k bases larges g) (v : Variant) (w : World)
    {available : TransferList} (hpc : k.pc t = .refill r c capacity cache available) :
    Progresses v w k t g := by
  obtain ⟨s, rest, a, ys, zs, hrefill, -, -, hinv'⟩ := hinv.refillAndTake hpc
  refine ⟨_, ?_, _, _, _, hinv', Foreign.cache _ _ _⟩
  simp only [advance, hpc, hrefill, Option.bind_eq_bind, Option.bind_some]

/-- The rest is published and the block handed out. -/
theorem Inv.publishRest (hinv : Inv k bases larges g) {available : TransferList} {block : Ptr}
    (hpc : k.pc t = .publishRest r c available block) :
    ∃ a s₁ s₂, block = some a ∧ transferMutexPublish k.state c available = some s₁ ∧
      setRequestedSize s₁ a r.size = some s₂ ∧ Quiet k s₂ ∧
      ∃ g', Inv (k.goto t s₂ (.deliver r a)) bases larges g' ∧ Foreign t g g' := by
  have hmine := hinv.carries_at hpc
  have hfits := hinv.fits_at hpc
  obtain ⟨a, ys, rfl, hlist, howns⟩ := hmine
  obtain ⟨s₁, hpublish, hquiet₁, hframe, hnext⟩ := hinv.publish (c := c) [a] howns
    (by rw [hlist]; exact List.perm_append_singleton a ys) (by rw [hpc]; rfl)
  have hnotMem : a ∉ ys := by
    have hnodup := hinv.placed.nodup (.inflight t)
    rw [hlist] at hnodup
    exact (List.nodup_cons.mp hnodup).1
  have hinv₁ := hnext (.hand r c a) (by rw [hpc]; exact .of_request rfl rfl Iff.rfl)
    (by rw [hpc]; rfl) (fun e he => he.elim) hfits
    (Pc.carries_hand r c a _) fun b hb => by
      rw [List.mem_singleton.mp hb]
      apply Pc.admits_of_free (c := c) rfl
      have hfree := hinv.free_of_inflight (c := c) (by rw [hpc]; rfl) (a := a) (by simp [hlist])
      exact hfree.congr hframe.slab (hframe.size hnotMem)
  obtain ⟨s₂, hset, hquiet₂, hinv₂⟩ := hinv₁.handOut (t := t) (r := r) (c := c) .clear
    (a := a) (by rw [Config.goto_pc]; rfl) replace₂_right
  rw [Config.goto_goto] at hinv₂
  exact ⟨a, s₁, s₂, rfl, hpublish, hset, Quiet.trans (j := k.goto t s₁ (.hand r c a)) hquiet₁ rfl hquiet₂,
    _, hinv₂, Foreign.shared _ _ _⟩

theorem Inv.advance_publishRest (hinv : Inv k bases larges g) (v : Variant) (w : World)
    {available : TransferList} {block : Ptr} (hpc : k.pc t = .publishRest r c available block) :
    Progresses v w k t g := by
  obtain ⟨a, s₁, s₂, rfl, hpublish, hset, -, g', hinv', hforeign⟩ := hinv.publishRest hpc
  refine ⟨_, ?_, _, _, _, hinv', hforeign⟩
  simp only [advance, hpc, hpublish, hset, Option.bind_eq_bind, Option.bind_some]

theorem Inv.advance_allocateLarge (hinv : Inv k bases larges g) (v : Variant) (w : World)
    (hpc : k.pc t = .allocateLarge r) : Progresses v w k t g := by
  have hmine : g (.inflight t) = [] := hinv.carries_at hpc
  have hfits := hinv.fits_at hpc
  rcases hinv.allocateLarge w hmine hfits.1 (by rw [hpc]; rfl)
      (fun a => by rw [hpc]; exact .of_request rfl rfl Iff.rfl) with
    ⟨s, hfailed, errno, queries, outcomes, rfl⟩ | ⟨s, a, hmapped, -, -, hinv'⟩
  · refine ⟨_, by simp only [advance, hpc, hfailed]; rfl, bases, larges, g, ?_, Foreign.refl _ _⟩
    have hinv' := hinv.giveUp k.registryOwner hmine (by rw [hpc]; rfl) (by rw [hpc]; rfl)
      (hinv.outside_registry (by rw [hpc]; exact fun h => h.elim))
    exact hinv'.congr ⟨rfl, rfl, rfl, rfl, rfl, rfl, rfl, rfl, rfl, rfl, rfl, rfl, rfl⟩
  · refine ⟨_, ?_, _, _, _, hinv', Foreign.inflight _⟩
    simp only [advance, hpc, hmapped, blockFromPayload_blockPayload]

theorem Inv.allocateSmallLocked (hinv : Inv k bases larges g) (w : World)
    (hpc : k.pc t = .allocateSmall r c capacity) :
    (∃ s, allocateSmallLocked w k.state t r.size c capacity = some (s.setErrno t .ENOMEM, none) ∧
        OsNoise k.state s ∧ g (.shared c) = [] ∧
        slabCreate w k.state t c (sizeClassCapacities c) = (s, none)) ∨
      (∃ a rest s, allocateSmallLocked w k.state t r.size c capacity
            = some (s, blockPayload (some a)) ∧
          g (.shared c) = a :: rest ∧ Quiet k s ∧
          Inv (k.goto t s (.deliver r a)) bases larges
            (replace₂ g (.shared c) (.inflight t) rest [a])) ∨
      ∃ a s s₁ base free h g', allocateSmallLocked w k.state t r.size c capacity
          = some (s, blockPayload (some a)) ∧ KeepsLive k s.memory ∧
        (∀ base ∈ bases, s.memory.slab base = k.state.memory.slab base) ∧ g (.shared c) = [] ∧
        slabCreate w k.state t c (sizeClassCapacities c) = (s₁, some (base, free)) ∧
        s.pageQueries = s₁.pageQueries ∧ s.mapOutcomes = s₁.mapOutcomes ∧
        base ∉ bases ∧ s.memory.slab base = some h ∧ h.classIndex = c ∧
        h.slotCount = slabSlots c (w.sysconf k.state.pageQueries).toNat ∧
        Inv (k.goto t s (.deliver r a)) (base :: bases) larges g' ∧ Foreign t g g' := by
  have hfor : sizeClassFor r.size = some (c, capacity) := hinv.fits_at hpc
  obtain ⟨-, -, rfl⟩ := sizeClassFor_eq_some hfor
  have hmine : g (.inflight t) = [] := hinv.carries_at hpc
  have hchain : Chain k.state.memory.next (k.state.sharedHeads c) (g (.shared c)) :=
    hinv.holds (.shared c)
  unfold Hplf.allocateSmallLocked
  cases hlist : g (.shared c) with
  | cons a rest =>
      rw [hlist] at hchain
      have hhead : k.state.sharedHeads c = some a := hchain.1
      obtain ⟨s, hpop, hquiet, hinv'⟩ := hinv.pop (t := t) (c := c) (r := r) (a := a)
        k.state.sharedHeads (fun _ _ => rfl) (hhead ▸ hchain)
        (by rw [hlist, hmine, List.append_nil]) (fun b hb => hinv.free_of_shared (by rwa [hlist])) hfor
        (by rw [hpc]; exact .of_request rfl rfl Iff.rfl) (by rw [hpc]; rfl)
      refine Or.inr (Or.inl ⟨a, rest, s, ?_, rfl, hquiet, hinv'⟩)
      rw [hhead]
      exact hpop
  | nil =>
      rw [hlist] at hchain
      have hhead : k.state.sharedHeads c = none := hchain
      rw [hhead]
      dsimp only
      rcases hinv.createSlab w hmine c with ⟨s, hfailed, hnoise⟩ |
        ⟨s, list, base, h, hcreated, hkeeps, hslabs, hclass, hcount, hnotMem, hheader, howns, hne,
          hnext⟩
      · rw [createRegisteredSlab_none hfailed]
        exact Or.inl ⟨s, rfl, hnoise, rfl, rfl⟩
      · obtain ⟨s₁, slab, hcreate, hregister⟩ := createRegisteredSlab_some hcreated
        rw [hcreate]
        right
        right
        -- The new slots pass through the hands of the call on their way to the shared list.
        have hinv₁ := hnext (.refill r c (sizeClassCapacities c) (cacheCurrent k.state t) list)
          (by rw [hpc]; exact .of_request rfl rfl Iff.rfl) (by rw [hpc]; rfl) (fun _ h => h.elim)
          ⟨hfor, rfl⟩ ⟨howns, hne⟩ rfl
        obtain ⟨a, rest, hslots⟩ := List.exists_cons_of_ne_nil hne
        have hfirst : list.first = some a := by
          have hfirst := howns.chain
          rw [hslots] at hfirst
          exact hfirst.1
        have hmine₁ : Function.update g (.inflight t) (h.slots base).reverse (.inflight t)
            = a :: rest := by
          rw [Function.update_self, hslots]
        have hshared₁ : Function.update g (.inflight t) (h.slots base).reverse (.shared c) = [] := by
          rw [Function.update_of_ne (by simp), hlist]
        obtain ⟨s₂, hpop, hquiet, hinv₂⟩ := hinv₁.pop (t := t) (c := c) (r := r) (a := a)
          (Function.update s.sharedHeads c (some a))
          (fun e he => Function.update_of_ne he _ _)
          (by
            have hchain' := howns.chain
            rw [hslots, hfirst] at hchain'
            exact hchain')
          (by rw [hshared₁, hmine₁, List.nil_append])
          (fun b hb => hinv₁.free_of_inflight (by rw [Config.goto_pc]; rfl) (by rwa [hmine₁])) hfor
          (by rw [Config.goto_pc]; exact .of_request rfl rfl Iff.rfl) (by rw [Config.goto_pc]; rfl)
        rw [Config.goto_goto] at hinv₂
        have hregistered : ∃ m, s = { s₁ with memory := m, slabs := some slab } := by
          obtain ⟨m, -, heq⟩ := Option.bind_eq_some_iff.mp hregister
          exact ⟨m, (Option.some.inj heq).symm⟩
        obtain ⟨m, hm⟩ := hregistered
        have hbase : slab = base := by
          have hinit := hinv₁.storage.registry.1
          rw [Config.goto_state, hm] at hinit
          exact Option.some.inj hinit
        subst hbase
        obtain ⟨_, _, _, _, hlists⟩ := hquiet.lists
        refine ⟨a, s₂, s₁, slab, list.first, h, _, ?_, ?_, ?_, rfl, rfl, ?_, ?_, hnotMem, ?_, hclass,
          hcount, hinv₂, (Foreign.inflight _).trans (Foreign.shared _ _ _)⟩
        · simp only [hregister, hfirst, Option.bind_eq_bind, Option.bind_some]
          exact hpop
        · exact hkeeps.trans (j := k.goto t s (.refill r c (sizeClassCapacities c)
            (cacheCurrent k.state t) list)) rfl hquiet.keepsLive
        · intro base hbase
          rw [hquiet.slab]
          exact hslabs base hbase
        · rw [hlists, Config.goto_state, hm]
        · rw [hlists, Config.goto_state, hm]
        · rw [hquiet.slab]
          exact hheader

theorem Inv.advance_allocateSmall_locked (hinv : Inv k bases larges g) (w : World)
    (hpc : k.pc t = .allocateSmall r c capacity) : Progresses .locked w k t g := by
  rcases hinv.allocateSmallLocked w hpc with ⟨s, hfailed, ⟨errno, queries, outcomes, rfl⟩, -⟩ |
    ⟨a, rest, s, hpop, -, -, hinv'⟩ | ⟨a, s, s₁, base, free, h, g', hcreated, -, -, -, -, -, -, -, -, -, -, hinv',
      hforeign⟩
  · refine ⟨_, by
      simp only [advance, hpc, hfailed, Option.bind_eq_bind, Option.bind_some]
      rfl, bases, larges, g, ?_, Foreign.refl _ _⟩
    have hmine : g (.inflight t) = [] := hinv.carries_at hpc
    have hinv' := hinv.giveUp k.registryOwner hmine (by rw [hpc]; rfl) (by rw [hpc]; rfl)
      (hinv.outside_registry (by rw [hpc]; exact fun h => h.elim))
    exact hinv'.congr ⟨rfl, rfl, rfl, rfl, rfl, rfl, rfl, rfl, rfl, rfl, rfl, rfl, rfl⟩
  · refine ⟨_, ?_, _, _, _, hinv', Foreign.shared _ _ _⟩
    simp only [advance, hpc, hpop, Option.bind_eq_bind, Option.bind_some,
      blockFromPayload_blockPayload]
  · refine ⟨_, ?_, _, _, _, hinv', hforeign⟩
    simp only [advance, hpc, hcreated, Option.bind_eq_bind, Option.bind_some,
      blockFromPayload_blockPayload]

/-! ### Delivery -/

omit [DecidableEq Tid] in
theorem Inv.argument_block (hinv : Inv k bases larges g) {a : Nat}
    (hargument : (k.pc t).argument = some a) :
    ∃ b, k.state.memory.block a = some b :=
  hinv.exists_block (p := .live) (hinv.live_eq ▸ hinv.argument_live t a hargument)

theorem Inv.advance_deliver (hinv : Inv k bases larges g) (v : Variant) (w : World) {a : Nat}
    (hpc : k.pc t = .deliver r a) : Progresses v w k t g := by
  obtain ⟨hpop, b, hb, -, hle⟩ := hinv.deliver_size_le hpc
  have hwrite : ∀ n, n ≤ r.size → ∀ value, Inv { k with state := { k.state with
      memory := k.state.memory.writeBytes (a + 48) n value } } bases larges g := fun n hn value =>
    hinv.writePayload hpop hb value (by unfold sizeofBlock; omega) (by unfold sizeofBlock; omega)
  cases hpurpose : r.purpose with
  | malloc =>
      refine ⟨_, ?_, _, _, _, hinv.handOver .idle hpc (Or.inl rfl), Foreign.live _ _⟩
      simp only [advance, hpc, deliver, blockPayload_some, hpurpose, Option.bind_eq_bind,
        Option.bind_some]
      rfl
  | calloc =>
      refine ⟨_, ?_, _, _, _, (hwrite r.size (Nat.le_refl _) fun _ => some 0).handOver .idle hpc
        (Or.inl rfl), Foreign.live _ _⟩
      simp only [advance, hpc, deliver, blockPayload_some, hpurpose, Option.bind_eq_bind,
        Option.bind_some]
      rfl
  | realloc old =>
      obtain ⟨bold, hold⟩ := hinv.argument_block (t := t) (a := old) (by
        rw [hpc]
        simp [Pc.argument, hpurpose])
      refine ⟨_, ?_, _, _, _, (hwrite
          (if bold.requestedSize < r.size then bold.requestedSize else r.size) (by split <;> omega)
          fun i => k.state.memory.byte (old + 48 + i)).handOver (.release old) hpc
        (Or.inr ⟨old, hpurpose, rfl⟩), Foreign.live _ _⟩
      simp only [advance, hpc, deliver, blockPayload_some, hpurpose, hold, Option.bind_eq_bind,
        Option.bind_some]
      rfl

/-! ### Freeing -/

theorem osUnmap_valid (w : World) (s : State Tid) (t : Tid) {r : Mapping} (hvalid : r.Valid) :
    (∃ errno, osUnmap w s t r = ({ s with
        unmapCalls := s.unmapCalls ++ [r]
        errno := errno }, none) ∧ w.munmap s.unmapCalls.length ≠ none) ∨
      osUnmap w s t r = ({ s with
        unmapCalls := s.unmapCalls ++ [r]
        mapped := s.mapped.erase r
        memory := s.memory.clobber r.base r.length }, some r.length) ∧
        w.munmap s.unmapCalls.length = none := by
  have hpos := hvalid.base_pos
  have hlength := hvalid.length_pos
  unfold osUnmap
  rw [if_neg (by omega)]
  cases hanswer : w.munmap s.unmapCalls.length with
  | none => exact Or.inr ⟨rfl, rfl⟩
  | some e => exact Or.inl ⟨_, rfl, by simp⟩

/-- **Freeing a large block.** Its region is unmapped, or leaks if the system refuses; the other blocks
and the slabs keep their contents. -/
theorem Inv.freeLarge (hinv : Inv k bases larges g) (w : World) {a : Nat} (hpc : k.pc t = .release a)
    (ha : a ∈ larges) {b : Block} (hb : k.state.memory.block a = some b) (e : Errno) :
    ∃ s result leaked, osUnmap w k.state t b.mapping = (s, result) ∧
      ((result = none ∧ leaked = b.mapping :: k.leaked) ∨
        (result = some b.mapping.length ∧ leaked = k.leaked)) ∧
      KeepsLive { k with live := k.live.erase a } s.memory ∧
      (∀ base ∈ bases, s.memory.slab base = k.state.memory.slab base) ∧
      Inv { k.goto t (s.setErrno t e) .idle with
          live := k.live.erase a
          leaked := leaked } bases (larges.erase a) (Function.update g .live (k.live.erase a)) := by
  obtain ⟨b', hb', hat, -, hvalid⟩ := hinv.storage.large_bounds ha
  obtain rfl := Option.some.inj (hb.symm.trans hb')
  have hmapping : b.mapping = ⟨a, sizeofBlock + b.capacity⟩ := by
    rw [Block.mapping, hat.owner]
    rfl
  have hdisowned := hinv.disownLarge hpc ha hb
  rcases osUnmap_valid w k.state t (hmapping ▸ hvalid) with ⟨errno, hfailed, -⟩ | ⟨hunmapped, -⟩
  · exact ⟨_, none, _, hfailed, Or.inl ⟨rfl, rfl⟩, KeepsLive.of_eq rfl, fun _ _ => rfl, hdisowned.congr
      ⟨rfl, rfl, rfl, rfl, rfl, rfl, rfl, rfl, rfl, rfl, rfl, rfl, rfl⟩⟩
  · -- The region is nobody's by now, so clearing it disturbs nothing.
    have hapart : ∀ r' ∈ slabMappings k.state.memory bases
        ++ largeMappings k.state.memory (larges.erase a), b.mapping.Apart r' := fun r' hr' =>
      (hdisowned.storage.leaked_apart hr' List.mem_cons_self).symm
    have hkeeps := hdisowned.keepsLive_of_apart (SameOutside.clobber _ _ _) hapart
    have hheaders := hdisowned.storage.sameHeaders_of_apart (SameOutside.clobber _ _ _) hapart
    refine ⟨_, _, _, hunmapped, Or.inr ⟨rfl, rfl⟩, ⟨hkeeps.block, hkeeps.byte⟩, hheaders.slab,
      (hdisowned.unmap List.mem_cons_self).congr
        ⟨rfl, rfl, rfl, rfl, rfl, rfl, rfl, rfl, rfl, rfl, rfl, rfl, ?_⟩⟩
    exact (List.erase_cons_head ..).symm

/-- **Freeing a small block.** It ends up in the thread's cache, or in a list of its own. -/
theorem Inv.storeFreed (hinv : Inv k bases larges g) {a : Nat} (hpc : k.pc t = .release a)
    (hclass : InClass k.state.memory bases c a) (savedErrno : Errno) :
    (∃ s list, storeFreed k.state (cacheCurrent k.state t) a c (sizeClassCapacities c)
          = some (s, some list) ∧ cacheCurrent k.state t = none ∧
        ListsOnly k.state s ∧ Framed [a] k.state.memory s.memory ∧
        Inv { k.goto t s (.publishFreed c list savedErrno) with live := k.live.erase a } bases larges
          (replace₂ g .live (.inflight t) (k.live.erase a) [a])) ∨
      ∃ s d, storeFreed k.state (cacheCurrent k.state t) a c (sizeClassCapacities c)
          = some (s, none) ∧ cacheCurrent k.state t = some d ∧
        ListsOnly k.state s ∧ Framed [a] k.state.memory s.memory ∧
        ∃ g', Inv { k.goto t s (.evict c d savedErrno) with live := k.live.erase a }
          bases larges g' ∧ Foreign t g g' := by
  obtain ⟨m, hset, hframe, -, hinv₁⟩ := hinv.reclaim hpc hclass
  have hpc₁ : (k.reclaimed t m c a).pc t = .hand ⟨.malloc, sizeClassCapacities c⟩ c a := by
    simp [Config.reclaimed]
  have hset' := setRequestedSize_eq (s := k.state) hset
  cases hcurrent : cacheCurrent k.state t with
  | none =>
      obtain ⟨m₂, hset₂, hquiet, hinv₂⟩ := hinv₁.singleton hpc₁ replace₂_right savedErrno
      change m.setNextFree a none = some m₂ at hset₂
      refine Or.inl ⟨{ k.state with memory := m₂ }, ⟨some a, some a, 1⟩, ?_, rfl, ⟨_, _, _, _, rfl⟩, ?_, ?_⟩
      · simp only [Hplf.storeFreed, hset', hset₂, Option.bind_eq_bind, Option.bind_some]
      · obtain ⟨q, hq⟩ := hinv₁.exists_next (p := .inflight t) (a := a) (by simp)
        obtain ⟨m₃, hset₃, hframe₃, -⟩ := exists_setNextFree (m := m) hq none
        obtain rfl := Option.some.inj (hset₂.symm.trans hset₃)
        exact hframe.trans hframe₃
      · refine hinv₂.congr ⟨rfl, rfl, rfl, rfl, rfl, rfl, rfl, rfl, rfl, ?_, rfl, rfl, rfl⟩
        simp [Config.reclaimed, Config.goto]
  | some d =>
      obtain ⟨s, hstore, hquiet, hinv₂⟩ := hinv₁.store hpc₁ replace₂_right
        (show cacheCurrent (k.reclaimed t m c a).state t = some d from hcurrent) savedErrno
      refine Or.inr ⟨s, d, ?_, rfl, ?_, ?_, _, hinv₂.congr
        ⟨rfl, rfl, rfl, rfl, rfl, rfl, rfl, rfl, rfl, ?_, rfl, rfl, rfl⟩,
        (Foreign.live _ _).trans (Foreign.cache _ _ _)⟩
      · simp only [Hplf.storeFreed, hset', Option.bind_eq_bind, Option.bind_some]
        change ((withCache (k.reclaimed t m c a).state d _).bind _) = _
        rw [hstore]
        rfl
      · obtain ⟨_, _, _, _, heq⟩ := hquiet.lists
        exact ⟨_, _, _, _, heq⟩
      · -- The store writes the link of the freed block only.
        obtain ⟨descriptor, hmapped, hrest⟩ := Option.bind_eq_some_iff.mp hstore
        obtain ⟨⟨m', cache', _⟩, hoperation, hresult⟩ := Option.bind_eq_some_iff.mp hrest
        obtain ⟨⟨m'', cache''⟩, hstored, heq⟩ := Option.map_eq_some_iff.mp hoperation
        obtain ⟨m₃, hlink, hlast⟩ := Option.bind_eq_some_iff.mp hstored
        obtain ⟨q, hq⟩ := hinv₁.exists_next (p := .inflight t) (a := a) (by simp)
        obtain ⟨m₄, hset₄, hframe₄, -⟩ := exists_setNextFree (m := m) hq (descriptor.cache.heads c)
        obtain rfl := Option.some.inj (hset₄.symm.trans hlink)
        simp only [Option.some.injEq, Prod.mk.injEq] at hlast heq hresult
        have hs : s.memory = m₄ := by
          rw [← hresult.1]
          exact heq.1.symm.trans hlast.1.symm
        rw [hs]
        exact hframe.trans hframe₄
      · simp [Config.reclaimed, Config.goto]

theorem Inv.advance_release (hinv : Inv k bases larges g) (v : Variant) (w : World) {a : Nat}
    (hpc : k.pc t = .release a) : Progresses v w k t g := by
  have ha : a ∈ k.live := hinv.argument_live t a (by rw [hpc]; rfl)
  rcases hinv.live_cases ha with
    ⟨c, base, h, b, hbase, hh, hc, hslot, hb, hslotOf, hcapacity, hfor⟩ | ⟨b, hlarge, hb, hat, -, -⟩
  · have hclass : InClass k.state.memory bases c a := ⟨base, hbase, h, hh, hc, hslot⟩
    have howner : b.owner.slab = base := by rw [hslotOf.owner]; rfl
    cases v with
    | locked =>
        obtain ⟨s, hfree, -, -, g', hinv', hforeign⟩ := hinv.freeLocked hpc hclass
        refine ⟨({ k with live := k.live.erase a } : Config Tid).goto t
          (s.setErrno t (k.state.errno t)) .idle, ?_, bases, larges, g', hinv'.congr
          ⟨rfl, rfl, rfl, rfl, rfl, rfl, rfl, rfl, rfl, rfl, rfl, rfl, rfl⟩, hforeign⟩
        simp only [advance, hpc, release, hb, hslotOf.kind, howner, hh, hc, hfree, Option.bind_eq_bind,
          Option.bind_some]
    | cached =>
        obtain ⟨s₁, cache, hacquire, rfl, hstorage, hinv₁⟩ := hinv.acquire w (by rw [hpc]; rfl)
          (by rw [hpc]; rfl) (by rw [hpc]; exact fun _ h => h.elim) (by rw [hpc]; exact fun _ => trivial)
        rw [hpc] at hinv₁
        have hclass₁ : InClass (k.goto t s₁ (.release a)).state.memory bases c a := by
          rw [Config.goto_state, hstorage.memory]
          exact hclass
        rcases hinv₁.storeFreed (by rw [Config.goto_pc]) hclass₁ (k.state.errno t) with
          ⟨s, list, hstore, hcurrent, -, -, hinv'⟩ | ⟨s, d, hstore, hcurrent, -, -, g', hinv', hforeign⟩
        · rw [Config.goto_state] at hstore hcurrent
          refine ⟨({ k with live := k.live.erase a } : Config Tid).goto t s
            (.publishFreed c list (k.state.errno t)), ?_, bases, larges, _, hinv'.congr
            ⟨rfl, rfl, rfl, rfl, rfl, rfl, rfl, rfl, rfl, ?_, rfl, rfl, rfl⟩, Foreign.live _ _⟩
          · simp only [advance, hpc, release, hb, hslotOf.kind, howner, hh, hc, hacquire, hcapacity,
              hstore, Option.bind_eq_bind, Option.bind_some]
          · simp [Config.goto]
        · rw [Config.goto_state] at hstore hcurrent
          rw [hcurrent] at hstore
          refine ⟨({ k with live := k.live.erase a } : Config Tid).goto t s
            (.evict c d (k.state.errno t)), ?_, bases, larges, _, hinv'.congr
            ⟨rfl, rfl, rfl, rfl, rfl, rfl, rfl, rfl, rfl, ?_, rfl, rfl, rfl⟩, hforeign⟩
          · simp only [advance, hpc, release, hb, hslotOf.kind, howner, hh, hc, hacquire, hcapacity,
              hcurrent, hstore, Option.bind_eq_bind, Option.bind_some]
          · simp [Config.goto]
  · obtain ⟨s, result, leaked, hunmap, hcases, -, -, hinv'⟩ :=
      hinv.freeLarge w hpc hlarge hb (k.state.errno t)
    refine ⟨_, ?_, _, _, _, hinv', Foreign.update (by simp [Place.owner]) _⟩
    simp only [advance, hpc, release, hb, hat.kind, Option.bind_eq_bind, Option.bind_some]
    rw [show (⟨b.owner.mapping.1, b.owner.mapping.2⟩ : Mapping) = b.mapping from rfl, hunmap]
    rcases hcases with ⟨rfl, rfl⟩ | ⟨rfl, rfl⟩
    · rfl
    · rfl

/-! ### Publishing, evicting, flushing -/

/-- A call publishes all it holds and goes on. -/
theorem Inv.publishAllHeld (hinv : Inv k bases larges g) (pc : Pc) {list : TransferList}
    (howns : list.Owns k.state.memory (g (.inflight t))) (hclass : (k.pc t).listClass = some c)
    (hfollows : (k.pc t).Follows pc) (hevicting : pc.evicting = (k.pc t).evicting)
    (hemptied : ∀ e, pc.Emptied e → (k.pc t).Emptied e) (hfits : pc.Fits k.state t)
    (hcarries : ∀ m, pc.Carries m []) :
    ∃ s, transferMutexPublish k.state c list = some s ∧ Quiet k s ∧
      Inv (k.goto t s pc) bases larges
        (replace₂ g (.shared c) (.inflight t) (g (.inflight t) ++ g (.shared c)) []) := by
  obtain ⟨s, hpublish, hquiet, -, hnext⟩ := hinv.publish [] howns
    (by rw [List.append_nil]) hclass
  exact ⟨s, hpublish, hquiet, hnext pc hfollows hevicting hemptied hfits (hcarries _) (by simp)⟩

theorem Inv.advance_publishFreed (hinv : Inv k bases larges g) (v : Variant) (w : World)
    {list : TransferList} {e : Errno} (hpc : k.pc t = .publishFreed c list e) : Progresses v w k t g := by
  have hmine := hinv.carries_at hpc
  obtain ⟨s, hpublish, -, hinv'⟩ := hinv.publishAllHeld .idle hmine (by rw [hpc]; rfl)
    (by rw [hpc]; exact ⟨rfl, by simp [Pc.argument], Iff.rfl⟩) (by rw [hpc]; rfl)
    (fun _ h => h.elim) trivial fun _ => rfl
  refine ⟨_, ?_, _, _, _, hinv'.setErrno t e, Foreign.shared _ _ _⟩
  simp only [advance, hpc, hpublish, Option.bind_eq_bind, Option.bind_some]

theorem Inv.advance_evict (hinv : Inv k bases larges g) (v : Variant) (w : World) {d : Nat} {e : Errno}
    (hpc : k.pc t = .evict c d e) : Progresses v w k t g := by
  rcases hinv.evict hpc with ⟨hdone, hinv'⟩ | ⟨s, f, n, list, hevict, -, -, -, hinv'⟩
  · refine ⟨_, ?_, _, _, _, hinv'.setErrno t e, Foreign.refl _ _⟩
    simp only [advance, hpc, hdone, Option.bind_eq_bind, Option.bind_some]
  · refine ⟨_, ?_, _, _, _, hinv', Foreign.cache _ _ _⟩
    simp only [advance, hpc, hevict, Option.bind_eq_bind, Option.bind_some]

theorem Inv.advance_publishEviction (hinv : Inv k bases larges g) (v : Variant) (w : World) {d : Nat}
    {f : ClassIndex} {list : TransferList} {e : Errno}
    (hpc : k.pc t = .publishEviction c d f list e) : Progresses v w k t g := by
  have hmine := hinv.carries_at hpc
  have hfits := hinv.fits_at hpc
  obtain ⟨s, hpublish, -, hinv'⟩ := hinv.publishAllHeld (.evict c d e) hmine (by rw [hpc]; rfl)
    (by rw [hpc]; exact ⟨rfl, by simp [Pc.argument], Iff.rfl⟩) (by rw [hpc]; rfl)
    (fun _ h => h.elim) hfits fun _ => rfl
  refine ⟨_, ?_, _, _, _, hinv', Foreign.shared _ _ _⟩
  simp only [advance, hpc, hpublish, Option.bind_eq_bind, Option.bind_some]

/-- The flush of a teardown has come to its end. -/
theorem Inv.flushed (hinv : Inv k bases larges g) {d : Nat} (hpc : k.pc t = .flush d [] true) :
    Inv (k.goto t k.state (.unmapDescriptor d)) bases larges g := by
  have hmine : g (.inflight t) = [] := hinv.carries_at hpc
  refine hinv.retarget (t := t) (Config.goto_localStep rfl rfl rfl (Framed.refl _ _)
    (ListsOnly.refl _) (fun _ _ => rfl) (by rw [hpc]; rfl)) rfl rfl rfl ?_ ?_ ?_ ?_ ?_ ?_ ?_
  · simp only [Config.goto_pc, hmine]
    rfl
  · simp [hmine]
  · intro e _
    exact hinv.emptied t e (by rw [hpc]; exact List.not_mem_nil)
  · simp only [Config.goto_pc, hpc]
    rfl
  · have hfits := hinv.fits_at hpc
    simp only [Config.goto_pc]
    exact hfits
  · simp [Pc.argument]
  · refine SameCall.inRegistry ⟨fun u hu => Config.goto_pc_of_ne hu _ _, ?_, ?_, rfl⟩ hinv
    · simp [Pc.argument]
    · rw [Config.goto_pc, hpc]
      exact Iff.rfl

theorem Inv.advance_flush_nil (hinv : Inv k bases larges g) (v : Variant) (w : World) {d : Nat}
    {teardown : Bool} (hpc : k.pc t = .flush d [] teardown) : Progresses v w k t g := by
  cases teardown with
  | false =>
      have hmine : g (.inflight t) = [] := hinv.carries_at hpc
      refine ⟨_, by simp only [advance, hpc]; rfl, _, _, _, hinv.giveUp k.registryOwner hmine (by rw [hpc]; rfl)
        (by rw [hpc]; rfl) (hinv.outside_registry (by rw [hpc]; exact fun h => h.elim)),
        Foreign.refl _ _⟩
  | true =>
      exact ⟨_, by simp only [advance, hpc, if_true], bases, larges, g, hinv.flushed hpc,
        Foreign.refl _ _⟩

theorem Inv.advance_flush_cons (hinv : Inv k bases larges g) (v : Variant) (w : World) {d : Nat}
    {rest : List ClassIndex} {teardown : Bool} (hpc : k.pc t = .flush d (c :: rest) teardown) :
    Progresses v w k t g := by
  rcases hinv.flushExtract hpc with ⟨hempty, hinv'⟩ | ⟨s, list, hextract, -, -, hinv'⟩
  · refine ⟨_, ?_, _, _, _, hinv', Foreign.refl _ _⟩
    simp only [advance, hpc, hempty, Option.bind_eq_bind, Option.bind_some]
  · refine ⟨_, ?_, _, _, _, hinv', Foreign.cache _ _ _⟩
    simp only [advance, hpc, hextract, Option.bind_eq_bind, Option.bind_some]

/-- The blocks extracted by a flush are published. -/
theorem Inv.publishFlush (hinv : Inv k bases larges g) {d : Nat} {list : TransferList}
    {rest : List ClassIndex} {teardown : Bool} (hpc : k.pc t = .publishFlush d c list rest teardown) :
    ∃ s, transferMutexPublish k.state c list = some s ∧ Quiet k s ∧
      Inv (k.goto t s (.flush d rest teardown)) bases larges
        (replace₂ g (.shared c) (.inflight t) (g (.inflight t) ++ g (.shared c)) []) := by
  have hmine := hinv.carries_at hpc
  have hfits := hinv.fits_at hpc
  exact hinv.publishAllHeld (.flush d rest teardown) hmine (by rw [hpc]; rfl)
    (by rw [hpc]; exact ⟨by cases teardown <;> rfl, by simp [Pc.argument], Iff.rfl⟩) (by rw [hpc]; rfl)
    (by rw [hpc]; exact fun _ h => h) (by cases teardown <;> exact hfits) fun _ => rfl

theorem Inv.advance_publishFlush (hinv : Inv k bases larges g) (v : Variant) (w : World) {d : Nat}
    {list : TransferList} {rest : List ClassIndex} {teardown : Bool}
    (hpc : k.pc t = .publishFlush d c list rest teardown) : Progresses v w k t g := by
  obtain ⟨s, hpublish, -, hinv'⟩ := hinv.publishFlush hpc
  refine ⟨_, ?_, _, _, _, hinv', Foreign.shared _ _ _⟩
  simp only [advance, hpc, hpublish, Option.bind_eq_bind, Option.bind_some]

theorem Inv.advance_unmapDescriptor (hinv : Inv k bases larges g) (v : Variant) (w : World) {d : Nat}
    (hpc : k.pc t = .unmapDescriptor d) : Progresses v w k t g := by
  obtain ⟨s, hunmap, hinv'⟩ := hinv.unmapDescriptor w hpc
  refine ⟨_, ?_, _, _, _, hinv', Foreign.refl _ _⟩
  simp only [advance, hpc, hunmap, Option.bind_eq_bind, Option.bind_some]

/-- The thread has no action: it is between calls, or waits for the registry mutex. -/
def Config.Waits (k : Config Tid) (t : Tid) : Prop :=
  k.pc t = .idle ∨ (∃ r c capacity cache, k.pc t = .lockRegistry r c capacity cache) ∧
    k.registryOwner ≠ none

/-- **Progress.** Every thread that does not wait has an action that succeeds. -/
theorem Inv.progresses (hinv : Inv k bases larges g) (v : Variant) (w : World) (t : Tid)
    (hbusy : ¬ k.Waits t) : Progresses v w k t g := by
  cases hpc : k.pc t with
  | idle => exact absurd (Or.inl hpc) hbusy
  | allocateSmall r c capacity =>
      cases v with
      | locked => exact hinv.advance_allocateSmall_locked w hpc
      | cached => exact hinv.advance_allocateSmall_cached w hpc
  | detach => exact hinv.advance_detach v w hpc
  | lockRegistry r c capacity cache =>
      refine hinv.advance_lockRegistry v w hpc (by_contra fun howner => hbusy (Or.inr ⟨?_, howner⟩))
      exact ⟨r, c, capacity, cache, hpc⟩
  | recheck => exact hinv.advance_recheck v w hpc
  | createSlab => exact hinv.advance_createSlab v w hpc
  | unlockRegistry => exact hinv.advance_unlockRegistry v w hpc
  | refill => exact hinv.advance_refill v w hpc
  | publishRest => exact hinv.advance_publishRest v w hpc
  | allocateLarge => exact hinv.advance_allocateLarge v w hpc
  | deliver => exact hinv.advance_deliver v w hpc
  | release => exact hinv.advance_release v w hpc
  | publishFreed => exact hinv.advance_publishFreed v w hpc
  | evict => exact hinv.advance_evict v w hpc
  | publishEviction => exact hinv.advance_publishEviction v w hpc
  | flush d rest teardown =>
      cases rest with
      | nil => exact hinv.advance_flush_nil v w hpc
      | cons => exact hinv.advance_flush_cons v w hpc
  | publishFlush => exact hinv.advance_publishFlush v w hpc
  | unmapDescriptor => exact hinv.advance_unmapDescriptor v w hpc

/-- A waiting thread does nothing. -/
theorem advance_of_waits (v : Variant) (w : World) (hwaits : k.Waits t) : advance v w k t = none := by
  rcases hwaits with hidle | ⟨⟨r, c, capacity, cache, hpc⟩, howner⟩
  · simp [advance, hidle]
  · simp [advance, hpc, howner]

/-- **One action.** An action keeps the invariant and moves nothing that belongs to another thread. -/
theorem Inv.of_advance (hinv : Inv k bases larges g) {k' : Config Tid}
    (hadvance : advance v w k t = some k') :
    ∃ bases' larges' g', Inv k' bases' larges' g' ∧ Foreign t g g' := by
  have hbusy : ¬ k.Waits t := fun h => by
    rw [advance_of_waits v w h] at hadvance
    simp at hadvance
  obtain ⟨k'', hadvance', hnext⟩ := hinv.progresses v w t hbusy
  obtain rfl := Option.some.inj (hadvance.symm.trans hadvance')
  exact hnext

theorem Inv.safe_of_advance (hinv : Inv k bases larges g) {k' : Config Tid}
    (hadvance : advance v w k t = some k') : Safe k' := by
  obtain ⟨bases', larges', g', hinv', -⟩ := hinv.of_advance hadvance
  exact ⟨bases', larges', g', hinv'⟩

end Hplf
