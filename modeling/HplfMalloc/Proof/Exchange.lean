import HplfMalloc.Proof.ListSteps

/-!
# Exchanging blocks with a place

Almost every action of a call moves blocks between what the call holds and one other place: a shared list,
a list of the thread's own cache, or the clients. `Inv.exchange` is the invariant through such an action,
and `Inv.goto` through one that moves nothing.
-/

namespace Hplf

open Lib Memory

variable {Tid : Type} [DecidableEq Tid]
variable {k k' : Config Tid} {t : Tid} {bases larges nodes : List Nat} {g : Place Tid → List Nat}

@[simp]
theorem Config.goto_state (s : State Tid) (pc : Pc) : (k.goto t s pc).state = s := rfl

@[simp]
theorem Config.goto_pc (s : State Tid) (pc : Pc) : (k.goto t s pc).pc t = pc :=
  Function.update_self _ _ _

theorem Config.goto_pc_of_ne {u : Tid} (hu : u ≠ t) (s : State Tid) (pc : Pc) :
    (k.goto t s pc).pc u = k.pc u :=
  Function.update_of_ne hu _ _

@[simp]
theorem Config.goto_live (s : State Tid) (pc : Pc) : (k.goto t s pc).live = k.live := rfl

@[simp]
theorem Config.goto_leaked (s : State Tid) (pc : Pc) : (k.goto t s pc).leaked = k.leaked := rfl

@[simp]
theorem Config.goto_registryOwner (s : State Tid) (pc : Pc) :
    (k.goto t s pc).registryOwner = k.registryOwner := rfl

/-! ### A thread at a point of its call -/

section

omit [DecidableEq Tid]

theorem Inv.mine (hinv : Inv k bases larges g) : (k.pc t).Carries k.state.memory (g (.inflight t)) :=
  hinv.holds (.inflight t)

/-- What a thread carries, and what fits, at a given point of its call. -/
theorem Inv.carries_at (hinv : Inv k bases larges g) {pc : Pc} (hpc : k.pc t = pc) :
    pc.Carries k.state.memory (g (.inflight t)) :=
  hpc ▸ hinv.mine

theorem Inv.fits_at (hinv : Inv k bases larges g) {pc : Pc} (hpc : k.pc t = pc) : pc.Fits k.state t :=
  hpc ▸ (hinv.thread t).fits

end

/-! ### Work on the lists -/

/-- Only storage, shared heads, descriptors and the error number differ. -/
def ListsOnly (s s' : State Tid) : Prop :=
  ∃ memory sharedHeads descriptor errno, s' = { s with
    memory := memory
    sharedHeads := sharedHeads
    descriptor := descriptor
    errno := errno }

omit [DecidableEq Tid] in
theorem ListsOnly.refl (s : State Tid) : ListsOnly s s := ⟨_, _, _, _, rfl⟩

/-- The call goes on: it was given what it still works on, and it holds the registry mutex as before. -/
structure SameCall (k k' : Config Tid) (t : Tid) : Prop where
  others : ∀ u, u ≠ t → k'.pc u = k.pc u
  argument : ∀ a, (k'.pc t).argument = some a → (k.pc t).argument = some a
  registry : (k'.pc t).InRegistry ↔ (k.pc t).InRegistry
  owner : k'.registryOwner = k.registryOwner

theorem SameCall.inRegistry (hcall : SameCall k k' t) (hinv : Inv k bases larges g) (u : Tid) :
    (k'.pc u).InRegistry ↔ k'.registryOwner = some u := by
  rw [hcall.owner, ← hinv.registry u]
  by_cases hu : u = t
  · subst hu
    exact hcall.registry
  · rw [hcall.others u hu]

theorem Config.goto_localStep {s : State Tid} {pc : Pc} (hpc : k'.pc = Function.update k.pc t pc)
    (hstate : k'.state = s) (hleaked : k'.leaked = k.leaked)
    (hframe : Framed nodes k.state.memory s.memory) (hlists : ListsOnly k.state s)
    (hdescriptor : ∀ d, k.cacheOf t ≠ some d → s.descriptor d = k.state.descriptor d)
    (hteardown : pc.teardown = (k.pc t).teardown) : LocalStep k k' t nodes := by
  subst hstate
  obtain ⟨_, _, _, _, heq⟩ := hlists
  refine ⟨⟨?_, ?_, ?_, ?_, hdescriptor, ?_, ?_⟩, hframe, ?_, ?_, hleaked⟩
  · rw [heq]
  · rw [heq]
  · rw [heq]
  · rw [heq]
  · intro u hu
    rw [hpc, Function.update_of_ne hu]
  · simp only [Config.cacheOf, cacheCurrent, hpc, Function.update_self, hteardown, heq]
  · rw [heq]
  · rw [heq]

omit [DecidableEq Tid] in
theorem DescriptorOk.congr {s s' : State Tid} {pc pc' : Pc} {d : Nat} {descriptor : CacheDescriptor}
    (hok : DescriptorOk s pc d descriptor) (hdescriptor : s'.descriptor d = s.descriptor d)
    (hmapped : s'.descriptorMapped = s.descriptorMapped) (hevicting : pc'.evicting = pc.evicting) :
    DescriptorOk s' pc' d descriptor :=
  ⟨hdescriptor.trans hok.mapped, hok.base, hmapped ▸ hok.region, hok.sound, by
    unfold CapsFor
    rw [hevicting]
    exact hok.caps⟩

/-- The places whose blocks thread `t` may exchange with those it holds. -/
def Place.Near (t : Tid) : Place Tid → Prop
  | .live | .shared _ => True
  | .cache u _ => u = t
  | .inflight _ => False

omit [DecidableEq Tid] in
theorem Place.Near.ne_inflight {p : Place Tid} (hnear : p.Near t) (u : Tid) : p ≠ .inflight u := by
  rintro rfl
  exact hnear

/-- **Exchange.** The invariant after the call of thread `t` rearranged its own blocks and those of `p`. -/
theorem Inv.exchange (hinv : Inv k bases larges g) (hstep : LocalStep k k' t nodes)
    (hcall : SameCall k k' t) {p : Place Tid} (hnear : p.Near t) {ys zs : List Nat}
    (hperm : (ys ++ zs).Perm (g p ++ g (.inflight t)))
    (hnodes : ∀ a ∈ nodes, a ∈ g p ∨ a ∈ g (.inflight t))
    (hsame : ∀ q, q ≠ p → q ≠ .inflight t → SameHead k k' q)
    (hlive : ∀ a ∈ k.live, a ∉ k'.live → (k.pc t).argument = some a ∧ (k'.pc t).argument = none)
    (hholds : Holds k' p ys) (hcarries : (k'.pc t).Carries k'.state.memory zs)
    (hadmits : ∀ a ∈ ys, Admits k' bases larges p a)
    (hadmitsPc : ∀ a ∈ zs, (k'.pc t).Admits k'.state.memory bases larges a)
    (hemptied : ∀ c, (k'.pc t).Emptied c → replace₂ g p (.inflight t) ys zs (.cache t c) = [])
    (hdescriptor : ∀ d, k'.cacheOf t = some d →
      ∃ descriptor, DescriptorOk k'.state (k'.pc t) d descriptor)
    (hfits : (k'.pc t).Fits k'.state t) :
    Inv k' bases larges (replace₂ g p (.inflight t) ys zs) := by
  have hne := hnear.ne_inflight t
  refine hinv.local hstep (fun q => q = p ∨ q = .inflight t) (hinv.placed.move hne hperm)
    (fun a => exists_mem_replace₂ hne hperm) ?_ ?_ ?_ hemptied ?_ hdescriptor hfits ?_ ?_
    (hcall.inRegistry hinv)
  · intro a ha
    rcases hnodes a ha with h | h
    · exact ⟨p, Or.inl rfl, h⟩
    · exact ⟨_, Or.inr rfl, h⟩
  · intro q hq
    obtain ⟨hqp, hqt⟩ := not_or.mp hq
    exact ⟨replace₂_of_ne hqp hqt, hsame q hqp hqt⟩
  · rintro q (rfl | rfl)
    · rw [replace₂_left hne]
      exact ⟨hholds, hadmits⟩
    · rw [replace₂_right]
      exact ⟨hcarries, hadmitsPc⟩
  · rintro u hu c (rfl | heq)
    · exact hu hnear
    · simp at heq
  · intro a ha
    have hold := hcall.argument a ha
    refine ⟨by_contra fun hdead => ?_, fun u hu hother => hu (hinv.argument_unique u t a hother hold)⟩
    have hnone := (hlive a (hinv.argument_live t a hold) hdead).2
    rw [ha] at hnone
    simp at hnone
  · intro u hu a ha
    refine by_contra fun hdead => hu ?_
    exact hinv.argument_unique u t a ha (hlive a (hinv.argument_live u a ha) hdead).1

/-- The invariant after an action of thread `t` that moves nothing. -/
theorem Inv.retarget (hinv : Inv k bases larges g) (hstep : LocalStep k k' t [])
    (hlive : k'.live = k.live) (hheads : k'.state.sharedHeads = k.state.sharedHeads)
    (hdescriptors : k'.state.descriptor = k.state.descriptor)
    (hcarries : (k'.pc t).Carries k'.state.memory (g (.inflight t)))
    (hadmits : ∀ a ∈ g (.inflight t), (k'.pc t).Admits k'.state.memory bases larges a)
    (hemptied : ∀ c, (k'.pc t).Emptied c → g (.cache t c) = [])
    (hevicting : (k'.pc t).evicting = (k.pc t).evicting)
    (hfits : (k'.pc t).Fits k'.state t)
    (hargument : ∀ a, (k'.pc t).argument = some a →
      a ∈ k.live ∧ ∀ u, u ≠ t → (k.pc u).argument ≠ some a)
    (hregistry : ∀ u, (k'.pc u).InRegistry ↔ k'.registryOwner = some u) :
    Inv k' bases larges g := by
  refine hinv.local hstep (fun q => q = .inflight t) hinv.placed (fun a => Iff.rfl) (by simp) ?_ ?_
    hemptied (by simp) ?_ hfits ?_ ?_ hregistry
  · intro q hq
    refine ⟨rfl, hstep.sameHead hinv hq (fun _ => hlive) (fun c _ => congrFun hheads c) fun c _ => ?_⟩
    exact ⟨hstep.cacheOf, fun d _ descriptor hmapped =>
      ⟨descriptor, by rw [hdescriptors, hmapped], rfl, rfl⟩⟩
  · rintro q rfl
    exact ⟨hcarries, hadmits⟩
  · intro d hd
    rw [hstep.cacheOf] at hd
    obtain ⟨descriptor, hok⟩ := (hinv.thread t).descriptor d hd
    exact ⟨descriptor, hok.congr (congrFun hdescriptors d) hstep.descriptorMapped hevicting⟩
  · intro a ha
    rw [hlive]
    exact hargument a ha
  · intro u _ a ha
    rw [hlive]
    exact hinv.argument_live u a ha

/-! ### Irrelevant data -/

/-- The configurations agree in everything the invariant speaks about: error numbers, the counters of
system calls and the last calls may differ. -/
structure SameHeap (k k' : Config Tid) : Prop where
  memory : k'.state.memory = k.state.memory
  mapped : k'.state.mapped = k.state.mapped
  descriptorMapped : k'.state.descriptorMapped = k.state.descriptorMapped
  slabs : k'.state.slabs = k.state.slabs
  sharedHeads : k'.state.sharedHeads = k.state.sharedHeads
  descriptor : k'.state.descriptor = k.state.descriptor
  currentState : k'.state.currentState = k.state.currentState
  currentDescriptor : k'.state.currentDescriptor = k.state.currentDescriptor
  keyValue : k'.state.keyValue = k.state.keyValue
  pc : k'.pc = k.pc
  live : k'.live = k.live
  registryOwner : k'.registryOwner = k.registryOwner
  leaked : k'.leaked = k.leaked

omit [DecidableEq Tid] in
theorem SameHeap.cacheOf (hsame : SameHeap k k') (u : Tid) : k'.cacheOf u = k.cacheOf u := by
  simp only [Config.cacheOf, cacheCurrent, hsame.pc, hsame.currentState, hsame.currentDescriptor]

omit [DecidableEq Tid] in
theorem Inv.congr (hinv : Inv k bases larges g) (hsame : SameHeap k k') :
    Inv k' bases larges g := by
  have hstorage : Storage k'.state k'.leaked bases larges := by
    rw [hsame.leaked]
    have hframe : Framed [] k.state.memory k'.state.memory := by
      rw [hsame.memory]
      exact Framed.refl _ _
    exact hinv.storage.congr hframe hsame.slabs hsame.mapped hsame.descriptorMapped
  refine ⟨hstorage, hinv.placed, ?_, ?_, ?_, ?_, ?_, ?_, ?_, ?_, ?_⟩
  · rw [hsame.memory]
    exact hinv.population
  · intro p
    refine (hinv.holds p).congr ?_ fun a _ => by rw [hsame.memory]
    cases p with
    | live => exact hsame.live
    | shared c => exact congrFun hsame.sharedHeads c
    | cache u c =>
        exact ⟨hsame.cacheOf u, fun d _ descriptor hmapped =>
          ⟨descriptor, by rw [hsame.descriptor, hmapped], rfl, rfl⟩⟩
    | inflight u => exact congrFun hsame.pc u
  · intro p a ha
    have hadmits := hinv.admits p a ha
    cases p with
    | inflight u => rwa [Admits, hsame.memory, hsame.pc]
    | _ => rwa [Admits, hsame.memory]
  · intro u c hu
    rw [hsame.pc] at hu
    exact hinv.emptied u c hu
  · intro u
    refine (hinv.thread u).congr (congrFun hsame.pc u) (congrFun hsame.currentState u)
      (congrFun hsame.currentDescriptor u) (congrFun hsame.keyValue u) fun d _ => ?_
    exact ⟨congrFun hsame.descriptor d, fun r _ hr => hsame.descriptorMapped ▸ hr⟩
  · intro u v d hu hv
    rw [hsame.cacheOf] at hu hv
    exact hinv.owner_unique u v d hu hv
  · intro u a ha
    rw [hsame.pc] at ha
    rw [hsame.live]
    exact hinv.argument_live u a ha
  · intro u v a hu hv
    rw [hsame.pc] at hu hv
    exact hinv.argument_unique u v a hu hv
  · intro u
    rw [hsame.pc, hsame.registryOwner]
    exact hinv.registry u

/-- Setting the error number on the way to the next action is not noticed. -/
theorem Inv.setErrno {s : State Tid} {pc : Pc} (hinv : Inv (k.goto t s pc) bases larges g)
    (u : Tid) (e : Errno) : Inv (k.goto t (s.setErrno u e) pc) bases larges g :=
  hinv.congr ⟨rfl, rfl, rfl, rfl, rfl, rfl, rfl, rfl, rfl, rfl, rfl, rfl, rfl⟩

/-- What an action on free blocks leaves alone: the system, the lifecycle data, the slab headers, the
bytes, and every block a client holds. -/
structure Quiet (k : Config Tid) (s : State Tid) : Prop where
  lists : ListsOnly k.state s
  slab : s.memory.slab = k.state.memory.slab
  byte : s.memory.byte = k.state.memory.byte
  live : ∀ a ∈ k.live, s.memory.block a = k.state.memory.block a

section

omit [DecidableEq Tid]

theorem Quiet.refl : Quiet k k.state := ⟨ListsOnly.refl _, rfl, rfl, fun _ _ => rfl⟩

theorem Quiet.trans {j : Config Tid} {s : State Tid} (h₁ : Quiet k j.state) (hlive : j.live = k.live)
    (h₂ : Quiet j s) : Quiet k s := by
  refine ⟨?_, h₂.slab.trans h₁.slab, h₂.byte.trans h₁.byte, fun a ha => ?_⟩
  · obtain ⟨_, _, _, _, heq₁⟩ := h₁.lists
    obtain ⟨_, _, _, _, heq₂⟩ := h₂.lists
    rw [heq₁] at heq₂
    exact ⟨_, _, _, _, heq₂⟩
  · exact (h₂.live a (hlive ▸ ha)).trans (h₁.live a ha)

theorem Quiet.of_framed {s : State Tid} (hlists : ListsOnly k.state s)
    (hframe : Framed nodes k.state.memory s.memory) (hnodes : ∀ a ∈ nodes, a ∉ k.live) :
    Quiet k s :=
  ⟨hlists, hframe.slab, hframe.byte, fun a ha => hframe.block a fun hmem => hnodes a hmem ha⟩

end

/-- Every block a client holds keeps its prefix and its requested bytes. -/
structure KeepsLive (k : Config Tid) (m : Memory) : Prop where
  block : ∀ a ∈ k.live, m.block a = k.state.memory.block a
  byte : ∀ a ∈ k.live, ∀ b, k.state.memory.block a = some b → ∀ i, i < b.requestedSize →
    m.byte (a + sizeofBlock + i) = k.state.memory.byte (a + sizeofBlock + i)

section

omit [DecidableEq Tid]

theorem KeepsLive.of_eq {m : Memory} (heq : m = k.state.memory) : KeepsLive k m := by
  subst heq
  exact ⟨fun _ _ => rfl, fun _ _ _ _ _ _ => rfl⟩

theorem KeepsLive.trans {j : Config Tid} {m : Memory} (h₁ : KeepsLive k j.state.memory)
    (hlive : j.live = k.live) (h₂ : KeepsLive j m) : KeepsLive k m := by
  refine ⟨fun a ha => (h₂.block a (hlive ▸ ha)).trans (h₁.block a ha), fun a ha b hb i hi => ?_⟩
  have hb' : j.state.memory.block a = some b := (h₁.block a ha).trans hb
  exact (h₂.byte a (hlive ▸ ha) b hb' i hi).trans (h₁.byte a ha b hb i hi)

theorem Quiet.keepsLive {s : State Tid} (hquiet : Quiet k s) : KeepsLive k s.memory :=
  ⟨hquiet.live, fun _ _ _ _ _ _ => by rw [hquiet.byte]⟩

theorem Inv.not_live (hinv : Inv k bases larges g) {p : Place Tid} (hp : p ≠ .live) {a : Nat}
    (ha : a ∈ g p) : a ∉ k.live := by
  intro hlive
  have hholds : g .live = k.live := hinv.holds .live
  rw [← hholds] at hlive
  exact hp (hinv.placed.disjoint ha hlive)

end

/-- The thread that alone works on a place, if there is one. -/
def Place.owner : Place Tid → Option Tid
  | .live | .shared _ => none
  | .cache u _ | .inflight u => some u

/-- What belongs to other threads than `t` is the same. -/
def Foreign (t : Tid) (g g' : Place Tid → List Nat) : Prop :=
  ∀ p u, p.owner = some u → u ≠ t → g' p = g p

omit [DecidableEq Tid] in
theorem Foreign.refl (t : Tid) (g : Place Tid → List Nat) : Foreign t g g := fun _ _ _ _ => rfl

omit [DecidableEq Tid] in
theorem Foreign.trans {g₁ g₂ g₃ : Place Tid → List Nat} (h₁ : Foreign t g₁ g₂)
    (h₂ : Foreign t g₂ g₃) : Foreign t g₁ g₃ := fun p u hp hu => (h₂ p u hp hu).trans (h₁ p u hp hu)

theorem Foreign.update {p : Place Tid} (hp : ∀ u, p.owner = some u → u = t) (xs : List Nat) :
    Foreign t g (Function.update g p xs) := by
  intro q u hq hu
  refine Function.update_of_ne ?_ _ _
  rintro rfl
  exact hu (hp u hq)

theorem Foreign.inflight (xs : List Nat) : Foreign t g (Function.update g (.inflight t) xs) :=
  .update (fun _ h => by simpa [Place.owner, eq_comm] using h) xs

theorem Foreign.replace {p : Place Tid} (hp : ∀ u, p.owner = some u → u = t) (ys zs : List Nat) :
    Foreign t g (replace₂ g p (.inflight t) ys zs) :=
  (Foreign.update hp ys).trans (.inflight zs)

theorem Foreign.live (ys zs : List Nat) : Foreign t g (replace₂ g .live (.inflight t) ys zs) :=
  .replace (fun _ h => by simp [Place.owner] at h) ys zs

theorem Foreign.shared (c : ClassIndex) (ys zs : List Nat) :
    Foreign t g (replace₂ g (.shared c) (.inflight t) ys zs) :=
  .replace (fun _ h => by simp [Place.owner] at h) ys zs

theorem Foreign.cache (c : ClassIndex) (ys zs : List Nat) :
    Foreign t g (replace₂ g (.cache t c) (.inflight t) ys zs) :=
  .replace (fun _ h => by simpa [Place.owner, eq_comm] using h) ys zs

/-- The next program counter continues the same call. -/
structure Pc.Follows (pc pc' : Pc) : Prop where
  teardown : pc'.teardown = pc.teardown
  argument : ∀ a, pc'.argument = some a → pc.argument = some a
  registry : pc'.InRegistry ↔ pc.InRegistry

theorem Pc.Follows.sameCall {pc : Pc} (hfollows : (k.pc t).Follows pc) (s : State Tid) :
    SameCall k (k.goto t s pc) t where
  others u hu := Config.goto_pc_of_ne hu s pc
  argument := by simpa using hfollows.argument
  registry := by simpa using hfollows.registry
  owner := rfl

omit [DecidableEq Tid] in
theorem ListsOnly.fits {s s' : State Tid} (hlists : ListsOnly s s') {pc : Pc} {u : Tid}
    (hfits : pc.Fits s u) : pc.Fits s' u := by
  obtain ⟨_, _, _, _, rfl⟩ := hlists
  exact hfits.congr rfl rfl

end Hplf
