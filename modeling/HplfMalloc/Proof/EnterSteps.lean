import HplfMalloc.Proof.Advance

/-!
# Calls begin

The invariant through the start of a public call that respects the client's side of the contract, and
through a client's write into a block it holds.
-/

namespace Hplf

open Lib Memory

variable {Tid : Type}
variable {k : Config Tid} {t : Tid} {bases larges : List Nat} {g : Place Tid → List Nat}
variable {v : Variant} {w : World}

/-- A pointer the client may pass belongs to a live block no call works on. -/
theorem MayPass.block {pointer : Ptr} (hmay : k.MayPass pointer) {a : Nat}
    (hblock : blockFromPayload pointer = some a) : a ∈ k.live ∧ k.Unused a := by
  rcases hmay with rfl | ⟨block, hlive, rfl, hunused⟩
  · simp at hblock
  · rw [blockFromPayload_blockPayload] at hblock
    obtain rfl := Option.some.inj hblock
    exact ⟨hlive, hunused⟩

variable [DecidableEq Tid]

/-- A thread between calls starts one that holds nothing yet. -/
theorem Inv.start (hinv : Inv k bases larges g) (hidle : k.pc t = .idle) {pc : Pc}
    (hteardown : pc.teardown = none) (hevicting : pc.evicting = none)
    (hemptied : ∀ e, ¬ pc.Emptied e) (hregistry : ¬ pc.InRegistry) (hcarries : ∀ m, pc.Carries m [])
    (hfits : pc.Fits k.state t)
    (hargument : ∀ a, pc.argument = some a → a ∈ k.live ∧ k.Unused a) :
    Inv (k.goto t k.state pc) bases larges g := by
  have hmine : g (.inflight t) = [] := hinv.carries_at hidle
  refine hinv.retarget (t := t) (Config.goto_localStep rfl rfl rfl (Framed.refl _ _)
    (ListsOnly.refl _) (fun _ _ => rfl) (by rw [hidle, hteardown]; rfl)) rfl rfl rfl ?_ ?_ ?_ ?_ ?_ ?_ ?_
  · rw [Config.goto_pc, hmine]
    exact hcarries _
  · simp [hmine]
  · rw [Config.goto_pc]
    exact fun e he => absurd he (hemptied e)
  · rw [Config.goto_pc, hidle, hevicting]
    rfl
  · rw [Config.goto_pc]
    exact hfits
  · intro a ha
    rw [Config.goto_pc] at ha
    obtain ⟨hlive, hunused⟩ := hargument a ha
    exact ⟨hlive, fun u _ => hunused u⟩
  · intro u
    rw [Config.goto_registryOwner, ← hinv.registry u]
    by_cases hu : u = t
    · subst hu
      rw [Config.goto_pc, hidle]
      exact ⟨fun h => absurd h hregistry, fun h => h.elim⟩
    · rw [Config.goto_pc_of_ne hu]

theorem Inv.start_idle (hinv : Inv k bases larges g) (hidle : k.pc t = .idle) :
    Inv (k.goto t k.state .idle) bases larges g :=
  hinv.start hidle rfl rfl (fun _ h => h.elim) (fun h => h.elim) (fun _ => rfl) trivial
    (by simp [Pc.argument])

/-- The argument of a request to allocate. -/
def Request.Allowed (k : Config Tid) (r : Request) : Prop :=
  ∀ old, r.purpose = .realloc old → old ∈ k.live ∧ k.Unused old

theorem Inv.enterMalloc (hinv : Inv k bases larges g) (hidle : k.pc t = .idle) {r : Request}
    (hallowed : r.Allowed k) :
    Inv (k.goto t (enterMalloc k.state t r).1 (enterMalloc k.state t r).2) bases larges g := by
  have hargument : ∀ a, (Pc.allocateLarge r).argument = some a → a ∈ k.live ∧ k.Unused a := by
    intro a ha
    simp only [Pc.argument] at ha
    cases hpurpose : r.purpose with
    | realloc old =>
        rw [hpurpose] at ha
        obtain rfl := Option.some.inj ha
        exact hallowed old hpurpose
    | malloc | calloc =>
        rw [hpurpose] at ha
        simp at ha
  unfold Hplf.enterMalloc
  split
  · exact hinv.start_idle hidle
  rename_i hzero
  split
  · exact (hinv.start_idle hidle).setErrno t _
  rename_i hlarge
  split
  · rename_i c capacity hfor
    exact hinv.start hidle rfl rfl (fun _ h => h.elim) (fun h => h.elim) (fun _ => rfl) hfor hargument
  · rename_i hnone
    refine hinv.start hidle rfl rfl (fun _ h => h.elim) (fun h => h.elim) (fun _ => rfl) ?_ hargument
    rcases sizeClassFor_eq_none_iff.mp hnone with hzero' | hlt
    · exact absurd hzero' hzero
    · exact ⟨hlt, by omega⟩

omit [DecidableEq Tid] in
/-- **The retention test** answers, and says yes exactly if the new size is served by the block's own
class, or if the block is large and the new size is large and fits. -/
theorem Inv.reallocCanRetain (hinv : Inv k bases larges g) {a : Nat} (ha : a ∈ k.live) {b : Block}
    (hb : k.state.memory.block a = some b) (n : Nat) :
    ∃ retain, reallocCanRetain k.state b n = some retain ∧
      (retain = true ↔
        (∃ c, InClass k.state.memory bases c a ∧ sizeClassFor n = some (c, sizeClassCapacities c)) ∨
          (a ∈ larges ∧ sizeClassFor n = none ∧ n ≤ b.capacity)) := by
  rcases hinv.live_cases ha with
    ⟨c, base, h, b', hbase, hh, hc, hslot, hb', hslotOf, hcapacity, hfor⟩ | ⟨b', hlarge, hb', hat, -, -⟩
  · obtain rfl := Option.some.inj (hb.symm.trans hb')
    have howner : b.owner.slab = base := by rw [hslotOf.owner]; rfl
    have hnotLarge : a ∉ larges := fun hmem => hinv.storage.large_not_inClass hmem c
      ⟨base, hbase, h, hh, hc, hslot⟩
    unfold Hplf.reallocCanRetain
    rw [hslotOf.kind]
    dsimp only
    split
    · rename_i hnone
      refine ⟨false, rfl, ?_⟩
      simp [hnone, hnotLarge]
    · rename_i c' capacity' hfor'
      obtain ⟨-, -, rfl⟩ := sizeClassFor_eq_some hfor'
      rw [howner, hh]
      refine ⟨decide (c' = h.classIndex), rfl, ?_⟩
      simp only [decide_eq_true_eq, hfor', hnotLarge, false_and, or_false]
      constructor
      · intro heq
        exact ⟨c', ⟨base, hbase, h, hh, heq.symm, hslot⟩, rfl⟩
      · rintro ⟨e, ⟨base', hbase', h', hh', he, hslot'⟩, hpair⟩
        obtain ⟨rfl, -⟩ := Prod.mk.inj (Option.some.inj hpair)
        obtain ⟨b'', hb'', hslotOf'⟩ := hinv.storage.slot base' hbase' h' hh' a hslot'
        obtain rfl := Option.some.inj (hb.symm.trans hb'')
        have hsame : base' = base := by
          have heq := hslotOf'.owner.symm.trans hslotOf.owner
          exact Owner.small.inj heq
        subst hsame
        obtain rfl := Option.some.inj (hh.symm.trans hh')
        exact he.symm
  · obtain rfl := Option.some.inj (hb.symm.trans hb')
    have hnotSmall : ∀ c, ¬ InClass k.state.memory bases c a :=
      hinv.storage.large_not_inClass hlarge
    unfold Hplf.reallocCanRetain
    rw [hat.kind]
    refine ⟨_, rfl, ?_⟩
    simp [hnotSmall, hlarge]

omit [DecidableEq Tid] in
/-- The retained block gets a size it can hold. -/
theorem Sized.retained {a n : Nat} {b : Block} (hb : k.state.memory.block a = some b) (hn : n ≠ 0)
    (hretain : (∃ c, InClass k.state.memory bases c a ∧
        sizeClassFor n = some (c, sizeClassCapacities c)) ∨
      (a ∈ larges ∧ sizeClassFor n = none ∧ n ≤ b.capacity))
    (m : Memory) (hframe : Framed [a] k.state.memory m) (hsize : m.size a = some n) :
    Sized m bases larges n a := by
  refine ⟨hsize, ?_⟩
  rcases hretain with ⟨c, hclass, hfor⟩ | ⟨hlarge, hnone, hle⟩
  · exact Or.inl ⟨c, hclass.congr hframe.slab, hfor⟩
  · obtain ⟨b', hb', -, hcapacity, -⟩ := hframe.exists_block hb
    refine Or.inr ⟨hlarge, ?_, b', hb', by omega⟩
    exact (sizeClassFor_eq_none_iff.mp hnone).resolve_left hn

theorem Inv.enter_realloc (hinv : Inv k bases larges g) (v : Variant) (hidle : k.pc t = .idle)
    {pointer : Ptr} (hmay : k.MayPass pointer) (size : Nat) :
    ∃ s pc, enter v k.state t (.realloc pointer size) = some (s, pc) ∧
      Inv (k.goto t s pc) bases larges g := by
  unfold enter
  dsimp only
  split
  · exact ⟨_, _, rfl, hinv.enterMalloc hidle fun old h => by simp at h⟩
  rename_i old hold
  obtain ⟨hlive, hunused⟩ := MayPass.block hmay hold
  split
  · refine ⟨_, _, rfl, hinv.start hidle rfl rfl (fun _ h => h.elim) (fun h => h.elim) (fun _ => rfl)
      trivial fun a ha => ?_⟩
    obtain rfl := Option.some.inj ha
    exact ⟨hlive, hunused⟩
  rename_i hzero
  split
  · exact ⟨_, _, rfl, (hinv.start_idle hidle).setErrno t _⟩
  obtain ⟨b, hb⟩ := hinv.exists_block (p := .live) (hinv.live_eq ▸ hlive)
  obtain ⟨retain, hretain, hiff⟩ := hinv.reallocCanRetain hlive hb size
  rw [hb]
  simp only [hretain, Option.bind_eq_bind, Option.bind_some]
  cases retain with
  | true =>
      obtain ⟨m, hset, -, -, hinv'⟩ := hinv.retain hidle hlive
        (Sized.retained hb hzero (hiff.mp rfl))
      exact ⟨_, _, by rw [if_pos rfl, setRequestedSize_eq hset]; rfl, hinv'⟩
  | false =>
      refine ⟨_, _, rfl, hinv.enterMalloc hidle fun old' h => ?_⟩
      obtain rfl : old = old' := by simpa using h
      exact ⟨hlive, hunused⟩

/-- **Entry.** An allowed call starts without a fault. -/
theorem Inv.enter (hinv : Inv k bases larges g) (v : Variant) (hidle : k.pc t = .idle) {call : Call}
    (hallowed : k.Allowed call) :
    ∃ s pc, enter v k.state t call = some (s, pc) ∧ Inv (k.goto t s pc) bases larges g := by
  cases call with
  | malloc size => exact ⟨_, _, rfl, hinv.enterMalloc hidle fun old h => by simp at h⟩
  | calloc count size =>
      unfold Hplf.enter
      dsimp only
      split
      · exact ⟨_, _, rfl, hinv.start_idle hidle⟩
      split
      · exact ⟨_, _, rfl, (hinv.start_idle hidle).setErrno t _⟩
      · exact ⟨_, _, rfl, hinv.enterMalloc hidle fun old h => by simp at h⟩
  | realloc pointer size => exact hinv.enter_realloc v hidle hallowed size
  | free pointer =>
      unfold Hplf.enter
      dsimp only
      split
      · exact ⟨_, _, rfl, hinv.start_idle hidle⟩
      · rename_i a hblock
        refine ⟨_, _, rfl, hinv.start hidle rfl rfl (fun _ h => h.elim) (fun h => h.elim)
          (fun _ => rfl) trivial fun a' ha' => ?_⟩
        obtain rfl := Option.some.inj ha'
        exact MayPass.block hallowed hblock
  | threadFlush =>
      unfold Hplf.enter
      dsimp only
      cases v with
      | locked => exact ⟨_, _, rfl, hinv.start_idle hidle⟩
      | cached =>
          dsimp only
          split
          · exact ⟨_, _, rfl, hinv.start_idle hidle⟩
          · rename_i d hd
            exact ⟨_, _, rfl, hinv.start hidle rfl rfl (fun e h => h (mem_classIndices e))
              (fun h => h.elim) (fun _ => rfl) hd (by simp [Pc.argument])⟩
  | threadExit =>
      unfold Hplf.enter
      dsimp only
      split
      · exact ⟨_, _, rfl, hinv.start_idle hidle⟩
      · rename_i d hd
        exact ⟨_, _, rfl, hinv.exit hidle hd⟩

omit [DecidableEq Tid] in
/-- **Client writes.** A byte written inside the requested bytes of a live block disturbs nothing. -/
theorem Inv.write (hinv : Inv k bases larges g) {a offset p : Nat} {b : Block} (ha : a ∈ k.live)
    (hb : k.state.memory.block a = some b) (hoffset : offset < b.requestedSize)
    (hp : blockPayload (some a) = some p) (value : UInt8) :
    Inv { k with state := { k.state with
        memory := k.state.memory.writeBytes (p + offset) 1 fun _ => some value } } bases larges g := by
  rw [blockPayload_some] at hp
  obtain rfl := Option.some.inj hp
  have hle := (hinv.live_size_le ha hb).2
  exact hinv.writePayload (hinv.live_populated ha) hb _ (by unfold sizeofBlock; omega)
    (by unfold sizeofBlock; omega)

end Hplf
