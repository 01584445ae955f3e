import HplfMalloc.Proof.EnterSteps
import HplfMalloc.Proof.TrimLoop

/-!
# The invariant holds in every reachable configuration

The initial configuration satisfies the invariant, and a call, an action, a client write and a trim keep
it, in both variants and whatever the system answers.
-/

namespace Hplf

open Lib Memory

variable {Tid : Type} {v : Variant} {w : World} {k k' : Config Tid}

theorem storage_initial : Storage (State.initial : State Tid) [] [] [] where
  registry := chain_nil.mpr rfl
  slab := by simp
  slot := by simp
  large := by simp
  ledger := List.Perm.refl _
  apart := List.Pairwise.nil
  valid := by simp [State.mappings, State.initial]


/-- Before any call every place is empty. -/
theorem Inv.initial : Inv (Config.initial : Config Tid) [] [] fun _ => [] where
  storage := storage_initial
  placed := ⟨fun _ => List.nodup_nil, fun h => by simp at h⟩
  population := by simp [InClass]
  holds p := by
    cases p with
    | live => rfl
    | shared c => exact chain_nil.mpr rfl
    | cache t c => exact (holds_cache_none rfl).mpr rfl
    | inflight t => rfl
  admits := by simp
  emptied _ _ _ := rfl
  thread _ := ⟨⟨rfl, rfl⟩, by simp [Config.cacheOf, Config.initial, cacheCurrent, State.initial,
    Pc.teardown], trivial⟩
  owner_unique _ _ _ h := by
    simp [Config.cacheOf, Config.initial, cacheCurrent, State.initial, Pc.teardown] at h
  argument_live _ _ h := by simp [Config.initial, Pc.argument] at h
  argument_unique _ _ _ h := by simp [Config.initial, Pc.argument] at h
  registry _ := by simp [Config.initial, Pc.InRegistry]

variable [DecidableEq Tid]

/-- **One step.** Every step of the system keeps the invariant. -/
theorem Safe.step {e : Option (Tid × Option Call)} (hsafe : Safe k) (hstep : Step v w k e k') :
    Safe k' := by
  obtain ⟨bases, larges, g, hinv⟩ := hsafe
  cases hstep with
  | call hidle hallowed henter =>
      obtain ⟨s, pc, henter', hinv'⟩ := hinv.enter v hidle hallowed
      obtain ⟨rfl, rfl⟩ := Prod.mk.inj (Option.some.inj (henter'.symm.trans henter))
      exact ⟨bases, larges, g, hinv'.congr
        ⟨rfl, rfl, rfl, rfl, rfl, rfl, rfl, rfl, rfl, rfl, rfl, rfl, rfl⟩⟩
  | advance hadvance => exact hinv.safe_of_advance hadvance
  | write hlive _ hheader hoffset hpayload =>
      exact ⟨bases, larges, g, hinv.write hlive hheader hoffset hpayload _⟩
  | @trim t s released hquiescent htrim =>
      obtain ⟨k', bases', g', htrim', htrims, -⟩ := hinv.trimQuiescent (hquiescent t) v w
      obtain ⟨rfl, -⟩ := Prod.mk.inj (Option.some.inj (htrim'.symm.trans htrim))
      refine ⟨bases', larges, g', ?_⟩
      obtain ⟨_, _, _, _, _, _, rfl⟩ := htrims.rest
      exact htrims.inv

/-- **Invariance.** Every reachable configuration satisfies the invariant. -/
theorem safe_of_reachable (hreach : (machine Tid v w).Reachable k) : Safe k := by
  refine hreach.invariant (I := Safe) ?_ fun _ _ _ hsafe hstep => Safe.step hsafe hstep
  rintro k (rfl : k = Config.initial)
  exact ⟨_, _, _, Inv.initial⟩

omit [DecidableEq Tid] in
/-- The list at a place is determined by the configuration. -/
theorem Inv.eq_of_holds_cache {bases larges : List Nat} {g : Place Tid → List Nat}
    (hinv : Inv k bases larges g) {t : Tid} {c : ClassIndex} {xs : List Nat}
    (hholds : Holds k (.cache t c) xs) : xs = g (.cache t c) := by
  have hown := hinv.holds (.cache t c)
  cases hcache : k.cacheOf t with
  | none =>
      rw [holds_cache_none hcache] at hholds hown
      rw [hholds, hown]
  | some d =>
      obtain ⟨descriptor, hd, hchain, -⟩ := (holds_cache_some hcache).mp hholds
      obtain ⟨descriptor', hd', hchain', -⟩ := (holds_cache_some hcache).mp hown
      obtain rfl := Option.some.inj (hd.symm.trans hd')
      exact hchain.unique hchain'

end Hplf
