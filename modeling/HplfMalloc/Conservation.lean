import HplfMalloc.Proof.Safety
import HplfMalloc.Schedule

/-!
# Block conservation

In every reachable configuration each slot of each registered slab lies in exactly one place, and the
lists of a class hold blocks of that class only.
-/

namespace Hplf

open Lib

variable {Tid : Type} [DecidableEq Tid]

/-- The class of the blocks a list may hold: that of the list, or of the list a call works on. -/
def Place.listClass (k : Config Tid) : Place Tid → Option ClassIndex
  | .live => none
  | .shared c | .cache _ c => some c
  | .inflight t => (k.pc t).listClass

/-- The registry is the chain `bases`, and `g` lists for each place what the configuration holds there. -/
structure Census (k : Config Tid) (bases : List Nat) (g : Place Tid → List Nat) : Prop where
  registry : Chain k.state.memory.slabNext k.state.slabs bases
  holds : ∀ p, Holds k p (g p)

/-- **Block conservation.** In every reachable configuration of the cached variant every slot of every
registered slab is in exactly one place, and once there: with a client, in the local list of one thread, in
the transfer list of its class, or in the hands of one call. A list holds slots of its own class only. -/
theorem block_conservation (w : World) (k : Config Tid) (hreach : (machine Tid .cached w).Reachable k) :
    ∃ bases g, Census k bases g ∧
      (∀ c a, InClass k.state.memory bases c a →
        ∃ p, (g p).count a = 1 ∧ (∀ q, a ∈ g q → q = p) ∧ ∀ c', p.listClass k = some c' → c' = c) ∧
      ∀ p c, p.listClass k = some c → ∀ a ∈ g p, InClass k.state.memory bases c a := by
  obtain ⟨bases, larges, g, hinv⟩ := safe_of_reachable hreach
  have hclass : ∀ p c, p.listClass k = some c → ∀ a ∈ g p, InClass k.state.memory bases c a := by
    intro p c hp a ha
    cases p with
    | live => simp [Place.listClass] at hp
    | shared c' =>
        obtain rfl := Option.some.inj hp
        exact (hinv.free_of_shared ha).1
    | cache t c' =>
        obtain rfl := Option.some.inj hp
        exact (hinv.free_of_cache ha).1
    | inflight t => exact (hinv.free_of_inflight hp ha).1
  refine ⟨bases, g, ⟨hinv.storage.registry, hinv.holds⟩, fun c a hc => ?_, hclass⟩
  obtain ⟨p, ha⟩ := (hinv.population a).mpr (Or.inl ⟨c, hc⟩)
  refine ⟨p, List.count_eq_one_of_mem (hinv.placed.nodup p) ha,
    fun q hq => hinv.placed.disjoint hq ha, fun c' hp => ?_⟩
  -- A slot has one class, since the slab it belongs to is unique.
  obtain ⟨base, hbase, h, hh, rfl, hslot⟩ := hclass p c' hp a ha
  obtain ⟨base', hbase', h', hh', rfl, hslot'⟩ := hc
  obtain rfl := hinv.storage.slot_unique hbase hbase' hh hh' hslot hslot'
  rw [Option.some.inj (hh.symm.trans hh')]

/-- A thread allocates the first block of a new slab. -/
theorem block_conservation_first_malloc : ∃ k : Config (Fin 2),
    (machine (Fin 2) .cached (bumpWorld fun _ => none)).Reachable k ∧ k.live.length = 1 ∧
      ∃ bases g, Census k bases g ∧
        (∀ c a, InClass k.state.memory bases c a →
          ∃ p, (g p).count a = 1 ∧ (∀ q, a ∈ g q → q = p) ∧ ∀ c', p.listClass k = some c' → c' = c) ∧
        ∀ p c, p.listClass k = some c → ∀ a ∈ g p, InClass k.state.memory bases c a := by
  obtain ⟨k, hreach, hlive⟩ := exists_makeMoves .cached (bumpWorld fun _ => none)
    (mallocMoves (0 : Fin 2)) (fun k => k.live.length == 1) (by decide +kernel)
  exact ⟨k, hreach, by simpa using hlive, block_conservation _ k hreach⟩

end Hplf
