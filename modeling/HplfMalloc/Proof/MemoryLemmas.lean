import HplfMalloc.TransferList
import Mathlib.Data.Finset.Card
import Mathlib.Order.Interval.Finset.Nat

/-!
# What a field update leaves alone

The list operations write two fields of a prefix, `next_free` and `requested_size`. `Framed nodes m m'`
says that `m'` differs from `m` in those fields of the blocks `nodes` at most: the slab headers, the bytes
and the owner, capacity and kind of every block are the same.
-/

namespace Hplf

open Lib

/-- What is fixed when a prefix is initialised. -/
def Block.fixed (b : Block) : Owner × Nat × BlockKind := (b.owner, b.capacity, b.kind)

namespace Memory

/-- `block->requested_size`. -/
def size (m : Memory) (a : Nat) : Option Nat := (m.block a).map Block.requestedSize

def slabNext (m : Memory) (a : Nat) : Option Ptr := (m.slab a).map Slab.next

structure Framed (nodes : List Nat) (m m' : Memory) : Prop where
  slab : m'.slab = m.slab
  byte : m'.byte = m.byte
  block : ∀ a, a ∉ nodes → m'.block a = m.block a
  fixed : ∀ a, (m'.block a).map Block.fixed = (m.block a).map Block.fixed

theorem Framed.refl (nodes : List Nat) (m : Memory) : Framed nodes m m :=
  ⟨rfl, rfl, fun _ _ => rfl, fun _ => rfl⟩

theorem Framed.trans {nodes : List Nat} {m₁ m₂ m₃ : Memory} (h₁ : Framed nodes m₁ m₂)
    (h₂ : Framed nodes m₂ m₃) : Framed nodes m₁ m₃ where
  slab := h₂.slab.trans h₁.slab
  byte := h₂.byte.trans h₁.byte
  block a ha := (h₂.block a ha).trans (h₁.block a ha)
  fixed a := (h₂.fixed a).trans (h₁.fixed a)

theorem Framed.mono {nodes nodes' : List Nat} {m m' : Memory} (hframe : Framed nodes m m')
    (hsub : nodes ⊆ nodes') : Framed nodes' m m' :=
  { hframe with block := fun a ha => hframe.block a fun hmem => ha (hsub hmem) }

theorem Framed.next {nodes : List Nat} {m m' : Memory} (hframe : Framed nodes m m') {a : Nat}
    (ha : a ∉ nodes) : m'.next a = m.next a := by
  simp only [Memory.next, hframe.block a ha]

theorem Framed.size {nodes : List Nat} {m m' : Memory} (hframe : Framed nodes m m') {a : Nat}
    (ha : a ∉ nodes) : m'.size a = m.size a := by
  simp only [Memory.size, hframe.block a ha]

/-- A chain none of whose nodes was written is still a chain. -/
theorem Framed.chain {nodes xs : List Nat} {m m' : Memory} {p : Ptr}
    (hframe : Framed nodes m m') (hchain : Chain m.next p xs) (hdisj : ∀ a ∈ xs, a ∉ nodes) :
    Chain m'.next p xs :=
  hchain.congr fun a ha => hframe.next (hdisj a ha)

/-- The header at an address after an update agrees with the one before in everything fixed. -/
theorem Framed.exists_block {nodes : List Nat} {m m' : Memory} (hframe : Framed nodes m m')
    {a : Nat} {b : Block} (hb : m.block a = some b) :
    ∃ b', m'.block a = some b' ∧ b'.owner = b.owner ∧ b'.capacity = b.capacity ∧ b'.kind = b.kind := by
  have hfixed := hframe.fixed a
  rw [hb, Option.map_some] at hfixed
  obtain ⟨b', hb', heq⟩ := Option.map_eq_some_iff.mp hfixed
  simp only [Block.fixed, Prod.mk.injEq] at heq
  exact ⟨b', hb', heq.1, heq.2.1, heq.2.2⟩

theorem exists_block_of_next {m : Memory} {a : Nat} {q : Ptr} (hnext : m.next a = some q) :
    ∃ b, m.block a = some b ∧ b.nextFree = q :=
  Option.map_eq_some_iff.mp hnext

theorem next_eq_some {m : Memory} {a : Nat} {b : Block} (hb : m.block a = some b) :
    m.next a = some b.nextFree := by
  simp [Memory.next, hb]

theorem size_eq_some {m : Memory} {a : Nat} {b : Block} (hb : m.block a = some b) :
    m.size a = some b.requestedSize := by
  simp [Memory.size, hb]

theorem map_update_block {β : Type} {m : Memory} {a : Nat} {b : Block} (f : Block → β) :
    (fun x => (Function.update m.block a (some b) x).map f)
      = Function.update (fun x => (m.block x).map f) a (some (f b)) := by
  funext x
  by_cases hx : x = a
  · subst hx
    simp
  · simp [hx]

theorem modifyBlock_eq {m : Memory} {a : Nat} {b : Block} (hb : m.block a = some b)
    (f : Block → Block) :
    m.modifyBlock a f = some { m with block := Function.update m.block a (some (f b)) } := by
  rw [modifyBlock, hb, Option.map_some]

theorem framed_update {m : Memory} {a : Nat} {b b' : Block} (hb : m.block a = some b)
    (hfixed : b'.fixed = b.fixed) :
    Framed [a] m { m with block := Function.update m.block a (some b') } where
  slab := rfl
  byte := rfl
  block x hx := Function.update_of_ne (by simpa using hx) _ _
  fixed x := by
    by_cases hx : x = a
    · subst hx
      simp [hb, hfixed]
    · simp [hx]

/-- Writing the link of an existing block succeeds, and changes that link only. -/
theorem exists_setNextFree {m : Memory} {a : Nat} {q : Ptr} (hnext : m.next a = some q)
    (target : Ptr) :
    ∃ m', m.setNextFree a target = some m' ∧ Framed [a] m m' ∧ m'.size = m.size ∧
      m'.next = Function.update m.next a (some target) := by
  obtain ⟨b, hb, _⟩ := exists_block_of_next hnext
  refine ⟨_, modifyBlock_eq hb _, framed_update hb rfl, ?_, map_update_block Block.nextFree⟩
  funext x
  by_cases hx : x = a
  · subst hx
    simp [size, hb]
  · simp [size, hx]

/-- Writing the requested size of an existing block succeeds, and changes that size only. -/
theorem exists_setRequestedSize {m : Memory} {a : Nat} {q : Ptr} (hnext : m.next a = some q)
    (n : Nat) :
    ∃ m', m.setRequestedSize a n = some m' ∧ Framed [a] m m' ∧ m'.next = m.next ∧
      m'.size = Function.update m.size a (some n) := by
  obtain ⟨b, hb, _⟩ := exists_block_of_next hnext
  refine ⟨_, modifyBlock_eq hb _, framed_update hb rfl, ?_, map_update_block Block.requestedSize⟩
  funext x
  by_cases hx : x = a
  · subst hx
    simp [next, hb]
  · simp [next, hx]

/-- The two storages differ in the links of the blocks `nodes` at most. -/
structure LinksOnly (nodes : List Nat) (m m' : Memory) : Prop where
  slab : m'.slab = m.slab
  byte : m'.byte = m.byte
  others : ∀ a, a ∉ nodes → m'.block a = m.block a
  links : ∀ a b, m.block a = some b → ∃ q, m'.block a = some { b with nextFree := q }

theorem LinksOnly.of_framed {nodes : List Nat} {m m' : Memory} (hframe : Framed nodes m m')
    (hsize : m'.size = m.size) : LinksOnly nodes m m' := by
  refine ⟨hframe.slab, hframe.byte, hframe.block, fun a b hb => ?_⟩
  obtain ⟨b', hb', howner, hcapacity, hkind⟩ := hframe.exists_block hb
  have hrequested := congrFun hsize a
  rw [size_eq_some hb, size_eq_some hb'] at hrequested
  refine ⟨b'.nextFree, hb'.trans ?_⟩
  obtain ⟨owner, next, requested, capacity, kind⟩ := b'
  dsimp only at howner hcapacity hkind hrequested
  rw [howner, hcapacity, hkind, Option.some.inj hrequested]

end Memory

/-- Distinct addresses of a 64-bit machine are at most as many as there are addresses. -/
theorem length_le_of_addresses {xs : List Nat} (hnodup : xs.Nodup) (hbound : ∀ a ∈ xs, a < addressSpace) :
    xs.length ≤ addressSpace := by
  have hsub : xs.toFinset ⊆ Finset.range addressSpace := fun a ha =>
    Finset.mem_range.mpr (hbound a (List.mem_toFinset.mp ha))
  have hcard := Finset.card_le_card hsub
  rwa [List.toFinset_card_of_nodup hnodup, Finset.card_range] at hcard

/-- Without the null address they are fewer. -/
theorem length_le_addressSpace {xs : List Nat} (hnodup : xs.Nodup)
    (hbound : ∀ a ∈ xs, 0 < a ∧ a < addressSpace) : xs.length < addressSpace := by
  have hnotMem : 0 ∉ xs := fun hmem => (hbound 0 hmem).1.ne rfl
  have hlength := length_le_of_addresses (List.nodup_cons.mpr ⟨hnotMem, hnodup⟩) fun a ha => by
    rcases List.mem_cons.mp ha with rfl | ha
    · exact Nat.two_pow_pos 64
    · exact (hbound a ha).2
  rwa [List.length_cons] at hlength

end Hplf
