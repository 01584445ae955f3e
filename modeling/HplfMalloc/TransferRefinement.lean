import HplfMalloc.Proof.AtomicInvariant

/-!
# The lock-free transfer refines the mutex transfer

The specification runs `hplf_transfer_mutex_publish` and `hplf_transfer_mutex_detach` as atomic operations.
Every run of the lock-free transfer is a run of it with the same visible actions: a publish takes effect at
its successful compare-exchange and a detach at its exchange. In between, the two storages differ only in
the tail links of the batches that are being published.
-/

namespace Hplf.TransferAtomic

open Lib Memory

/-! ### The specification -/

inductive MutexPc
  | idle
  | publish (c : ClassIndex) (list : TransferList)
  | detach (c : ClassIndex)
  | returning (list : TransferList)
  deriving DecidableEq, Repr

structure MutexConfig (Tid : Type) where
  state : State Tid
  pc : Tid → MutexPc
  own : Tid → List Nat

variable {Tid : Type} [DecidableEq Tid]

def MutexConfig.goto (u : MutexConfig Tid) (t : Tid) (s : State Tid) (pc : MutexPc) : MutexConfig Tid :=
  { u with state := s, pc := Function.update u.pc t pc }

inductive MutexStep : MutexConfig Tid → Event Tid → MutexConfig Tid → Prop
  | relink {u : MutexConfig Tid} {t : Tid} {block : Nat} {target : Ptr} {m : Memory}
      (hidle : u.pc t = .idle) (hown : block ∈ u.own t)
      (hwrite : u.state.memory.setNextFree block target = some m) :
      MutexStep u (.relink t block target) { u with state := { u.state with memory := m } }
  | callPublish {u : MutexConfig Tid} {t : Tid} {c : ClassIndex} {list : TransferList} {xs : List Nat}
      (hidle : u.pc t = .idle) (hlist : MayPublish u.state.memory (u.own t) list xs) :
      MutexStep u (.callPublish t c list)
        (u.goto t u.state (if list.first = none then .idle else .publish c list))
  | callDetach {u : MutexConfig Tid} {t : Tid} {c : ClassIndex} (hidle : u.pc t = .idle) :
      MutexStep u (.callDetach t c) (u.goto t u.state (.detach c))
  | publish {u : MutexConfig Tid} {t : Tid} {c : ClassIndex} {list : TransferList} {s : State Tid}
      (hpc : u.pc t = .publish c list) (hpublish : transferMutexPublish u.state c list = some s) :
      MutexStep u (.published t c list)
        { u.goto t s .idle with
          own := giveUp u.own t (nodes u.state.memory list.count list.first) }
  | detach {u : MutexConfig Tid} {t : Tid} {c : ClassIndex} {list : TransferList} {s : State Tid}
      (hpc : u.pc t = .detach c) (hdetach : transferMutexDetach u.state c = some (s, list)) :
      MutexStep u (.detached t c (u.state.sharedHeads c).isSome)
        { u.goto t s (.returning list) with
          own := obtained u.own t (nodes u.state.memory addressSpace list.first) }
  | returned {u : MutexConfig Tid} {t : Tid} {list : TransferList} (hpc : u.pc t = .returning list) :
      MutexStep u (.returned t list) (u.goto t u.state .idle)

def mutexMachine (Tid : Type) [DecidableEq Tid] : System (MutexConfig Tid) (Event Tid) where
  init u := Initial u.state u.own ∧ ∀ t, u.pc t = .idle
  step u e u' := ∃ event, e = some event ∧ MutexStep u event u'

/-! ### The relation -/

/-- A block without its link. -/
def withoutLink (b : Block) : Block := { b with nextFree := none }

/-- The block whose link a publish may have written before its linearization. -/
def Pc.tail : Pc → Ptr
  | .link _ list _ | .compareExchange _ list _ => list.last
  | _ => none

/-- The call of the specification that a program counter is in; a traversal will return what the
specification has returned already. -/
def Pc.Matches (m : Memory) (own : List Nat) : Pc → MutexPc → Prop
  | .idle, .idle => True
  | .load c list, .publish c' list' | .link c list _, .publish c' list'
  | .compareExchange c list _, .publish c' list' => c' = c ∧ list' = list
  | .exchange c, .detach c' => c' = c
  | .traverse first block last count, .returning list => ∃ rest, Chain m.next block rest ∧ rest ⊆ own ∧
      list = ⟨first, rest.getLast?.or last, count + rest.length⟩
  | _, _ => False

structure Refines (k : Config Tid) (u : MutexConfig Tid) : Prop where
  state : u.state = { k.state with memory := u.state.memory }
  slab : u.state.memory.slab = k.state.memory.slab
  byte : u.state.memory.byte = k.state.memory.byte
  block : ∀ a, (∀ t, (k.pc t).tail ≠ some a) → u.state.memory.block a = k.state.memory.block a
  unlinked : ∀ a, (u.state.memory.block a).map withoutLink
    = (k.state.memory.block a).map withoutLink
  own : u.own = k.own
  pc : ∀ t, (k.pc t).Matches k.state.memory (k.own t) (u.pc t)

variable {k k' : Config Tid} {u : MutexConfig Tid} {chains : ClassIndex → List Nat} {t : Tid}
variable {c : ClassIndex} {e : Event Tid}

section

omit [DecidableEq Tid]

theorem Refines.heads (hrefines : Refines k u) : u.state.sharedHeads = k.state.sharedHeads := by
  rw [hrefines.state]

/-- A tail link that may have been written belongs to the publishing thread. -/
theorem Inv.tail_own (hinv : Inv k chains) {a : Nat} (htail : (k.pc t).tail = some a) : a ∈ k.own t := by
  have hok := hinv.thread t
  cases hpc : k.pc t with
  | link c list observed =>
      rw [hpc] at hok htail
      obtain ⟨⟨xs, last, hbatch, hsub⟩, -⟩ := hok
      obtain rfl := Option.some.inj (hbatch.tail.symm.trans htail)
      exact hsub (by simp)
  | compareExchange c list observed =>
      rw [hpc] at hok htail
      obtain ⟨⟨xs, last, hbatch, hsub, -⟩, -⟩ := hok
      obtain rfl := Option.some.inj (hbatch.tail.symm.trans htail)
      exact hsub (by simp)
  | idle | load c list | exchange c | traverse first block last count =>
      rw [hpc] at htail
      cases htail

/-- The storages agree on a block of thread `t` unless it is the tail of the batch being published. -/
theorem Refines.block_own (hrefines : Refines k u) (hinv : Inv k chains) {a : Nat} (ha : a ∈ k.own t)
    (htail : (k.pc t).tail ≠ some a) : u.state.memory.block a = k.state.memory.block a := by
  apply hrefines.block a
  intro t' htail'
  obtain rfl := hinv.own_disjoint ha (hinv.tail_own htail')
  exact htail htail'

theorem Refines.block_shared (hrefines : Refines k u) (hinv : Inv k chains) {a : Nat}
    (ha : a ∈ chains c) : u.state.memory.block a = k.state.memory.block a :=
  hrefines.block a fun _ htail => hinv.not_shared (hinv.tail_own htail) c ha

end

theorem next_congr {m m' : Memory} {a : Nat} (hblock : m'.block a = m.block a) : m'.next a = m.next a := by
  simp only [Memory.next, hblock]

theorem Pc.Matches.congr {m m' : Memory} {own : List Nat} {pc : Pc} {mpc : MutexPc}
    (hmatches : pc.Matches m own mpc) (hsame : ∀ a ∈ own, m'.next a = m.next a) :
    pc.Matches m' own mpc := by
  cases pc with
  | traverse first block last count =>
      cases mpc with
      | returning list =>
          obtain ⟨rest, hchain, hsub, hlist⟩ := hmatches
          exact ⟨rest, hchain.congr fun a ha => hsame a (hsub ha), hsub, hlist⟩
      | idle | publish c list | detach c => exact hmatches
  | idle | load c list | link c list observed | compareExchange c list observed | exchange c =>
      cases mpc <;> exact hmatches

/-! ### Invisible actions -/

/-- Thread `t` moves on and writes at most the tail link of its batch; the specification does nothing. -/
theorem Refines.internal (hrefines : Refines k u) (hinv : Inv k chains) {m : Memory} {pc : Pc}
    {touched : List Nat} (hframe : Framed touched k.state.memory m)
    (hunlinked : ∀ a, (m.block a).map withoutLink = (k.state.memory.block a).map withoutLink)
    (htouched : ∀ a ∈ touched, a ∈ k.own t ∧ pc.tail = some a)
    (htail : ∀ a, (k.pc t).tail = some a → pc.tail = some a)
    (hmatches : pc.Matches m (k.own t) (u.pc t)) :
    Refines (k.goto t { k.state with memory := m } pc) u where
  state := hrefines.state
  slab := hrefines.slab.trans hframe.slab.symm
  byte := hrefines.byte.trans hframe.byte.symm
  block a ha := by
    have hpc : ∀ t', ((k.goto t { k.state with memory := m } pc).pc t').tail ≠ some a := ha
    have hmine := hpc t
    rw [Config.goto_pc] at hmine
    have hnot : a ∉ touched := fun hmem => hmine (htouched a hmem).2
    rw [show (k.goto t { k.state with memory := m } pc).state.memory.block a = k.state.memory.block a from
      hframe.block a hnot]
    apply hrefines.block a
    intro t' htail'
    by_cases ht : t' = t
    · subst ht
      exact hmine (htail a htail')
    · apply hpc t'
      rwa [Config.goto_pc_of_ne ht]
  unlinked a := (hrefines.unlinked a).trans (hunlinked a).symm
  own := hrefines.own
  pc t' := by
    by_cases ht : t' = t
    · subst ht
      rw [Config.goto_pc]
      exact hmatches
    · rw [Config.goto_pc_of_ne ht]
      refine (hrefines.pc t').congr fun a ha => hframe.next fun hmem => ht ?_
      exact hinv.own_disjoint ha (htouched a hmem).1

/-- The same with the storage left alone. -/
theorem Refines.moved (hrefines : Refines k u) (hinv : Inv k chains) {pc : Pc}
    (htail : ∀ a, (k.pc t).tail = some a → pc.tail = some a)
    (hmatches : pc.Matches k.state.memory (k.own t) (u.pc t)) :
    Refines (k.goto t k.state pc) u :=
  hrefines.internal hinv (Framed.refl [] _) (fun _ => rfl) (fun _ h => by cases h) htail hmatches

/-- What a write of a link does to the blocks. -/
theorem exists_link {m : Memory} {a : Nat} {q : Ptr} (hnext : m.next a = some q) (target : Ptr) :
    ∃ b m', m.block a = some b ∧ m.setNextFree a target = some m' ∧ Framed [a] m m' ∧
      m'.block a = some { b with nextFree := target } ∧
      ∀ x, (m'.block x).map withoutLink = (m.block x).map withoutLink := by
  obtain ⟨b, hb, -⟩ := exists_block_of_next hnext
  refine ⟨b, _, hb, modifyBlock_eq hb _, framed_update hb rfl, Function.update_self _ _ _, fun x => ?_⟩
  by_cases hx : x = a
  · subst hx
    simp [hb, withoutLink]
  · simp [hx]

theorem Refines.of_link (hrefines : Refines k u) (hinv : Inv k chains) {list : TransferList}
    {observed : Ptr} {last : Nat} {m : Memory} (hpc : k.pc t = .link c list observed)
    (hlast : list.last = some last) (hwrite : k.state.memory.setNextFree last observed = some m) :
    Refines (k.goto t { k.state with memory := m } (.compareExchange c list observed)) u := by
  have hown : last ∈ k.own t := hinv.tail_own (by rw [hpc]; exact hlast)
  obtain ⟨-, q, hq⟩ := hinv.block (.own t) last hown
  obtain ⟨b, m', hb, hset, hframe, -, hunlinked⟩ := exists_link hq observed
  obtain rfl := Option.some.inj (hset.symm.trans hwrite)
  have hmatches := hrefines.pc t
  rw [hpc] at hmatches
  refine hrefines.internal hinv hframe hunlinked (fun a ha => ?_) (fun a ha => ?_) ?_
  · rw [List.mem_singleton.mp ha]
    exact ⟨hown, hlast⟩
  · rwa [hpc] at ha
  · cases hmutex : u.pc t with
    | publish c' list' =>
        rw [hmutex] at hmatches
        exact hmatches
    | idle | detach c' | returning list' =>
        rw [hmutex] at hmatches
        cases hmatches

theorem Refines.of_read (hrefines : Refines k u) (hinv : Inv k chains) {first last next : Ptr}
    {block count : Nat} (hpc : k.pc t = .traverse first (some block) last count)
    (hnext : k.state.memory.next block = some next) :
    Refines (k.goto t k.state (.traverse first next (some block) (count + 1))) u := by
  have hmatches := hrefines.pc t
  rw [hpc] at hmatches
  refine hrefines.moved hinv (fun a ha => by rw [hpc] at ha; cases ha) ?_
  cases hmutex : u.pc t with
  | returning list =>
      rw [hmutex] at hmatches
      obtain ⟨rest, hchain, hsub, rfl⟩ := hmatches
      obtain ⟨rest, rfl, hrest⟩ := hchain.follow hnext
      refine ⟨rest, hrest, fun x hx => hsub (List.mem_cons_of_mem _ hx), ?_⟩
      cases rest with
      | nil => simp
      | cons b rest => simp [List.getLast?_cons, Nat.add_comm, Nat.add_left_comm]
  | idle | publish c' list' | detach c' =>
      rw [hmutex] at hmatches
      cases hmatches

/-- **Stuttering.** An action that is not visible is matched by doing nothing. -/
theorem Refines.of_invisible (hrefines : Refines k u) (hinv : Inv k chains) (hstep : Step k e k')
    (hinvisible : e.visible = none) : Refines k' u := by
  cases hstep with
  | relink | callPublish | callDetach => cases hinvisible
  | @act _ t spurious _ hact =>
      have hmatches := hrefines.pc t
      cases action_of_act hact with
      | loaded hpc =>
          rw [hpc] at hmatches
          refine hrefines.moved hinv (fun a ha => by rw [hpc] at ha; cases ha) ?_
          cases hmutex : u.pc t <;> rw [hmutex] at hmatches <;> exact hmatches
      | linked hpc hlast hwrite => exact hrefines.of_link hinv hpc hlast hwrite
      | failed hpc =>
          rw [hpc] at hmatches
          refine hrefines.moved hinv (fun a ha => by rwa [hpc] at ha) ?_
          cases hmutex : u.pc t <;> rw [hmutex] at hmatches <;> exact hmatches
      | read hpc hnext => exact hrefines.of_read hinv hpc hnext
      | published | exchanged | returned => cases hinvisible

/-! ### Visible actions -/

theorem MutexConfig.goto_pc (u : MutexConfig Tid) (t : Tid) (s : State Tid) (pc : MutexPc) :
    (u.goto t s pc).pc t = pc :=
  Function.update_self _ _ _

theorem MutexConfig.goto_pc_of_ne {t t' : Tid} (hne : t' ≠ t) (s : State Tid) (pc : MutexPc) :
    (u.goto t s pc).pc t' = u.pc t' :=
  Function.update_of_ne hne _ _

omit [DecidableEq Tid] in
theorem Refines.idle (hrefines : Refines k u) (hidle : k.pc t = .idle) : u.pc t = .idle := by
  have hmatches := hrefines.pc t
  rw [hidle] at hmatches
  cases hmutex : u.pc t with
  | idle => rfl
  | publish c list | detach c | returning list =>
      rw [hmutex] at hmatches
      cases hmatches

/-- Both machines begin or end a call. -/
theorem Refines.starts (hrefines : Refines k u) {pc : Pc} {mpc : MutexPc}
    (hmatches : pc.Matches k.state.memory (k.own t) mpc) (hbefore : (k.pc t).tail = none) :
    Refines (k.goto t k.state pc) (u.goto t u.state mpc) where
  state := hrefines.state
  slab := hrefines.slab
  byte := hrefines.byte
  block a ha := by
    apply hrefines.block a
    intro t' htail'
    by_cases ht : t' = t
    · subst ht
      rw [hbefore] at htail'
      cases htail'
    · apply ha t'
      rwa [Config.goto_pc_of_ne ht]
  unlinked := hrefines.unlinked
  own := hrefines.own
  pc t' := by
    by_cases ht : t' = t
    · subst ht
      rw [Config.goto_pc, MutexConfig.goto_pc]
      exact hmatches
    · rw [Config.goto_pc_of_ne ht, MutexConfig.goto_pc_of_ne ht]
      exact hrefines.pc t'

theorem Refines.of_relink (hrefines : Refines k u) (hinv : Inv k chains) {a : Nat} {target : Ptr}
    {m : Memory} (hidle : k.pc t = .idle) (hown : a ∈ k.own t)
    (hwrite : k.state.memory.setNextFree a target = some m) :
    ∃ u', MutexStep u (.relink t a target) u' ∧
      Refines { k with state := { k.state with memory := m } } u' := by
  obtain ⟨-, q, hq⟩ := hinv.block (.own t) a hown
  have hsame : u.state.memory.block a = k.state.memory.block a :=
    hrefines.block_own hinv hown (by rw [hidle]; exact fun h => by cases h)
  obtain ⟨b, m', hb, hset, hframe, hblock, hunlinked⟩ := exists_link hq target
  obtain rfl := Option.some.inj (hset.symm.trans hwrite)
  obtain ⟨b', m₁, hb', hset', hframe', hblock', hunlinked'⟩ :=
    exists_link ((next_congr hsame).trans hq) target
  obtain rfl := Option.some.inj (hb.symm.trans (hsame.symm.trans hb'))
  refine ⟨_, .relink (hrefines.idle hidle) (by rwa [hrefines.own]) hset', ?_, ?_, ?_, fun x hx => ?_,
    fun x => ?_, hrefines.own, fun t' => ?_⟩
  · rw [hrefines.state]
  · calc m₁.slab = u.state.memory.slab := hframe'.slab
      _ = k.state.memory.slab := hrefines.slab
      _ = m'.slab := hframe.slab.symm
  · calc m₁.byte = u.state.memory.byte := hframe'.byte
      _ = k.state.memory.byte := hrefines.byte
      _ = m'.byte := hframe.byte.symm
  · change m₁.block x = m'.block x
    by_cases hxa : x = a
    · rw [hxa, hblock, hblock']
    · rw [hframe.block x (by simpa using hxa), hframe'.block x (by simpa using hxa)]
      exact hrefines.block x hx
  · calc (m₁.block x).map withoutLink = (u.state.memory.block x).map withoutLink := hunlinked' x
      _ = (k.state.memory.block x).map withoutLink := hrefines.unlinked x
      _ = (m'.block x).map withoutLink := (hunlinked x).symm
  · by_cases ht : t' = t
    · subst ht
      change (k.pc t').Matches m' (k.own t') (u.pc t')
      rw [hidle, hrefines.idle hidle]
      trivial
    · refine (hrefines.pc t').congr fun x hx => hframe.next fun hmem => ht ?_
      obtain rfl := List.mem_singleton.mp hmem
      exact hinv.own_disjoint hx hown

theorem Refines.of_callPublish (hrefines : Refines k u) (hinv : Inv k chains) {list : TransferList}
    {xs : List Nat} (hidle : k.pc t = .idle)
    (hlist : MayPublish k.state.memory (k.own t) list xs) :
    ∃ u', MutexStep u (.callPublish t c list) u' ∧
      Refines (k.goto t k.state (startPublish c list)) u' := by
  have hmay : MayPublish u.state.memory (u.own t) list xs := by
    rw [hrefines.own]
    refine { hlist with chain := hlist.chain.congr fun a ha => next_congr ?_ }
    exact hrefines.block_own hinv (hlist.owned ha) (by rw [hidle]; exact fun h => by cases h)
  refine ⟨_, .callPublish (hrefines.idle hidle) hmay, ?_⟩
  unfold startPublish
  by_cases hfirst : list.first = none
  · rw [if_pos hfirst, if_pos hfirst]
    exact hrefines.starts trivial (by rw [hidle]; rfl)
  · rw [if_neg hfirst, if_neg hfirst]
    exact hrefines.starts ⟨rfl, rfl⟩ (by rw [hidle]; rfl)

theorem eq_of_withoutLink {b b' : Block} (hunlinked : withoutLink b = withoutLink b') :
    { b with nextFree := b'.nextFree } = b' := by
  cases b
  cases b'
  simpa [withoutLink] using hunlinked

/-- **Publication.** The compare-exchange has found the head its tail link holds, so the chain it publishes
is the one the specification links. -/
theorem Refines.of_published (hrefines : Refines k u) (hinv : Inv k chains) {list : TransferList}
    {observed : Ptr} (hpc : k.pc t = .compareExchange c list observed)
    (hhead : k.state.sharedHeads c = observed) :
    ∃ u', MutexStep u (.published t c list) u' ∧
      Refines { k.goto t { k.state with
          sharedHeads := Function.update k.state.sharedHeads c list.first } .idle with
        own := giveUp k.own t (nodes k.state.memory list.count list.first) } u' := by
  have hok := hinv.thread t
  have hmatches := hrefines.pc t
  rw [hpc] at hok hmatches
  obtain ⟨⟨xs, last, hbatch, hsub, hlink⟩, -⟩ := hok
  have hmutex : u.pc t = .publish c list := by
    cases hmutex : u.pc t with
    | publish c' list' =>
        rw [hmutex] at hmatches
        obtain ⟨rfl, rfl⟩ := hmatches
        rfl
    | idle | detach c' | returning list' =>
        rw [hmutex] at hmatches
        cases hmatches
  have htail : ∀ a, (k.pc t).tail = some a ↔ a = last := by
    intro a
    rw [hpc]
    change list.last = some a ↔ a = last
    rw [hbatch.tail, Option.some.injEq]
    exact eq_comm
  -- Before the tail the two storages agree, so they list the same batch.
  have hbatch' : Batch u.state.memory list xs last := by
    refine hbatch.congr fun a ha => next_congr ?_
    apply hrefines.block_own hinv (hsub (List.mem_append_left _ ha))
    intro htail'
    obtain rfl := (htail a).mp htail'
    exact (List.nodup_append.mp hbatch.nodup).2.2 a ha a (by simp) rfl
  obtain ⟨b, hb, hnextFree⟩ := exists_block_of_next hlink
  obtain ⟨b', hb', hunlinked⟩ : ∃ b', u.state.memory.block last = some b' ∧
      withoutLink b' = withoutLink b := by
    have hsame := hrefines.unlinked last
    rw [hb] at hsame
    obtain ⟨b', hb', heq⟩ := Option.map_eq_some_iff.mp hsame
    exact ⟨b', hb', heq⟩
  obtain ⟨b'', m, hb'', hset, hframe, hblock, hunlinked'⟩ :=
    exists_link (next_eq_some hb') (u.state.sharedHeads c)
  obtain rfl := Option.some.inj (hb'.symm.trans hb'')
  have hlinked : m.block last = k.state.memory.block last := by
    rw [hblock, hb, hrefines.heads, hhead, ← hnextFree, eq_of_withoutLink hunlinked]
  obtain ⟨first, hfirst⟩ := Option.ne_none_iff_exists'.mp hbatch.first_ne_none
  have hpublish : transferMutexPublish u.state c list = some { u.state with
      memory := m
      sharedHeads := Function.update u.state.sharedHeads c (some first) } := by
    simp [transferMutexPublish, hfirst, hbatch.tail, hset]
  refine ⟨_, .publish hmutex hpublish, ?_, ?_, ?_, fun a ha => ?_, fun a => ?_, ?_, fun t' => ?_⟩
  · rw [hrefines.state, ← hfirst]
    rfl
  · exact hframe.slab.trans hrefines.slab
  · exact hframe.byte.trans hrefines.byte
  · change m.block a = k.state.memory.block a
    by_cases hlast : a = last
    · rw [hlast, hlinked]
    · rw [hframe.block a (by simpa using hlast)]
      apply hrefines.block a
      intro t' htail'
      by_cases ht : t' = t
      · subst ht
        exact hlast ((htail a).mp htail')
      · apply ha t'
        change ((Function.update k.pc t .idle) t').tail = some a
        rwa [Function.update_of_ne ht]
  · exact (hunlinked' a).trans (hrefines.unlinked a)
  · change giveUp u.own t _ = giveUp k.own t _
    rw [hrefines.own, hbatch.nodes_eq, hbatch'.nodes_eq]
  · change (Function.update k.pc t .idle t').Matches k.state.memory _ (Function.update u.pc t .idle t')
    by_cases ht : t' = t
    · subst ht
      rw [Function.update_self, Function.update_self]
      trivial
    · rw [Function.update_of_ne ht, Function.update_of_ne ht]
      have hothers := hrefines.pc t'
      simpa [giveUp, ht] using hothers

/-- **Detachment.** -/
theorem Refines.of_exchanged (hrefines : Refines k u) (hinv : Inv k chains)
    (hpc : k.pc t = .exchange c) :
    ∃ u', MutexStep u (.detached t c (k.state.sharedHeads c).isSome) u' ∧
      Refines { k.goto t { k.state with sharedHeads := Function.update k.state.sharedHeads c none }
          (.traverse (k.state.sharedHeads c) (k.state.sharedHeads c) none 0) with
        own := obtained k.own t (nodes k.state.memory addressSpace (k.state.sharedHeads c)) } u' := by
  have hmatches := hrefines.pc t
  rw [hpc] at hmatches
  have hmutex : u.pc t = .detach c := by
    cases hmutex : u.pc t with
    | detach c' =>
        rw [hmutex] at hmatches
        obtain rfl := hmatches
        rfl
    | idle | publish c' list' | returning list' =>
        rw [hmutex] at hmatches
        cases hmatches
  have hlength := (hinv.length_lt c).le
  have hchain : Chain u.state.memory.next (u.state.sharedHeads c) (chains c) := by
    rw [hrefines.heads]
    exact (hinv.chain c).congr fun a ha => next_congr (hrefines.block_shared hinv ha)
  obtain ⟨list, hdetach, howns⟩ := transferMutexDetach_of_chain hchain hlength
  have hfirst : list.first = k.state.sharedHeads c := by
    rw [howns.chain.head?_eq, (hinv.chain c).head?_eq]
  have hnodes : nodes u.state.memory addressSpace list.first = chains c :=
    nodes_of_chain howns.chain hlength
  have hstep := MutexStep.detach hmutex hdetach
  rw [hrefines.heads] at hstep
  refine ⟨_, hstep, ?_, hrefines.slab, hrefines.byte, fun a ha => ?_, hrefines.unlinked, ?_,
    fun t' => ?_⟩
  · rw [hrefines.state]
    rfl
  · apply hrefines.block a
    intro t' htail'
    by_cases ht : t' = t
    · subst ht
      rw [hpc] at htail'
      cases htail'
    · apply ha t'
      change ((Function.update k.pc t _) t').tail = some a
      rwa [Function.update_of_ne ht]
  · change obtained u.own t _ = obtained k.own t _
    rw [hrefines.own, hnodes, nodes_of_chain (hinv.chain c) hlength]
  · change (Function.update k.pc t _ t').Matches k.state.memory (obtained k.own t _ t')
      (Function.update u.pc t (.returning list) t')
    rw [nodes_of_chain (hinv.chain c) hlength]
    by_cases ht : t' = t
    · subst ht
      rw [Function.update_self, Function.update_self, obtained, Function.update_self]
      refine ⟨chains c, hinv.chain c, List.subset_append_left _ _, ?_⟩
      have hlast := howns.last
      have hcount := howns.count
      cases list
      simp_all
    · rw [Function.update_of_ne ht, Function.update_of_ne ht, obtained, Function.update_of_ne ht]
      exact hrefines.pc t'

theorem Refines.of_returned (hrefines : Refines k u) {first last : Ptr} {count : Nat}
    (hpc : k.pc t = .traverse first none last count) :
    ∃ u', MutexStep u (.returned t ⟨first, last, count⟩) u' ∧ Refines (k.goto t k.state .idle) u' := by
  have hmatches := hrefines.pc t
  rw [hpc] at hmatches
  cases hmutex : u.pc t with
  | returning list =>
      rw [hmutex] at hmatches
      obtain ⟨rest, hchain, -, rfl⟩ := hmatches
      obtain rfl := hchain.eq_nil_iff.mp rfl
      have hlist : (⟨first, ([] : List Nat).getLast?.or last, count + ([] : List Nat).length⟩ : TransferList)
          = ⟨first, last, count⟩ := by simp
      rw [hlist] at hmutex
      exact ⟨_, .returned hmutex, hrefines.starts trivial (by rw [hpc]; rfl)⟩
  | idle | publish c' list' | detach c' =>
      rw [hmutex] at hmatches
      cases hmatches

/-- **Matching.** A visible action is matched by the same action of the specification. -/
theorem Refines.of_visible (hrefines : Refines k u) (hinv : Inv k chains) {event : Event Tid}
    (hstep : Step k e k') (hvisible : e.visible = some event) :
    ∃ u', MutexStep u event u' ∧ Refines k' u' := by
  cases hstep with
  | relink hidle hown hwrite =>
      obtain rfl := Option.some.inj hvisible
      exact hrefines.of_relink hinv hidle hown hwrite
  | callPublish hidle hlist =>
      obtain rfl := Option.some.inj hvisible
      exact hrefines.of_callPublish hinv hidle hlist
  | callDetach hidle =>
      obtain rfl := Option.some.inj hvisible
      exact ⟨_, .callDetach (hrefines.idle hidle), hrefines.starts rfl (by rw [hidle]; rfl)⟩
  | act hact =>
      cases action_of_act hact with
      | published hpc hhead =>
          obtain rfl := Option.some.inj hvisible
          exact hrefines.of_published hinv hpc hhead
      | exchanged hpc =>
          obtain rfl := Option.some.inj hvisible
          exact hrefines.of_exchanged hinv hpc
      | returned hpc =>
          obtain rfl := Option.some.inj hvisible
          exact hrefines.of_returned hpc
      | loaded | linked | failed | read => cases hvisible

/-! ### The refinement -/

/-- The configuration of the specification with the same storage and owners. -/
def Config.specification (k : Config Tid) : MutexConfig Tid :=
  { state := k.state, pc := fun _ => .idle, own := k.own }

omit [DecidableEq Tid] in
theorem refines_specification (hidle : ∀ t, k.pc t = .idle) : Refines k k.specification where
  state := rfl
  slab := rfl
  byte := rfl
  block _ _ := rfl
  unlinked _ := rfl
  own := rfl
  pc t := by
    rw [hidle t]
    trivial

theorem simulation : System.Simulation (machine Tid) (mutexMachine Tid)
    fun k u => (∃ chains, Inv k chains) ∧ Refines k u where
  init k hinit := by
    obtain ⟨hinitial, hidle⟩ := hinit
    exact ⟨k.specification, ⟨hinitial, fun _ => rfl⟩, ⟨_, Inv.initial hinitial hidle⟩,
      refines_specification hidle⟩
  internal k k' u hrelated hstep := by
    obtain ⟨⟨chains, hinv⟩, hrefines⟩ := hrelated
    obtain ⟨event, hvisible, hstep⟩ := hstep
    exact ⟨hinv.of_step hstep, hrefines.of_invisible hinv hstep hvisible.symm⟩
  observe k k' u e hrelated hstep := by
    obtain ⟨⟨chains, hinv⟩, hrefines⟩ := hrelated
    obtain ⟨event, hvisible, hstep⟩ := hstep
    obtain ⟨u', hmutex, hrefines'⟩ := hrefines.of_visible hinv hstep hvisible.symm
    exact ⟨u', ⟨e, rfl, hmutex⟩, hinv.of_step hstep, hrefines'⟩

/-- What the visible actions do to the chains, at a configuration. -/
structure TransferEffects (k : Config Tid) : Prop where
  /-- A publish prepends its whole batch, in order, to the chain of its class. -/
  published : ∀ t c list k', Step k (.published t c list) k' → ∃ xs ys, xs.head? = list.first ∧
    xs.getLast? = list.last ∧ xs.length = list.count ∧ xs ⊆ k.own t ∧
    Chain k.state.memory.next (k.state.sharedHeads c) ys ∧
    Chain k'.state.memory.next (k'.state.sharedHeads c) (xs ++ ys) ∧
    k'.state.memory = k.state.memory ∧ ∀ d, d ≠ c → k'.state.sharedHeads d = k.state.sharedHeads d
  /-- An exchange hands over the chain of its class and leaves that class empty. -/
  detached : ∀ t c nonempty k', Step k (.detached t c nonempty) k' → ∃ ys,
    Chain k.state.memory.next (k.state.sharedHeads c) ys ∧ k'.own t = ys ++ k.own t ∧
    k'.state.sharedHeads c = none ∧ k'.state.memory = k.state.memory ∧
    ∀ d, d ≠ c → k'.state.sharedHeads d = k.state.sharedHeads d
  /-- What a detach returns describes a list of its thread exactly. -/
  returned : ∀ t list k', Step k (.returned t list) k' → ∃ xs, list.Owns k.state.memory xs ∧
    xs ⊆ k.own t

theorem Inv.transferEffects (hinv : Inv k chains) : TransferEffects k where
  published t c list k' hstep := by
    cases hstep with
    | act hact =>
        cases action_of_act hact with
        | published hpc hhead =>
            obtain ⟨xs, last, hbatch, hsub, hinv'⟩ := hinv.of_published hpc hhead
            have hchain := hinv'.chain c
            rw [Function.update_self] at hchain
            refine ⟨xs ++ [last], chains c, ?_, ?_, hbatch.count.symm, hsub, hinv.chain c, hchain, rfl,
              fun d hd => Function.update_of_ne hd _ _⟩
            · have hfirst : Function.update k.state.sharedHeads c list.first c = list.first :=
                Function.update_self _ _ _
              have hhead' : list.first = (xs ++ [last] ++ chains c).head? := hfirst.symm.trans hchain.head?_eq
              rw [hhead', List.append_assoc, List.head?_append, List.head?_append]
              simp
            · simp [hbatch.tail]
  detached t c nonempty k' hstep := by
    cases hstep with
    | act hact =>
        cases action_of_act hact with
        | exchanged hpc =>
            refine ⟨chains c, hinv.chain c, ?_, Function.update_self _ _ _, rfl,
              fun d hd => Function.update_of_ne hd _ _⟩
            change obtained k.own t _ t = _
            rw [nodes_of_chain (hinv.chain c) (hinv.length_lt c).le, obtained, Function.update_self]
  returned t list k' hstep := by
    cases hstep with
    | act hact =>
        cases action_of_act hact with
        | returned hpc =>
            have hok := hinv.thread t
            rw [hpc] at hok
            obtain ⟨visited, rest, hpath, hchain, hsub, hlast, hcount⟩ := hok
            obtain rfl := hchain.eq_nil_iff.mp rfl
            exact ⟨visited, ⟨hpath, hlast, hcount⟩, fun a ha => hsub (List.mem_append_left _ ha)⟩

/-- **Refinement.** Every run of the lock-free transfer, whatever the interleaving of the single accesses
and whichever compare-exchanges fail spuriously, is matched by a run of the atomic mutex operations with
the same visible actions; and in every reachable configuration these actions have their specified effect on
the chains. -/
theorem transfer_refinement (k₀ k : Config Tid) (trace : List (Event Tid))
    (hinit : (machine Tid).init k₀) (hrun : (machine Tid).Run k₀ trace k) :
    (∃ u, (mutexMachine Tid).init k₀.specification ∧
      (mutexMachine Tid).Run k₀.specification trace u ∧ Refines k u) ∧ TransferEffects k := by
  obtain ⟨hinitial, hidle⟩ := hinit
  have hstart : (∃ chains, Inv k₀ chains) ∧ Refines k₀ k₀.specification :=
    ⟨⟨_, Inv.initial hinitial hidle⟩, refines_specification hidle⟩
  obtain ⟨u, hmutex, ⟨chains, hinv⟩, hrefines⟩ := simulation.run hrun hstart
  exact ⟨⟨u, ⟨hinitial, fun _ => rfl⟩, hmutex, hrefines⟩, hinv.transferEffects⟩

/-! ### A head that goes and comes back -/

/-- The visible actions of a schedule in which thread 1 detaches and republishes the head while thread 0
is between its load and its compare-exchange. -/
def headCycle : List (Event (Fin 2)) :=
  [.callPublish 1 firstClass (single 8192), .published 1 firstClass (single 8192),
    .callPublish 0 firstClass (single 4096), .callDetach 1 firstClass, .detached 1 firstClass true,
    .returned 1 (single 8192), .callPublish 1 firstClass (single 8192),
    .published 1 firstClass (single 8192), .published 0 firstClass (single 4096)]

/-- The compare-exchange of thread 0 succeeds against the head it had observed before. -/
theorem transfer_refinement_head_cycle : ∃ k,
    (machine (Fin 2)).Run twoOwners headCycle k ∧ k.state.sharedHeads firstClass = some 4096 ∧
      k.state.memory.next 4096 = some (some 8192) ∧
      ∃ u, (mutexMachine (Fin 2)).Run twoOwners.specification headCycle u ∧ Refines k u := by
  have hact : ∀ {k k' : Config (Fin 2)} {e : Event (Fin 2)} (t : Fin 2), act k t false = some (e, k') →
      Step k e k' := fun t h => .act h
  have r₀ : (machine (Fin 2)).Run twoOwners [] twoOwners := .refl
  -- Thread 1 publishes its block.
  have r₁ := r₀.observe ⟨_, rfl, Step.publish_single (t := 1) firstClass rfl rfl rfl⟩
  have r₂ := r₁.internal ⟨.load 1 firstClass, rfl, hact 1 rfl⟩
  have r₃ := r₂.internal ⟨.link 1 8192, rfl, hact 1 rfl⟩
  have r₄ := r₃.observe ⟨.published 1 firstClass (single 8192), rfl, hact 1 rfl⟩
  -- Thread 0 observes it as the head.
  have r₅ := r₄.observe ⟨_, rfl, Step.publish_single (t := 0) firstClass rfl rfl rfl⟩
  have r₆ := r₅.internal ⟨.load 0 firstClass, rfl, hact 0 rfl⟩
  have r₇ := r₆.internal ⟨.link 0 4096, rfl, hact 0 rfl⟩
  -- Thread 1 takes it away and publishes it again.
  have r₈ := r₇.observe ⟨.callDetach 1 firstClass, rfl, .callDetach rfl⟩
  have r₉ := r₈.observe ⟨.detached 1 firstClass true, rfl, hact 1 rfl⟩
  have r₁₀ := r₉.internal ⟨.read 1 8192, rfl, hact 1 rfl⟩
  have r₁₁ := r₁₀.observe ⟨.returned 1 (single 8192), rfl, hact 1 rfl⟩
  have r₁₂ := r₁₁.observe ⟨_, rfl, Step.publish_single (t := 1) firstClass rfl rfl rfl⟩
  have r₁₃ := r₁₂.internal ⟨.load 1 firstClass, rfl, hact 1 rfl⟩
  have r₁₄ := r₁₃.internal ⟨.link 1 8192, rfl, hact 1 rfl⟩
  have r₁₅ := r₁₄.observe ⟨.published 1 firstClass (single 8192), rfl, hact 1 rfl⟩
  have r₁₆ := r₁₅.observe ⟨.published 0 firstClass (single 4096), rfl, hact 0 rfl⟩
  obtain ⟨⟨u, -, hmutex, hrefines⟩, -⟩ :=
    transfer_refinement twoOwners _ headCycle ⟨twoOwners_initial, fun _ => rfl⟩ r₁₆
  exact ⟨_, r₁₆, rfl, rfl, u, hmutex, hrefines⟩

end Hplf.TransferAtomic
