import HplfMalloc.Lib.Placement
import HplfMalloc.Proof.AtomicActions
import HplfMalloc.Proof.ListSteps

/-!
# The invariant of the lock-free transfer

Every block is owned by one thread or lies on the chain of one class. The links between the blocks of a
batch that is being published are fixed; its tail link is not, and holds whatever head the call has last
observed, so the invariant says where a batch ends and nothing of what hangs off it.
-/

namespace Hplf.TransferAtomic

open Lib Memory

variable {Tid : Type}

/-- Where a block can be. -/
inductive Place (Tid : Type)
  | own (t : Tid)
  | shared (c : ClassIndex)
  deriving DecidableEq

def contents (own : Tid → List Nat) (chains : ClassIndex → List Nat) : Place Tid → List Nat
  | .own t => own t
  | .shared c => chains c

/-- A nonempty list up to its last block, whose link is left open. -/
structure Batch (m : Memory) (list : TransferList) (xs : List Nat) (last : Nat) : Prop where
  path : Path m.next list.first xs (some last)
  tail : list.last = some last
  count : list.count = (xs ++ [last]).length
  nodup : (xs ++ [last]).Nodup

/-- The local variables of a call, in terms of the blocks its thread owns. -/
def Pc.Ok (m : Memory) (own : List Nat) : Pc → Prop
  | .idle | .exchange _ => True
  | .load _ list => ∃ xs last, Batch m list xs last ∧ xs ++ [last] ⊆ own
  | .link _ list observed => (∃ xs last, Batch m list xs last ∧ xs ++ [last] ⊆ own) ∧
      ∀ a, observed = some a → a ∉ own
  | .compareExchange _ list observed =>
      (∃ xs last, Batch m list xs last ∧ xs ++ [last] ⊆ own ∧ m.next last = some observed) ∧
        ∀ a, observed = some a → a ∉ own
  | .traverse first block last count => ∃ visited rest, Path m.next first visited block ∧
      Chain m.next block rest ∧ visited ++ rest ⊆ own ∧ last = visited.getLast? ∧
      count = visited.length

/-- **The invariant**, with the chain of every class. -/
structure Inv (k : Config Tid) (chains : ClassIndex → List Nat) : Prop where
  chain : ∀ c, Chain k.state.memory.next (k.state.sharedHeads c) (chains c)
  placed : Placed (contents k.own chains)
  block : ∀ p, ∀ a ∈ contents k.own chains p,
    (0 < a ∧ a < addressSpace) ∧ ∃ q, k.state.memory.next a = some q
  thread : ∀ t, (k.pc t).Ok k.state.memory (k.own t)

section Lists

variable {m m' : Memory} {list : TransferList} {xs : List Nat} {last : Nat} {own : List Nat} {pc : Pc}

theorem Batch.congr (hbatch : Batch m list xs last) (hsame : ∀ a ∈ xs, m'.next a = m.next a) :
    Batch m' list xs last :=
  { hbatch with path := hbatch.path.congr hsame }

/-- What a thread knows depends on the links of its own blocks only. -/
theorem Pc.Ok.congr (hok : pc.Ok m own) (hsame : ∀ a ∈ own, m'.next a = m.next a) : pc.Ok m' own := by
  cases pc with
  | idle | exchange c => trivial
  | load c list =>
      obtain ⟨xs, last, hbatch, hsub⟩ := hok
      exact ⟨xs, last, hbatch.congr fun a ha => hsame a (hsub (List.mem_append_left _ ha)), hsub⟩
  | link c list observed =>
      obtain ⟨⟨xs, last, hbatch, hsub⟩, hobserved⟩ := hok
      exact ⟨⟨xs, last, hbatch.congr fun a ha => hsame a (hsub (List.mem_append_left _ ha)), hsub⟩,
        hobserved⟩
  | compareExchange c list observed =>
      obtain ⟨⟨xs, last, hbatch, hsub, hlink⟩, hobserved⟩ := hok
      refine ⟨⟨xs, last, hbatch.congr fun a ha => hsame a (hsub (List.mem_append_left _ ha)), hsub, ?_⟩,
        hobserved⟩
      rw [hsame last (hsub (by simp)), hlink]
  | traverse first block last count =>
      obtain ⟨visited, rest, hpath, hchain, hsub, hlast, hcount⟩ := hok
      refine ⟨visited, rest, hpath.congr fun a ha => hsame a (hsub ?_), hchain.congr fun a ha =>
        hsame a (hsub ?_), hsub, hlast, hcount⟩
      · exact List.mem_append_left _ ha
      · exact List.mem_append_right _ ha

/-- A list a caller may pass is empty, or a batch. -/
theorem MayPublish.batch (hlist : MayPublish m own list xs) (hfirst : list.first ≠ none) :
    ∃ ys last, Batch m list ys last ∧ ys ++ [last] = xs := by
  have hne : xs ≠ [] := fun hnil => hfirst (hlist.chain.eq_nil_iff.mpr hnil)
  have hxs := List.dropLast_append_getLast hne
  have hchain := hlist.chain
  rw [← hxs] at hchain
  obtain ⟨r, hpath, hlink⟩ := chain_append.mp hchain
  obtain ⟨rfl, -⟩ := chain_cons.mp hlink
  refine ⟨xs.dropLast, xs.getLast hne, ⟨hpath, ?_, ?_, ?_⟩, hxs⟩
  · rw [hlist.last, List.getLast?_eq_some_getLast hne]
  · rw [hlist.count, hxs]
  · rw [hxs]
    exact hlist.chain.nodup

theorem Batch.first_ne_none (hbatch : Batch m list xs last) : list.first ≠ none := by
  intro hnone
  have hpath := hbatch.path
  rw [hnone] at hpath
  cases xs with
  | nil => cases hpath
  | cons a xs => cases hpath.1

theorem nodes_of_chain {p : Ptr} (hchain : Chain m.next p xs) {n : Nat} (hn : xs.length ≤ n) :
    nodes m n p = xs := by
  induction xs generalizing p n with
  | nil =>
      obtain rfl := chain_nil.mp hchain
      cases n <;> rfl
  | cons a xs ih =>
      obtain ⟨rfl, r, hr, hrest⟩ := chain_cons.mp hchain
      obtain ⟨n, rfl⟩ : ∃ n', n = n' + 1 := ⟨n - 1, by simp at hn; omega⟩
      have hle : xs.length ≤ n := by simpa using hn
      simp [nodes, hr, ih hrest hle]

/-- The nodes of a batch do not depend on its tail link. -/
theorem Batch.nodes_eq (hbatch : Batch m list xs last) :
    nodes m list.count list.first = xs ++ [last] := by
  rw [hbatch.count]
  have hgo : ∀ {ys : List Nat} {p : Ptr}, Path m.next p ys (some last) →
      nodes m (ys ++ [last]).length p = ys ++ [last] := by
    intro ys
    induction ys with
    | nil =>
        intro p hpath
        obtain rfl := path_nil.mp hpath
        rfl
    | cons a ys ih =>
        intro p hpath
        obtain ⟨rfl, r, hr, hrest⟩ := path_cons.mp hpath
        simpa [nodes, hr] using ih hrest
  exact hgo hbatch.path

end Lists

/-! ### Steps -/

variable {k k' : Config Tid} {chains : ClassIndex → List Nat} {t u : Tid}
variable {c : ClassIndex} {e : Event Tid}

theorem Inv.own_disjoint (hinv : Inv k chains) {a : Nat} (ht : a ∈ k.own t) (hu : a ∈ k.own u) :
    t = u := by
  have hplace := hinv.placed.disjoint (p := .own t) (q := .own u) ht hu
  exact Place.own.inj hplace

theorem Inv.not_shared (hinv : Inv k chains) {a : Nat} (hown : a ∈ k.own t) (c : ClassIndex) :
    a ∉ chains c := by
  intro hshared
  have hplace := hinv.placed.disjoint (p := .own t) (q := .shared c) hown hshared
  cases hplace

theorem Inv.head_not_own (hinv : Inv k chains) (c : ClassIndex) (t : Tid) :
    ∀ a, k.state.sharedHeads c = some a → a ∉ k.own t := by
  intro a hhead hown
  apply hinv.not_shared hown c
  have hchain := hinv.chain c
  rw [hchain.head?_eq] at hhead
  exact List.mem_of_mem_head? hhead

theorem Inv.length_lt (hinv : Inv k chains) (c : ClassIndex) : (chains c).length < addressSpace :=
  length_le_addressSpace (hinv.chain c).nodup fun a ha => (hinv.block (.shared c) a ha).1

variable [DecidableEq Tid]

/-- **A private step.** A thread moves on and rewrites at most the link of a block it owns. -/
theorem Inv.privateStep (hinv : Inv k chains) {m : Memory} {pc : Pc} {touched : List Nat}
    (hframe : Framed touched k.state.memory m) (htouched : touched ⊆ k.own t)
    (hok : pc.Ok m (k.own t)) :
    Inv (k.goto t { k.state with memory := m } pc) chains where
  chain c := hframe.chain (hinv.chain c) fun a ha hmem => hinv.not_shared (htouched hmem) c ha
  placed := hinv.placed
  block p a ha := by
    obtain ⟨hbound, q, hq⟩ := hinv.block p a ha
    obtain ⟨b, hb, -⟩ := exists_block_of_next hq
    obtain ⟨b', hb', -⟩ := hframe.exists_block hb
    exact ⟨hbound, _, next_eq_some hb'⟩
  thread u := by
    by_cases hu : u = t
    · subst hu
      rw [Config.goto_pc]
      exact hok
    · rw [Config.goto_pc_of_ne hu]
      refine (hinv.thread u).congr fun a ha => hframe.next fun hmem => hu ?_
      exact hinv.own_disjoint ha (htouched hmem)

/-- The same with the storage left alone. -/
theorem Inv.moved (hinv : Inv k chains) {pc : Pc} (hok : pc.Ok k.state.memory (k.own t)) :
    Inv (k.goto t k.state pc) chains :=
  hinv.privateStep (Framed.refl [] _) (List.nil_subset _) hok

theorem Inv.of_relink (hinv : Inv k chains) {a : Nat} {target : Ptr} {m : Memory}
    (hidle : k.pc t = .idle) (hown : a ∈ k.own t)
    (hwrite : k.state.memory.setNextFree a target = some m) :
    Inv { k with state := { k.state with memory := m } } chains := by
  obtain ⟨-, q, hq⟩ := hinv.block (.own t) a hown
  obtain ⟨m', hset, hframe, -, -⟩ := exists_setNextFree hq target
  obtain rfl := Option.some.inj (hset.symm.trans hwrite)
  have hmoved : Inv (k.goto t { k.state with memory := m' } .idle) chains :=
    hinv.privateStep hframe (by simpa using hown) trivial
  have hgoto : k.goto t { k.state with memory := m' } .idle
      = { k with state := { k.state with memory := m' } } := by
    rw [Config.goto, ← hidle, Function.update_eq_self]
  rwa [hgoto] at hmoved

theorem Inv.of_callPublish (hinv : Inv k chains) {list : TransferList} {xs : List Nat}
    (hlist : MayPublish k.state.memory (k.own t) list xs) :
    Inv (k.goto t k.state (startPublish c list)) chains := by
  apply hinv.moved
  unfold startPublish
  split
  · trivial
  · rename_i hfirst
    obtain ⟨ys, last, hbatch, rfl⟩ := hlist.batch hfirst
    exact ⟨ys, last, hbatch, hlist.owned⟩

/-- **The tail link.** It may hold any address; the batch before it is untouched. -/
theorem Inv.of_link (hinv : Inv k chains) {list : TransferList} {observed : Ptr} {last : Nat}
    {m : Memory} (hpc : k.pc t = .link c list observed) (hlast : list.last = some last)
    (hwrite : k.state.memory.setNextFree last observed = some m) :
    Inv (k.goto t { k.state with memory := m } (.compareExchange c list observed)) chains := by
  have hok := hinv.thread t
  rw [hpc] at hok
  obtain ⟨⟨xs, last', hbatch, hsub⟩, hobserved⟩ := hok
  obtain rfl := Option.some.inj (hbatch.tail.symm.trans hlast)
  have hown : last' ∈ k.own t := hsub (by simp)
  obtain ⟨-, q, hq⟩ := hinv.block (.own t) last' hown
  obtain ⟨m', hset, hframe, -, hnext⟩ := exists_setNextFree hq observed
  obtain rfl := Option.some.inj (hset.symm.trans hwrite)
  refine hinv.privateStep hframe (by simpa using hown) ⟨⟨xs, last', ?_, hsub, ?_⟩, hobserved⟩
  · refine hbatch.congr fun a ha => hframe.next fun hmem => ?_
    obtain rfl := List.mem_singleton.mp hmem
    exact (List.nodup_append.mp hbatch.nodup).2.2 a ha a (by simp) rfl
  · rw [hnext, Function.update_self]

theorem contents_replace (own : Tid → List Nat) (chains : ClassIndex → List Nat) (t : Tid)
    (c : ClassIndex) (ys zs : List Nat) :
    contents (Function.update own t ys) (Function.update chains c zs)
      = replace₂ (contents own chains) (.own t) (.shared c) ys zs := by
  funext p
  cases p with
  | own u =>
      by_cases hu : u = t
      · simp [contents, replace₂, hu]
      · simp [contents, replace₂, hu]
  | shared e =>
      by_cases he : e = c
      · simp [contents, replace₂, he]
      · simp [contents, replace₂, he]

/-- **An ownership transfer.** Blocks move between thread `t` and the chain of class `c`, and no link is
written. -/
theorem Inv.transfer (hinv : Inv k chains) {pc : Pc} {ys zs : List Nat} {head : Ptr}
    (hperm : (ys ++ zs).Perm (k.own t ++ chains c)) (hchain : Chain k.state.memory.next head zs)
    (hok : pc.Ok k.state.memory ys) :
    Inv { k.goto t { k.state with sharedHeads := Function.update k.state.sharedHeads c head } pc with
      own := Function.update k.own t ys } (Function.update chains c zs) where
  chain d := by
    by_cases hd : d = c
    · subst hd
      simpa [Config.goto] using hchain
    · simpa [Config.goto, hd] using hinv.chain d
  placed := by
    change Placed (contents (Function.update k.own t ys) (Function.update chains c zs))
    rw [contents_replace]
    exact hinv.placed.move (by simp) hperm
  block p a ha := by
    change a ∈ contents (Function.update k.own t ys) (Function.update chains c zs) p at ha
    rw [contents_replace] at ha
    obtain ⟨q, hq⟩ := (exists_mem_replace₂ (by simp) hperm).mp ⟨p, ha⟩
    exact hinv.block q a hq
  thread u := by
    change (Function.update k.pc t pc u).Ok k.state.memory (Function.update k.own t ys u)
    by_cases hu : u = t
    · subst hu
      rw [Function.update_self, Function.update_self]
      exact hok
    · rw [Function.update_of_ne hu, Function.update_of_ne hu]
      exact hinv.thread u

/-- **Publication.** A compare-exchange that finds the observed head prepends the batch, whatever happened
to that head since it was observed. -/
theorem Inv.of_published (hinv : Inv k chains) {list : TransferList} {observed : Ptr}
    (hpc : k.pc t = .compareExchange c list observed) (hhead : k.state.sharedHeads c = observed) :
    ∃ xs last, Batch k.state.memory list xs last ∧ xs ++ [last] ⊆ k.own t ∧
      Inv { k.goto t { k.state with
          sharedHeads := Function.update k.state.sharedHeads c list.first } .idle with
        own := giveUp k.own t (nodes k.state.memory list.count list.first) }
        (Function.update chains c (xs ++ [last] ++ chains c)) := by
  have hok := hinv.thread t
  rw [hpc] at hok
  obtain ⟨⟨xs, last, hbatch, hsub, hlink⟩, -⟩ := hok
  refine ⟨xs, last, hbatch, hsub, ?_⟩
  rw [giveUp, hbatch.nodes_eq]
  refine hinv.transfer ?_ ?_ trivial
  · have hsubperm : (xs ++ [last]).Subperm (k.own t) := List.subperm_of_subset hbatch.nodup hsub
    have hdiff : (xs ++ [last] ++ (k.own t).diff (xs ++ [last])).Perm (k.own t) :=
      List.subperm_append_diff_self_of_count_le fun a _ => hsubperm.count_le a
    rw [← List.append_assoc]
    exact (List.perm_append_comm.trans hdiff).append_right (chains c)
  · rw [List.append_assoc]
    refine chain_append.mpr ⟨some last, hbatch.path, ?_⟩
    refine chain_cons.mpr ⟨rfl, observed, hlink, ?_⟩
    rw [← hhead]
    exact hinv.chain c

/-- **Detachment.** The exchange hands the whole chain to the thread. -/
theorem Inv.of_exchanged (hinv : Inv k chains) (c : ClassIndex) (t : Tid) :
    Inv { k.goto t { k.state with sharedHeads := Function.update k.state.sharedHeads c none }
        (.traverse (k.state.sharedHeads c) (k.state.sharedHeads c) none 0) with
      own := obtained k.own t (nodes k.state.memory addressSpace (k.state.sharedHeads c)) }
      (Function.update chains c []) := by
  rw [obtained, nodes_of_chain (hinv.chain c) (hinv.length_lt c).le]
  refine hinv.transfer ?_ rfl ⟨[], chains c, rfl, hinv.chain c, ?_, rfl, rfl⟩
  · rw [List.append_nil]
    exact List.perm_append_comm
  · exact List.subset_append_left _ _

theorem Inv.of_read (hinv : Inv k chains) {first last next : Ptr} {block count : Nat}
    (hpc : k.pc t = .traverse first (some block) last count)
    (hnext : k.state.memory.next block = some next) :
    Inv (k.goto t k.state (.traverse first next (some block) (count + 1))) chains := by
  have hok := hinv.thread t
  rw [hpc] at hok
  obtain ⟨visited, rest, hpath, hchain, hsub, hlast, hcount⟩ := hok
  obtain ⟨rest, rfl, hrest⟩ := hchain.follow hnext
  refine hinv.moved ⟨visited ++ [block], rest, ?_, hrest, ?_, ?_, ?_⟩
  · exact path_append.mpr ⟨_, hpath, rfl, next, hnext, rfl⟩
  · rwa [List.append_assoc]
  · simp
  · simp [hcount]

theorem Inv.of_action (hinv : Inv k chains) (haction : Action k t e k') : ∃ chains', Inv k' chains' := by
  have hok := hinv.thread t
  cases haction with
  | @loaded c list hpc =>
      rw [hpc] at hok
      exact ⟨chains, hinv.moved ⟨hok, hinv.head_not_own c t⟩⟩
  | linked hpc hlast hwrite => exact ⟨chains, hinv.of_link hpc hlast hwrite⟩
  | published hpc hhead =>
      obtain ⟨xs, last, -, -, hinv'⟩ := hinv.of_published hpc hhead
      exact ⟨_, hinv'⟩
  | @failed c list observed hpc =>
      rw [hpc] at hok
      obtain ⟨⟨xs, last, hbatch, hsub, -⟩, -⟩ := hok
      exact ⟨chains, hinv.moved ⟨⟨xs, last, hbatch, hsub⟩, hinv.head_not_own c t⟩⟩
  | exchanged hpc => exact ⟨_, hinv.of_exchanged _ t⟩
  | read hpc hnext => exact ⟨chains, hinv.of_read hpc hnext⟩
  | returned hpc => exact ⟨chains, hinv.moved trivial⟩

/-- **One step.** -/
theorem Inv.of_step (hinv : Inv k chains) (hstep : Step k e k') : ∃ chains', Inv k' chains' := by
  cases hstep with
  | relink hidle hown hwrite => exact ⟨chains, hinv.of_relink hidle hown hwrite⟩
  | callPublish hidle hlist => exact ⟨chains, hinv.of_callPublish hlist⟩
  | callDetach hidle => exact ⟨chains, hinv.moved trivial⟩
  | act hact => exact hinv.of_action (action_of_act hact)

omit [DecidableEq Tid] in
theorem Inv.initial (hinitial : Initial k.state k.own) (hidle : ∀ t, k.pc t = .idle) :
    Inv k fun _ => [] where
  chain c := hinitial.heads c
  placed := by
    refine ⟨fun p => ?_, fun {p q a} hp hq => ?_⟩
    · cases p with
      | own t => exact hinitial.nodup t
      | shared c => exact List.nodup_nil
    · cases p with
      | shared c => cases hp
      | own t =>
          cases q with
          | shared c => cases hq
          | own u => rw [hinitial.disjoint t u a hp hq]
  block p a ha := by
    cases p with
    | own t => exact hinitial.block t a ha
    | shared c => cases ha
  thread t := by
    rw [hidle t]
    trivial

/-- **Invariance.** -/
theorem inv_of_reachable (hreach : (machine Tid).Reachable k) : ∃ chains, Inv k chains := by
  refine hreach.invariant (I := fun k => ∃ chains, Inv k chains) ?_ ?_
  · rintro k ⟨hinitial, hidle⟩
    exact ⟨_, Inv.initial hinitial hidle⟩
  · rintro k e k' ⟨chains, hinv⟩ ⟨event, -, hstep⟩
    exact hinv.of_step hstep

end Hplf.TransferAtomic
