import HplfMalloc.Proof.MemoryLemmas

/-!
# Cutting and joining chains in place

Every list operation of the allocator is one of two writes: the link of a node is set to null, which cuts
a chain after that node, or the link of the last node of a chain is set to the head of another, which
joins the two. `Owns m list xs` says that the descriptor `list` describes the chain `xs` exactly.
-/

namespace Hplf

open Lib Memory

structure TransferList.Owns (m : Memory) (list : TransferList) (xs : List Nat) : Prop where
  chain : Chain m.next list.first xs
  last : list.last = xs.getLast?
  count : list.count = xs.length

theorem TransferList.Owns.congr {m m' : Memory} {list : TransferList} {xs : List Nat}
    (howns : list.Owns m xs) (hsame : ∀ a ∈ xs, m'.next a = m.next a) : list.Owns m' xs :=
  { howns with chain := howns.chain.congr hsame }

theorem TransferList.owns_clear (m : Memory) : TransferList.clear.Owns m [] :=
  ⟨rfl, rfl, rfl⟩

/-- **Cutting.** Clearing the link of a node ends its chain there and frees the rest. -/
theorem exists_cut {m : Memory} {p : Ptr} {xs ys : List Nat} {last : Nat}
    (hchain : Chain m.next p (xs ++ last :: ys)) :
    m.next last = some ys.head? ∧
      ∃ m', m.setNextFree last none = some m' ∧ Framed [last] m m' ∧ m'.size = m.size ∧
        Chain m'.next p (xs ++ [last]) ∧ Chain m'.next ys.head? ys := by
  have hnodup := hchain.nodup
  have hsplit : xs ++ last :: ys = (xs ++ [last]) ++ ys := by simp
  obtain ⟨r, hpath, hrest⟩ := chain_append.mp (hsplit ▸ hchain)
  obtain rfl := hrest.head?_eq
  obtain ⟨_, _, hlast⟩ := path_append.mp hpath
  obtain ⟨-, q, hq, rfl⟩ := path_cons.mp hlast
  obtain ⟨m', hset, hframe, hsize, hnext⟩ := exists_setNextFree hq none
  rw [List.nodup_append] at hnodup
  obtain ⟨_, hlastys, hdisj⟩ := hnodup
  refine ⟨hq, m', hset, hframe, hsize, ?_, hframe.chain hrest ?_⟩
  · rw [hnext]
    exact hpath.relink_last last none fun hmem => hdisj _ hmem _ List.mem_cons_self rfl
  · intro a ha hmem
    rw [List.mem_singleton] at hmem
    exact (List.nodup_cons.mp hlastys).1 (hmem ▸ ha)

/-- **Joining.** Pointing the last node of a chain at the head of another appends that chain. -/
theorem exists_join {m : Memory} {p q : Ptr} {xs ys : List Nat} {last : Nat}
    (hleft : Chain m.next p (xs ++ [last])) (hright : Chain m.next q ys) (hlast : last ∉ ys) :
    ∃ m', m.setNextFree last q = some m' ∧ Framed [last] m m' ∧ m'.size = m.size ∧
      Chain m'.next p (xs ++ last :: ys) := by
  obtain ⟨_, _, hpath⟩ := path_append.mp hleft
  obtain ⟨-, r, hr, -⟩ := path_cons.mp hpath
  obtain ⟨m', hset, hframe, hsize, hnext⟩ := exists_setNextFree hr q
  refine ⟨m', hset, hframe, hsize, ?_⟩
  have hnotMem : last ∉ xs := fun hmem =>
    (List.nodup_append.mp hleft.nodup).2.2 _ hmem _ List.mem_cons_self rfl
  have hjoined : Path m'.next p (xs ++ [last]) q := by
    rw [hnext]
    exact Path.relink_last last q hleft hnotMem
  have hrest : Chain m'.next q ys := hframe.chain hright fun a ha hmem =>
    hlast ((List.mem_singleton.mp hmem) ▸ ha)
  have happend := chain_append.mpr ⟨q, hjoined, hrest⟩
  rwa [List.append_assoc, List.singleton_append] at happend

/-- Prepending a described list to a chain, as publishing and restoring do. -/
theorem TransferList.Owns.exists_prepend {m : Memory} {list : TransferList} {xs ys : List Nat}
    {q : Ptr} (howns : list.Owns m xs) (hne : xs ≠ []) (hright : Chain m.next q ys)
    (hdisj : ∀ a ∈ xs, a ∉ ys) :
    ∃ first last m', list.first = some first ∧ list.last = some last ∧
      m.setNextFree last q = some m' ∧ Framed xs m m' ∧ m'.size = m.size ∧
      Chain m'.next (some first) (xs ++ ys) := by
  obtain ⟨init, last, rfl⟩ : ∃ init last, xs = init ++ [last] :=
    ⟨_, _, (List.dropLast_append_getLast hne).symm⟩
  have hmem : last ∈ init ++ [last] := by simp
  obtain ⟨m', hset, hframe, hsize, hchain⟩ := exists_join howns.chain hright (hdisj last hmem)
  obtain ⟨first, hfirst⟩ : ∃ first, list.first = some first := by
    rw [howns.chain.head?_eq]
    exact Option.isSome_iff_exists.mp (by simp)
  refine ⟨first, last, m', hfirst, ?_, hset, hframe.mono (by simp), hsize, ?_⟩
  · simp [howns.last]
  · rw [← hfirst]
    simpa using hchain

theorem fromChainLoop_of_chain {m : Memory} {xs : List Nat} :
    ∀ {p : Ptr} {fuel : Nat} {last : Ptr} {count : Nat}, Chain m.next p xs → xs.length ≤ fuel →
      fromChainLoop m fuel p last count = some (xs.getLast?.or last, count + xs.length) := by
  induction xs with
  | nil =>
      intro p fuel last count hchain _
      obtain rfl := chain_nil.mp hchain
      cases fuel <;> simp [fromChainLoop]
  | cons a xs ih =>
      intro p fuel last count hchain hfuel
      obtain ⟨rfl, q, hq, hrest⟩ := chain_cons.mp hchain
      obtain ⟨fuel, rfl⟩ : ∃ n, fuel = n + 1 := ⟨fuel - 1, by simp at hfuel; omega⟩
      have hlength : xs.length ≤ fuel := by simpa using hfuel
      rw [fromChainLoop, hq, Option.bind_eq_bind, Option.bind_some, ih hrest hlength]
      cases xs with
      | nil => simp
      | cons b xs => simp [List.getLast?_cons, Nat.add_comm, Nat.add_left_comm]

/-- The descriptor built from a chain describes it exactly. -/
theorem transferListFromChain_of_chain {m : Memory} {p : Ptr} {xs : List Nat}
    (hchain : Chain m.next p xs) (hlength : xs.length ≤ addressSpace) :
    ∃ list, transferListFromChain m p = some list ∧ list.Owns m xs := by
  refine ⟨{ first := p, last := xs.getLast?, count := xs.length }, ?_, hchain, rfl, rfl⟩
  rw [transferListFromChain, fromChainLoop_of_chain hchain hlength]
  simp

theorem prefixLast_of_path {m : Memory} {xs : List Nat} :
    ∀ {a last : Nat} {q : Ptr}, Path m.next (some a) (xs ++ [last]) q →
      prefixLast m xs.length a = some last := by
  induction xs with
  | nil =>
      intro a last q hpath
      obtain ⟨heq, _⟩ := path_cons.mp hpath
      rw [Option.some.inj heq]
      rfl
  | cons b xs ih =>
      intro a last q hpath
      obtain ⟨heq, r, hr, hrest⟩ := path_cons.mp hpath
      obtain rfl := Option.some.inj heq
      obtain ⟨c, rfl⟩ : ∃ c, r = some c := by
        cases xs with
        | nil => exact ⟨last, hrest.1⟩
        | cons c xs => exact ⟨c, hrest.1⟩
      rw [List.length_cons, prefixLast, hr, Option.bind_eq_bind, Option.bind_some,
        Option.bind_eq_bind, Option.bind_some, ih hrest]

/-- Splitting off a prefix: the output describes the first nodes, the source keeps the others. The tail
of the source need not be known beforehand. -/
theorem transferListTakePrefix_of_chain {m : Memory} (source : TransferList) {xs : List Nat}
    (hchain : Chain m.next source.first xs) (hcount : source.count = xs.length)
    (hlength : xs.length < addressSpace) (n : Nat) :
    ∃ m' source' output, transferListTakePrefix m source n = some (m', source', output) ∧
      output.Owns m' (xs.take n) ∧ Chain m'.next source'.first (xs.drop n) ∧
      source'.count = (xs.drop n).length ∧
      (source.last = xs.getLast? → source'.last = (xs.drop n).getLast?) ∧
      Framed (xs.take n) m m' ∧ m'.size = m.size := by
  rcases Nat.eq_zero_or_pos n with rfl | hn
  · refine ⟨m, source, .clear, ?_, ?_⟩
    · cases hfirst : source.first <;> simp [transferListTakePrefix, hfirst]
    · simp [hchain, hcount, TransferList.owns_clear, Framed.refl]
  cases hxs : xs with
  | nil =>
      subst hxs
      have hfirst : source.first = none := hchain
      refine ⟨m, source, .clear, by simp [transferListTakePrefix, hfirst], ?_⟩
      simp [hfirst, hcount, TransferList.owns_clear, Framed.refl]
  | cons a rest =>
      rw [← hxs]
      have hfirst : source.first = some a := by rw [hxs] at hchain; exact hchain.1
      have hpos : 0 < xs.length := by simp [hxs]
      -- The prefix is nonempty, so it ends in a node whose link is cut.
      obtain ⟨init, last, htake⟩ : ∃ init last, xs.take n = init ++ [last] := by
        have hne : xs.take n ≠ [] := by simp [hxs]; omega
        exact ⟨_, _, (List.dropLast_append_getLast hne).symm⟩
      have hsplit : init ++ last :: xs.drop n = xs := by
        rw [← List.singleton_append, ← List.append_assoc, ← htake, List.take_append_drop]
      have htaken : (if source.count < n then source.count else n) = init.length + 1 := by
        have hlen := congrArg List.length htake
        simp only [List.length_take, List.length_append, List.length_singleton] at hlen
        rw [hcount]
        split <;> omega
      have hinit : init.length + 1 ≤ xs.length := by
        rw [← hsplit]
        simp
      have hsteps : sizeSub (init.length + 1) 1 = init.length := by
        rw [sizeSub_of_le (by omega) (by unfold addressSpace at hlength; omega)]
        rfl
      rw [← hsplit] at hchain
      obtain ⟨hnext, m', hset, hframe, hsize, hout, hrest⟩ := exists_cut hchain
      have hprefix : prefixLast m init.length a = some last := by
        obtain ⟨r, hpath, -⟩ := chain_append.mp
          (show Chain m.next source.first ((init ++ [last]) ++ xs.drop n) by simpa using hchain)
        rw [hfirst] at hpath
        exact prefixLast_of_path hpath
      refine ⟨m',
        { first := (xs.drop n).head?
          last := if (xs.drop n).head? = none then none else source.last
          count := source.count - (init.length + 1) },
        { first := some a, last := some last, count := init.length + 1 },
        ?_, ?_, hrest, ?_, ?_, ?_, hsize⟩
      · simp only [transferListTakePrefix, hfirst, htaken, hsteps, hprefix, hnext, hset,
          Option.bind_eq_bind, Option.bind_some]
        rw [if_neg (by omega)]
      · rw [htake]
        exact ⟨by rw [← hfirst]; exact hout, by simp, by simp⟩
      · have hlen := congrArg List.length htake
        simp only [List.length_take, List.length_append, List.length_singleton] at hlen
        simp only [List.length_drop, hcount]
        omega
      · intro hlast
        simp only [List.head?_eq_none_iff]
        split
        · rename_i hnil
          simp [hnil]
        · rename_i hne
          rw [hlast, List.getLast?_drop, if_neg fun hle => hne (List.drop_eq_nil_of_le hle)]
      · rw [htake]
        exact hframe.mono (by simp)

end Hplf
