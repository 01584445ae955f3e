import Mathlib.Data.List.Nodup
import Mathlib.Data.List.Basic
import Mathlib.Logic.Function.Basic
import Mathlib.Tactic.Common

/-!
# Linked chains

A store of singly linked nodes is given by its link function: `next a = some q` says that the node
`a` exists and its link holds `q`, and `next a = none` that there is no such node. `Path next p xs q`
says that following the links from `p` visits exactly the nodes `xs` and arrives at `q`; a `Chain` is
a path that arrives at the null link. Since a link has one value, a chain is determined by its first
link and never meets a node twice.
-/

namespace Lib

variable {α : Type*} {next next' : α → Option (Option α)}

/-- Following the links from `p` visits `xs` in order and arrives at `q`. -/
def Path (next : α → Option (Option α)) : Option α → List α → Option α → Prop
  | p, [], q => p = q
  | p, a :: xs, q => p = some a ∧ ∃ r, next a = some r ∧ Path next r xs q

/-- A path that ends in the null link. -/
def Chain (next : α → Option (Option α)) (p : Option α) (xs : List α) : Prop :=
  Path next p xs none

instance Path.decide [DecidableEq α] : ∀ (p : Option α) (xs : List α) (q : Option α), Decidable (Path next p xs q)
  | p, [], q => inferInstanceAs (Decidable (p = q))
  | p, a :: xs, q =>
      match hlink : next a with
      | none => isFalse fun hpath => by
          obtain ⟨-, r, hr, -⟩ := hpath
          rw [hlink] at hr
          cases hr
      | some r =>
          have : Decidable (Path next r xs q) := Path.decide r xs q
          decidable_of_iff (p = some a ∧ Path next r xs q)
            ⟨fun h => ⟨h.1, r, hlink, h.2⟩, fun ⟨hp, r', hr', hrest⟩ =>
              ⟨hp, Option.some.inj (hlink.symm.trans hr') ▸ hrest⟩⟩

instance [DecidableEq α] (p : Option α) (xs : List α) : Decidable (Chain next p xs) :=
  Path.decide p xs none

@[simp]
theorem path_nil {p q : Option α} : Path next p [] q ↔ p = q := Iff.rfl

@[simp]
theorem path_cons {p q : Option α} {a : α} {xs : List α} :
    Path next p (a :: xs) q ↔ p = some a ∧ ∃ r, next a = some r ∧ Path next r xs q := Iff.rfl

@[simp]
theorem chain_nil {p : Option α} : Chain next p [] ↔ p = none := Iff.rfl

@[simp]
theorem chain_cons {p : Option α} {a : α} {xs : List α} :
    Chain next p (a :: xs) ↔ p = some a ∧ ∃ r, next a = some r ∧ Chain next r xs := Iff.rfl

theorem path_append {xs ys : List α} {p q : Option α} :
    Path next p (xs ++ ys) q ↔ ∃ r, Path next p xs r ∧ Path next r ys q := by
  induction xs generalizing p with
  | nil => simp
  | cons a xs ih =>
      simp only [List.cons_append, path_cons, ih]
      constructor
      · rintro ⟨hp, r, hr, s, hxs, hys⟩
        exact ⟨s, ⟨hp, r, hr, hxs⟩, hys⟩
      · rintro ⟨s, ⟨hp, r, hr, hxs⟩, hys⟩
        exact ⟨hp, r, hr, s, hxs, hys⟩

theorem chain_append {xs ys : List α} {p : Option α} :
    Chain next p (xs ++ ys) ↔ ∃ r, Path next p xs r ∧ Chain next r ys :=
  path_append

/-- A path only depends on the links of the nodes it visits. -/
theorem Path.congr {xs : List α} {p q : Option α} (hpath : Path next p xs q)
    (hsame : ∀ a ∈ xs, next' a = next a) : Path next' p xs q := by
  induction xs generalizing p with
  | nil => exact hpath
  | cons a xs ih =>
      obtain ⟨hp, r, hr, hrest⟩ := hpath
      refine ⟨hp, r, ?_, ih hrest fun b hb => hsame b (List.mem_cons_of_mem a hb)⟩
      rw [hsame a List.mem_cons_self, hr]

theorem Chain.congr {xs : List α} {p : Option α} (hchain : Chain next p xs)
    (hsame : ∀ a ∈ xs, next' a = next a) : Chain next' p xs :=
  Path.congr hchain hsame

theorem Chain.head?_eq {xs : List α} {p : Option α} (hchain : Chain next p xs) : p = xs.head? := by
  cases xs with
  | nil => exact hchain
  | cons a xs => exact hchain.1

theorem Chain.eq_nil_iff {xs : List α} {p : Option α} (hchain : Chain next p xs) :
    p = none ↔ xs = [] := by
  cases xs with
  | nil => simp [chain_nil.mp hchain]
  | cons a xs => simp [hchain.1]

theorem Chain.unique {xs ys : List α} {p : Option α} (hxs : Chain next p xs)
    (hys : Chain next p ys) : xs = ys := by
  induction xs generalizing p ys with
  | nil =>
      cases ys with
      | nil => rfl
      | cons b ys => exact absurd (hxs.symm.trans hys.1) (by simp)
  | cons a xs ih =>
      obtain ⟨hp, r, hr, hrest⟩ := hxs
      cases ys with
      | nil => exact absurd (hp.symm.trans hys) (by simp)
      | cons b ys =>
          obtain ⟨hp', r', hr', hrest'⟩ := hys
          obtain rfl : a = b := Option.some.inj (hp.symm.trans hp')
          obtain rfl : r = r' := Option.some.inj (hr.symm.trans hr')
          rw [ih hrest hrest']

theorem Chain.exists_link {xs : List α} {p : Option α} (hchain : Chain next p xs) {a : α}
    (ha : a ∈ xs) : ∃ q, next a = some q := by
  induction xs generalizing p with
  | nil => simp at ha
  | cons b xs ih =>
      obtain ⟨_, r, hr, hrest⟩ := hchain
      rcases List.mem_cons.mp ha with rfl | ha
      · exact ⟨r, hr⟩
      · exact ih hrest ha

/-- Following the first link of a chain leads to the rest of it. -/
theorem Chain.follow {xs : List α} {a : α} {q : Option α} (hchain : Chain next (some a) xs)
    (hq : next a = some q) : ∃ rest, xs = a :: rest ∧ Chain next q rest := by
  cases xs with
  | nil => cases hchain
  | cons b rest =>
      obtain ⟨hb, r, hr, hrest⟩ := hchain
      obtain rfl : a = b := Option.some.inj hb
      obtain rfl : q = r := Option.some.inj (hq.symm.trans hr)
      exact ⟨rest, rfl, hrest⟩

/-- A node met twice would close a cycle, and a cycle never reaches the null link. -/
theorem Chain.nodup {xs : List α} {p : Option α} (hchain : Chain next p xs) : xs.Nodup := by
  induction xs generalizing p with
  | nil => exact List.nodup_nil
  | cons a xs ih =>
      obtain ⟨hp, r, hr, hrest⟩ := hchain
      refine List.nodup_cons.mpr ⟨fun hmem => ?_, ih hrest⟩
      obtain ⟨before, after, rfl⟩ := List.append_of_mem hmem
      obtain ⟨q, _, hfromA⟩ := chain_append.mp hrest
      obtain ⟨_, r', hr', hafter⟩ := chain_cons.mp hfromA
      obtain rfl : r = r' := Option.some.inj (hr.symm.trans hr')
      have hlength := congrArg List.length (Chain.unique hrest hafter)
      simp only [List.length_append, List.length_cons] at hlength
      omega

/-- Writing the link of the last node of a path redirects the whole path. -/
theorem Path.relink_last [DecidableEq α] {xs : List α} {p q : Option α} (last : α) (target : Option α)
    (hpath : Path next p (xs ++ [last]) q) (hlast : last ∉ xs) :
    Path (Function.update next last (some target)) p (xs ++ [last]) target := by
  obtain ⟨r, hxs, hr⟩ := path_append.mp hpath
  refine path_append.mpr ⟨r, hxs.congr fun a ha => ?_, hr.1, target, ?_, rfl⟩
  · have hne : a ≠ last := fun heq => hlast (heq ▸ ha)
    exact Function.update_of_ne hne _ _
  · exact Function.update_self _ _ _

end Lib
