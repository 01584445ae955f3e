import Mathlib.Data.List.Nodup
import Mathlib.Data.List.Perm.Basic
import Mathlib.Logic.Function.Basic
import Mathlib.Tactic.Common

/-!
# Things in places

`contents : P → List α` says which things lie at which place. `Placed contents` is the conservation
invariant: no place holds a thing twice and no thing lies at two places. The rules below are the ways
a step may change the contents: things move between two places, new things appear at one place, and
things disappear from one place.
-/

namespace Lib

variable {P α : Type*} [DecidableEq P] {contents : P → List α}

/-- Nothing is held twice: each place lists its things once, and distinct places are disjoint. -/
structure Placed (contents : P → List α) : Prop where
  nodup : ∀ p, (contents p).Nodup
  disjoint : ∀ {p q a}, a ∈ contents p → a ∈ contents q → p = q

/-- The contents after the lists at `p` and `q` have been replaced. -/
def replace₂ (contents : P → List α) (p q : P) (ys zs : List α) : P → List α :=
  Function.update (Function.update contents p ys) q zs

section Replace

variable {p q r : P} {ys zs : List α}

@[simp]
theorem replace₂_right : replace₂ contents p q ys zs q = zs :=
  Function.update_self _ _ _

theorem replace₂_left (hne : p ≠ q) : replace₂ contents p q ys zs p = ys := by
  rw [replace₂, Function.update_of_ne hne, Function.update_self]

theorem replace₂_of_ne (hp : r ≠ p) (hq : r ≠ q) :
    replace₂ contents p q ys zs r = contents r := by
  rw [replace₂, Function.update_of_ne hq, Function.update_of_ne hp]

/-- Each place after the replacement is one of the two replaced ones or as it was. -/
theorem replace₂_cases (contents : P → List α) (ys zs : List α) (hne : p ≠ q) (r : P) :
    (r = p ∧ replace₂ contents p q ys zs r = ys) ∨
      (r = q ∧ replace₂ contents p q ys zs r = zs) ∨
      (r ≠ p ∧ r ≠ q ∧ replace₂ contents p q ys zs r = contents r) := by
  by_cases hp : r = p
  · subst hp
    exact Or.inl ⟨rfl, replace₂_left hne⟩
  · by_cases hq : r = q
    · subst hq
      exact Or.inr (Or.inl ⟨rfl, replace₂_right⟩)
    · exact Or.inr (Or.inr ⟨hp, hq, replace₂_of_ne hp hq⟩)

theorem exists_mem_replace₂ (hne : p ≠ q) (hperm : (ys ++ zs).Perm (contents p ++ contents q))
    {a : α} : (∃ r, a ∈ replace₂ contents p q ys zs r) ↔ ∃ r, a ∈ contents r := by
  constructor
  · rintro ⟨r, hr⟩
    rcases replace₂_cases contents ys zs hne r with
      ⟨rfl, heq⟩ | ⟨rfl, heq⟩ | ⟨_, _, heq⟩
    · rw [heq] at hr
      rcases List.mem_append.mp (hperm.mem_iff.mp (List.mem_append_left zs hr)) with h | h
      · exact ⟨_, h⟩
      · exact ⟨_, h⟩
    · rw [heq] at hr
      rcases List.mem_append.mp (hperm.mem_iff.mp (List.mem_append_right ys hr)) with h | h
      · exact ⟨_, h⟩
      · exact ⟨_, h⟩
    · exact ⟨r, heq ▸ hr⟩
  · rintro ⟨r, hr⟩
    by_cases hpq : r = p ∨ r = q
    · have hmem : a ∈ contents p ++ contents q := by
        rcases hpq with rfl | rfl
        · exact List.mem_append_left _ hr
        · exact List.mem_append_right _ hr
      rcases List.mem_append.mp (hperm.mem_iff.mpr hmem) with h | h
      · exact ⟨p, by rwa [replace₂_left hne]⟩
      · exact ⟨q, by rwa [replace₂_right]⟩
    · obtain ⟨hp, hq⟩ := not_or.mp hpq
      exact ⟨r, by rwa [replace₂_of_ne hp hq]⟩

end Replace

namespace Placed

omit [DecidableEq P] in
/-- Two places of a placement hold a list without repetition when put together. -/
theorem nodup_append (hplaced : Placed contents) {p q : P} (hne : p ≠ q) :
    (contents p ++ contents q).Nodup := by
  refine List.nodup_append.mpr ⟨hplaced.nodup p, hplaced.nodup q, ?_⟩
  intro a ha b hb heq
  subst heq
  exact hne (hplaced.disjoint ha hb)

/-- **Moving.** Rearranging the things of two places between them keeps the placement. -/
theorem move (hplaced : Placed contents) {p q : P} {ys zs : List α} (hne : p ≠ q)
    (hperm : (ys ++ zs).Perm (contents p ++ contents q)) :
    Placed (replace₂ contents p q ys zs) := by
  obtain ⟨hys, hzs, hdisj⟩ :=
    List.nodup_append.mp (hperm.nodup_iff.mpr (hplaced.nodup_append hne))
  have hold : ∀ {a}, a ∈ ys ++ zs → a ∈ contents p ∨ a ∈ contents q := fun ha =>
    List.mem_append.mp (hperm.mem_iff.mp ha)
  -- A thing of the two new lists came from `p` or `q`, so it lies at no third place.
  have hthird : ∀ {a r}, r ≠ p → r ≠ q → a ∈ contents r → a ∉ ys ++ zs := by
    intro a r hp hq hr hmem
    rcases hold hmem with h | h
    · exact hp (hplaced.disjoint hr h)
    · exact hq (hplaced.disjoint hr h)
  constructor
  · intro r
    rcases replace₂_cases contents ys zs hne r with
      ⟨_, heq⟩ | ⟨_, heq⟩ | ⟨_, _, heq⟩
    · rwa [heq]
    · rwa [heq]
    · rw [heq]
      exact hplaced.nodup r
  · intro r s a hr hs
    rcases replace₂_cases contents ys zs hne r with
      ⟨hrp, heqr⟩ | ⟨hrq, heqr⟩ | ⟨hrp, hrq, heqr⟩ <;>
    rcases replace₂_cases contents ys zs hne s with
      ⟨hsp, heqs⟩ | ⟨hsq, heqs⟩ | ⟨hsp, hsq, heqs⟩ <;>
    rw [heqr] at hr <;> rw [heqs] at hs
    · rw [hrp, hsp]
    · exact absurd rfl (hdisj a hr a hs)
    · exact absurd (List.mem_append_left zs hr) (hthird hsp hsq hs)
    · exact absurd rfl (hdisj a hs a hr)
    · rw [hrq, hsq]
    · exact absurd (List.mem_append_right ys hr) (hthird hsp hsq hs)
    · exact absurd (List.mem_append_left zs hs) (hthird hrp hrq hr)
    · exact absurd (List.mem_append_right ys hs) (hthird hrp hrq hr)
    · exact hplaced.disjoint hr hs

/-- **Growing.** Things that lie nowhere may appear at one place. -/
theorem grow (hplaced : Placed contents) (p : P) {ys : List α}
    (hnodup : (ys ++ contents p).Nodup) (hfresh : ∀ a ∈ ys, ∀ r, a ∉ contents r) :
    Placed (Function.update contents p (ys ++ contents p)) := by
  have hother : ∀ {a r}, r ≠ p → a ∈ contents r → a ∉ ys ++ contents p := by
    intro a r hr ha hmem
    rcases List.mem_append.mp hmem with h | h
    · exact hfresh a h r ha
    · exact hr (hplaced.disjoint ha h)
  constructor
  · intro r
    by_cases hr : r = p
    · rw [hr, Function.update_self]
      exact hnodup
    · rw [Function.update_of_ne hr]
      exact hplaced.nodup r
  · intro r s a har has
    by_cases hr : r = p <;> by_cases hs : s = p
    · rw [hr, hs]
    · rw [hr, Function.update_self] at har
      rw [Function.update_of_ne hs] at has
      exact absurd har (hother hs has)
    · rw [Function.update_of_ne hr] at har
      rw [hs, Function.update_self] at has
      exact absurd has (hother hr har)
    · rw [Function.update_of_ne hr] at har
      rw [Function.update_of_ne hs] at has
      exact hplaced.disjoint har has

omit [DecidableEq P] in
/-- **Shrinking.** Every place may lose things and reorder what it keeps. -/
theorem shrink (hplaced : Placed contents) {contents' : P → List α}
    (hsub : ∀ p, (contents' p).Subperm (contents p)) : Placed contents' where
  nodup p := by
    obtain ⟨zs, hperm, hsublist⟩ := hsub p
    exact hperm.nodup_iff.mp ((hplaced.nodup p).sublist hsublist)
  disjoint hp hq := hplaced.disjoint ((hsub _).subset hp) ((hsub _).subset hq)

end Placed

end Lib
