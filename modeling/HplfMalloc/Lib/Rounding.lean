import Mathlib.Algebra.Order.Floor.Div
import Mathlib.Order.Bounds.Basic
import Mathlib.Tactic.Common

/-!
# Rounding up to a multiple

The least multiple of `m` that is at least `n`, and what rounding a second time does.
-/

namespace Lib

/-- The least multiple of `m` that is at least `n`. -/
def leastMultiple (n m : Nat) : Nat := n ⌈/⌉ m * m

variable {n m : Nat}

theorem isLeast_leastMultiple (n : Nat) (hm : 0 < m) :
    IsLeast {x | m ∣ x ∧ n ≤ x} (leastMultiple n m) := by
  refine ⟨⟨Dvd.intro_left _ rfl, ?_⟩, ?_⟩
  · have hle := (ceilDiv_le_iff_le_mul hm).mp (le_refl (n ⌈/⌉ m))
    rwa [Nat.mul_comm] at hle
  · rintro x ⟨⟨q, rfl⟩, hle⟩
    have hq : n ⌈/⌉ m ≤ q := (ceilDiv_le_iff_le_mul hm).mpr hle
    rw [leastMultiple, Nat.mul_comm m q]
    exact Nat.mul_le_mul_right m hq

/-- A multiple in the window above `n` is the least one. -/
theorem eq_leastMultiple {x : Nat} (hm : 0 < m) (hdvd : m ∣ x) (hle : n ≤ x) (hlt : x < n + m) :
    x = leastMultiple n m := by
  obtain ⟨⟨hdvd', hle'⟩, hleast⟩ := isLeast_leastMultiple n hm
  have hupper : leastMultiple n m ≤ x := hleast ⟨hdvd, hle⟩
  obtain ⟨p, rfl⟩ := hdvd
  obtain ⟨q, hq⟩ := hdvd'
  rw [hq] at hle' hupper ⊢
  have hpq : q ≤ p := Nat.le_of_mul_le_mul_left hupper hm
  have hqp : p < q + 1 := by
    apply Nat.lt_of_mul_lt_mul_left (a := m)
    rw [Nat.mul_add, Nat.mul_one]
    omega
  rw [show p = q by omega]

theorem leastMultiple_lt (n : Nat) (hm : 0 < m) : leastMultiple n m < n + m := by
  have hdiv : m * (n / m) + n % m = n := Nat.div_add_mod n m
  have hmod : n % m < m := Nat.mod_lt n hm
  by_contra hge
  obtain ⟨-, hleast⟩ := isLeast_leastMultiple n hm
  have hnext : leastMultiple n m ≤ m * (n / m) + m :=
    hleast ⟨⟨n / m + 1, by rw [Nat.mul_add, Nat.mul_one]⟩, by omega⟩
  have hexact : n % m = 0 := by omega
  have hself : leastMultiple n m ≤ n := hleast ⟨Nat.dvd_of_mod_eq_zero hexact, le_refl n⟩
  omega

theorem leastMultiple_of_dvd (hm : 0 < m) (hdvd : m ∣ n) : leastMultiple n m = n :=
  (eq_leastMultiple hm hdvd (le_refl n) (by omega)).symm

theorem leastMultiple_mono {n' : Nat} (hm : 0 < m) (hle : n ≤ n') :
    leastMultiple n m ≤ leastMultiple n' m := by
  obtain ⟨hdvd, hle'⟩ := (isLeast_leastMultiple n' hm).1
  exact (isLeast_leastMultiple n hm).2 ⟨hdvd, hle.trans hle'⟩

end Lib
