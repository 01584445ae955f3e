import Mathlib.Algebra.Group.Nat.Defs
import Mathlib.Tactic.Common

/-!
# Checked size arithmetic

`size_t` is 64 bits wide. A size is a natural number below `2 ^ 64`; an expression the source evaluates
without a check is reduced by `sizeT`, so a wrap is visible where it could happen. The checked operations
of `checked_math.h` return `none` where the source returns `false` and leaves its output unwritten.
-/

namespace Hplf

/-- `SIZE_MAX`. -/
def sizeMax : Nat := 2 ^ 64 - 1

/-- `PTRDIFF_MAX`. -/
def ptrdiffMax : Nat := 2 ^ 63 - 1

/-- The value a `size_t` expression takes. -/
def sizeT (n : Nat) : Nat := n % 2 ^ 64

/-- The unchecked difference of two sizes, wrapping below zero. -/
def sizeSub (left right : Nat) : Nat := sizeT (left + (2 ^ 64 - right))

def sizeAdd (left right : Nat) : Option Nat :=
  if right > sizeMax - left then none else some (sizeT (left + right))

def sizeMultiply (left right : Nat) : Option Nat :=
  if left ≠ 0 ∧ right > sizeMax / left then none else some (sizeT (left * right))

def sizeAlignUpPow2 (value alignment : Nat) : Option Nat :=
  if alignment = 0 ∨ alignment &&& (alignment - 1) ≠ 0 then
    none
  else
    let mask := alignment - 1
    if value > sizeMax - mask then
      none
    else
      -- `~mask` flips all 64 bits.
      some (sizeT (value + mask) &&& (sizeMax ^^^ mask))

def sizeRoundUpMultiple (value multiple : Nat) : Option Nat :=
  if multiple = 0 then
    none
  else
    let remainder := value % multiple
    if remainder = 0 then
      some value
    else
      sizeAdd value (multiple - remainder)

/-- A function with an output object returns whether it succeeded and writes the object only then. -/
def writeOutput {α : Type} (result : Option α) (output : α) : Bool × α :=
  match result with
  | some value => (true, value)
  | none => (false, output)

/-- The whole call of a checked operation: `result` is the output object, and `none` if its pointer is
`NULL`. -/
def checkedCall (computed : Option Nat) : (result : Option Nat) → Bool × Option Nat
  | none => (false, none)
  | some output =>
      let (succeeded, output) := writeOutput computed output
      (succeeded, some output)

/-- A call succeeds exactly if it computes a value, which it then writes; otherwise the output is left alone. -/
theorem writeOutput_iff {α : Type} {P : Prop} {result : Option α} {value : α} (output : α)
    (hsome : P → result = some value) (hnone : ¬ P → result = none) :
    ((writeOutput result output).1 = true ↔ P) ∧ (P → (writeOutput result output).2 = value) ∧
      (¬ P → (writeOutput result output).2 = output) := by
  by_cases hP : P
  · rw [hsome hP]
    exact ⟨iff_of_true rfl hP, fun _ => rfl, fun hnot => absurd hP hnot⟩
  · rw [hnone hP]
    exact ⟨iff_of_false Bool.false_ne_true hP, fun hyes => absurd hyes hP, fun _ => rfl⟩

theorem sizeSub_of_le {left right : Nat} (hle : right ≤ left) (hlt : left < 2 ^ 64) :
    sizeSub left right = left - right := by
  unfold sizeSub sizeT
  omega

theorem sizeAdd_eq_some {left right result : Nat} (hleft : left ≤ sizeMax)
    (hadd : sizeAdd left right = some result) : result = left + right ∧ left + right ≤ sizeMax := by
  unfold sizeAdd at hadd
  split at hadd
  · simp at hadd
  · have hsum : left + right ≤ sizeMax := by omega
    have hresult := Option.some.inj hadd
    rw [sizeT, Nat.mod_eq_of_lt (by unfold sizeMax at hsum; omega)] at hresult
    exact ⟨hresult.symm, hsum⟩

theorem sizeAdd_of_le {left right : Nat} (hsum : left + right ≤ sizeMax) :
    sizeAdd left right = some (left + right) := by
  unfold sizeAdd
  rw [if_neg (by omega), sizeT, Nat.mod_eq_of_lt (by unfold sizeMax at hsum; omega)]

theorem sizeMultiply_eq_some {left right result : Nat} (hmultiply : sizeMultiply left right = some result) :
    result = left * right ∧ left * right ≤ sizeMax := by
  unfold sizeMultiply at hmultiply
  split at hmultiply
  · simp at hmultiply
  · rename_i hbound
    have hproduct : left * right ≤ sizeMax := by
      rcases Nat.eq_zero_or_pos left with rfl | hleft
      · simp
      · have hright : right ≤ sizeMax / left := by
          by_contra hlt
          exact hbound ⟨by omega, by omega⟩
        calc left * right ≤ left * (sizeMax / left) := Nat.mul_le_mul_left left hright
          _ ≤ sizeMax := Nat.mul_div_le sizeMax left
    have hresult := Option.some.inj hmultiply
    rw [sizeT, Nat.mod_eq_of_lt (by unfold sizeMax at hproduct; omega)] at hresult
    exact ⟨hresult.symm, hproduct⟩

theorem sizeMultiply_of_le {left right : Nat} (hproduct : left * right ≤ sizeMax) :
    sizeMultiply left right = some (left * right) := by
  unfold sizeMultiply
  rw [if_neg, sizeT, Nat.mod_eq_of_lt (by unfold sizeMax at hproduct; omega)]
  rintro ⟨hleft, hright⟩
  have hle := (Nat.le_div_iff_mul_le (Nat.pos_of_ne_zero hleft)).mpr
    (show right * left ≤ sizeMax by rwa [Nat.mul_comm])
  omega

/-- A rounded size is a multiple at least as large as the original, and the next smaller multiple is
too small. -/
theorem sizeRoundUpMultiple_eq_some {value multiple result : Nat} (hvalue : value ≤ sizeMax)
    (hround : sizeRoundUpMultiple value multiple = some result) :
    0 < multiple ∧ multiple ∣ result ∧ value ≤ result ∧ result < value + multiple ∧
      result ≤ sizeMax := by
  unfold sizeRoundUpMultiple at hround
  split at hround
  · simp at hround
  · rename_i hmultiple
    have hpos : 0 < multiple := Nat.pos_of_ne_zero hmultiple
    simp only at hround
    split at hround
    · rename_i hdvd
      obtain rfl := Option.some.inj hround
      exact ⟨hpos, Nat.dvd_of_mod_eq_zero hdvd, Nat.le_refl _, by omega, hvalue⟩
    · rename_i hremainder
      obtain ⟨rfl, hsum⟩ := sizeAdd_eq_some hvalue hround
      have hlt := Nat.mod_lt value hpos
      have hdiv := Nat.mod_add_div value multiple
      refine ⟨hpos, ⟨value / multiple + 1, ?_⟩, by omega, by omega, hsum⟩
      rw [Nat.mul_add, Nat.mul_one]
      omega

theorem two_pow_and_pred (k : Nat) : 2 ^ k &&& (2 ^ k - 1) = 0 := by
  apply Nat.eq_of_testBit_eq
  intro i
  rw [Nat.testBit_and, Nat.testBit_two_pow, Nat.testBit_two_pow_sub_one, Nat.zero_testBit]
  by_cases hi : k = i <;> simp [hi]

/-- Clearing the low `k` bits rounds down to a multiple of `2 ^ k`. -/
theorem and_not_mask {x k : Nat} (hx : x < 2 ^ 64) (hk64 : k ≤ 64) :
    x &&& (sizeMax ^^^ (2 ^ k - 1)) = x / 2 ^ k * 2 ^ k := by
  apply Nat.eq_of_testBit_eq
  intro i
  rw [← Nat.shiftRight_eq_div_pow, ← Nat.shiftLeft_eq, Nat.testBit_and, Nat.testBit_xor, sizeMax,
    Nat.testBit_two_pow_sub_one, Nat.testBit_two_pow_sub_one, Nat.testBit_shiftLeft,
    Nat.testBit_shiftRight]
  by_cases hk : k ≤ i
  · rw [show k + (i - k) = i by omega]
    by_cases hi : i < 64
    · simp [hi, hk]
    · have hbit : x.testBit i = false := by
        apply Nat.testBit_lt_two_pow
        calc x < 2 ^ 64 := hx
          _ ≤ 2 ^ i := Nat.pow_le_pow_right (by decide) (by omega)
      simp [hbit]
  · have hi : i < 64 := by omega
    have hlt : i < k := by omega
    simp [hk, hi, hlt]

/-- For a power of two the mask form rounds up to the next multiple. -/
theorem sizeAlignUpPow2_two_pow (value : Nat) {k : Nat} (hk : k ≤ 64) :
    sizeAlignUpPow2 value (2 ^ k) =
      if value > sizeMax - (2 ^ k - 1) then none
      else some (sizeT (value + (2 ^ k - 1)) / 2 ^ k * 2 ^ k) := by
  have hpos : 0 < 2 ^ k := Nat.two_pow_pos k
  have hcond : ¬(2 ^ k = 0 ∨ 2 ^ k &&& (2 ^ k - 1) ≠ 0) := by
    rintro (hzero | hbits)
    · omega
    · exact hbits (two_pow_and_pred k)
  unfold sizeAlignUpPow2
  rw [if_neg hcond]
  simp only
  split
  · rfl
  · have hlt : sizeT (value + (2 ^ k - 1)) < 2 ^ 64 := Nat.mod_lt _ (by decide)
    rw [and_not_mask hlt hk]

end Hplf
