import HplfMalloc.CheckedMath
import HplfMalloc.Lib.Rounding
import HplfMalloc.Memory

/-!
# Exactness of the size arithmetic

The checked operations succeed exactly when the mathematical result is a size, and the two rounding routines
both compute the least multiple.
-/

namespace Hplf

open Lib

variable {left right value multiple alignment result : Nat}

theorem sizeAdd_eq (hleft : left ≤ sizeMax) :
    sizeAdd left right = if left + right ≤ sizeMax then some (left + right) else none := by
  by_cases hsum : left + right ≤ sizeMax
  · rw [if_pos hsum, sizeAdd_of_le hsum]
  · rw [if_neg hsum, sizeAdd, if_pos (by omega)]

theorem sizeMultiply_eq :
    sizeMultiply left right = if left * right ≤ sizeMax then some (left * right) else none := by
  by_cases hproduct : left * right ≤ sizeMax
  · rw [if_pos hproduct, sizeMultiply_of_le hproduct]
  · rw [if_neg hproduct]
    cases hmultiply : sizeMultiply left right with
    | none => rfl
    | some result => exact absurd (sizeMultiply_eq_some hmultiply).2 hproduct

/-! ### Rounding -/

theorem sizeRoundUpMultiple_eq {value multiple : Nat} (hvalue : value ≤ sizeMax) :
    sizeRoundUpMultiple value multiple =
      if multiple ≠ 0 ∧ leastMultiple value multiple ≤ sizeMax then
        some (leastMultiple value multiple)
      else none := by
  by_cases hzero : multiple = 0
  · simp [sizeRoundUpMultiple, hzero]
  have hpos : 0 < multiple := Nat.pos_of_ne_zero hzero
  cases hround : sizeRoundUpMultiple value multiple with
  | some result =>
      obtain ⟨-, hdvd, hle, hlt, hfits⟩ := sizeRoundUpMultiple_eq_some hvalue hround
      have hresult := eq_leastMultiple hpos hdvd hle hlt
      rw [if_pos ⟨hzero, hresult ▸ hfits⟩, hresult]
  | none =>
      rw [if_neg]
      rintro ⟨-, hfits⟩
      unfold sizeRoundUpMultiple at hround
      simp only [hzero, if_false] at hround
      split at hround
      · simp at hround
      · -- The increment leads to the least multiple, so the sum cannot overflow.
        rename_i hremainder
        have hmod := Nat.mod_lt value hpos
        have hdiv := Nat.div_add_mod value multiple
        have hsum : value + (multiple - value % multiple) = leastMultiple value multiple := by
          refine eq_leastMultiple hpos ⟨value / multiple + 1, ?_⟩ (by omega) (by omega)
          rw [Nat.mul_add, Nat.mul_one]
          omega
        rw [sizeAdd_of_le (by omega)] at hround
        simp at hround

/-- The mask form, whose test admits the powers of two only. -/
theorem sizeAlignUpPow2_eq (halignment : alignment ≤ sizeMax) :
    sizeAlignUpPow2 value alignment =
      if alignment.isPowerOfTwo ∧ leastMultiple value alignment ≤ sizeMax then
        some (leastMultiple value alignment)
      else none := by
  by_cases hpower : alignment.isPowerOfTwo
  · obtain ⟨k, rfl⟩ := hpower
    have hpos : 0 < 2 ^ k := Nat.two_pow_pos k
    have hk : k ≤ 64 := by
      by_contra hlt
      have hle : 2 ^ 64 ≤ 2 ^ k := Nat.pow_le_pow_right (by decide) (by omega)
      unfold sizeMax at halignment
      omega
    obtain ⟨⟨hdvd, hle⟩, hleast⟩ := isLeast_leastMultiple value hpos
    have hlt := leastMultiple_lt value hpos
    rw [sizeAlignUpPow2_two_pow value hk]
    by_cases hfits : value > sizeMax - (2 ^ k - 1)
    · -- The next multiple is beyond the last size, since `2 ^ 64` is a multiple too.
      rw [if_pos hfits, if_neg]
      rintro ⟨-, hsize⟩
      obtain ⟨q, hq⟩ : 2 ^ k ∣ 2 ^ 64 := Nat.pow_dvd_pow 2 hk
      obtain ⟨r, hr⟩ := hdvd
      have hrq : r < q := by
        apply Nat.lt_of_mul_lt_mul_left (a := 2 ^ k)
        rw [← hq, ← hr]
        unfold sizeMax at hsize
        omega
      have hnext : 2 ^ k * (r + 1) ≤ 2 ^ k * q := Nat.mul_le_mul_left _ hrq
      rw [Nat.mul_add, Nat.mul_one, ← hr, ← hq] at hnext
      unfold sizeMax at hfits
      omega
    · have hsum : sizeT (value + (2 ^ k - 1)) = value + (2 ^ k - 1) :=
        Nat.mod_eq_of_lt (by unfold sizeMax at hfits halignment; omega)
      have hdiv := Nat.div_add_mod (value + (2 ^ k - 1)) (2 ^ k)
      have hmod := Nat.mod_lt (value + (2 ^ k - 1)) hpos
      have hresult : (value + (2 ^ k - 1)) / 2 ^ k * 2 ^ k = leastMultiple value (2 ^ k) := by
        rw [Nat.mul_comm]
        exact eq_leastMultiple hpos (Nat.dvd_mul_right _ _) (by omega) (by omega)
      rw [if_neg hfits, hsum, hresult, if_pos]
      refine ⟨⟨k, rfl⟩, ?_⟩
      omega
  · rw [if_neg fun h => hpower h.1, sizeAlignUpPow2, if_pos]
    by_contra hcond
    obtain ⟨hzero, hbits⟩ := not_or.mp hcond
    exact hpower (Nat.ne_zero_and_sub_one_eq_zero_iff_isPowerOfTwo.mp ⟨hzero, not_not.mp hbits⟩)

theorem sizeAlignUpPow2_payloadAlignment (value : Nat) :
    sizeAlignUpPow2 value payloadAlignment =
      if leastMultiple value payloadAlignment ≤ sizeMax then
        some (leastMultiple value payloadAlignment)
      else none := by
  rw [sizeAlignUpPow2_eq (by decide)]
  simp only [show payloadAlignment.isPowerOfTwo from ⟨4, rfl⟩, true_and]

/-- **The two routines agree.** -/
theorem sizeAlignUpPow2_eq_roundUp (hvalue : value ≤ sizeMax) (halignment : alignment ≤ sizeMax)
    (hpower : alignment.isPowerOfTwo) : sizeAlignUpPow2 value alignment = sizeRoundUpMultiple value alignment := by
  have hzero : alignment ≠ 0 := by
    obtain ⟨k, rfl⟩ := hpower
    exact (Nat.two_pow_pos k).ne'
  rw [sizeAlignUpPow2_eq halignment, sizeRoundUpMultiple_eq hvalue]
  simp only [hpower, hzero, ne_eq, not_false_eq_true, true_and]

theorem sizeRoundUpMultiple_idem (hvalue : value ≤ sizeMax)
    (hround : sizeRoundUpMultiple value multiple = some result) :
    sizeRoundUpMultiple result multiple = some result := by
  obtain ⟨hpos, hdvd, -, -, hfits⟩ := sizeRoundUpMultiple_eq_some hvalue hround
  rw [sizeRoundUpMultiple_eq hfits, leastMultiple_of_dvd hpos hdvd, if_pos ⟨hpos.ne', hfits⟩]

theorem sizeRoundUpMultiple_mono {value' result' : Nat} (hle : value ≤ value') (hvalue : value' ≤ sizeMax)
    (hround : sizeRoundUpMultiple value' multiple = some result') :
    ∃ result, sizeRoundUpMultiple value multiple = some result ∧ result ≤ result' := by
  rw [sizeRoundUpMultiple_eq hvalue] at hround
  split at hround
  · rename_i hcond
    obtain ⟨hmultiple, hfits⟩ := hcond
    obtain rfl := Option.some.inj hround
    have hmono := leastMultiple_mono (Nat.pos_of_ne_zero hmultiple) hle
    refine ⟨leastMultiple value multiple, ?_, hmono⟩
    rw [sizeRoundUpMultiple_eq (hle.trans hvalue), if_pos ⟨hmultiple, hmono.trans hfits⟩]
  · simp at hround

/-- An aligned value comes from a power of two, so what holds of the remainder form holds of it. -/
theorem sizeAlignUpPow2_eq_some (hvalue : value ≤ sizeMax) (halignment : alignment ≤ sizeMax)
    (halign : sizeAlignUpPow2 value alignment = some result) :
    alignment.isPowerOfTwo ∧ sizeRoundUpMultiple value alignment = some result := by
  have hpower : alignment.isPowerOfTwo := by
    rw [sizeAlignUpPow2_eq halignment] at halign
    split at halign
    · rename_i hcond
      exact hcond.1
    · simp at halign
  exact ⟨hpower, by rw [← sizeAlignUpPow2_eq_roundUp hvalue halignment hpower, halign]⟩

/-! ### Calls -/

theorem checkedCall_ite {p : Prop} [Decidable p] (computed : Nat) (output : Option Nat) :
    checkedCall (if p then some computed else none) output
      = if output ≠ none ∧ p then (true, some computed) else (false, output) := by
  cases output with
  | none => rfl
  | some value =>
      by_cases hp : p
      · simp [hp, checkedCall, writeOutput]
      · simp [hp, checkedCall, writeOutput]

/-- **Checked size arithmetic.** For all 64-bit operands each operation called with an output object succeeds
exactly when the mathematical result is a size, and stores it; otherwise the output is as before. Both roundings
compute the least multiple that is not below the value, the mask form for powers of two only, where they agree;
rounding a rounded value changes nothing, and rounding is monotone. -/
theorem checked_arithmetic (left right : Nat) (hleft : left ≤ sizeMax) (hright : right ≤ sizeMax) :
    (∀ output, checkedCall (sizeAdd left right) output
      = if output ≠ none ∧ left + right ≤ sizeMax then (true, some (left + right)) else (false, output)) ∧
    (∀ output, checkedCall (sizeMultiply left right) output
      = if output ≠ none ∧ left * right ≤ sizeMax then (true, some (left * right)) else (false, output)) ∧
    (right ≠ 0 → IsLeast {x | right ∣ x ∧ left ≤ x} (leastMultiple left right)) ∧
    (∀ output, checkedCall (sizeAlignUpPow2 left right) output
      = if output ≠ none ∧ right.isPowerOfTwo ∧ leastMultiple left right ≤ sizeMax then
          (true, some (leastMultiple left right))
        else (false, output)) ∧
    (∀ output, checkedCall (sizeRoundUpMultiple left right) output
      = if output ≠ none ∧ right ≠ 0 ∧ leastMultiple left right ≤ sizeMax then
          (true, some (leastMultiple left right))
        else (false, output)) ∧
    (right.isPowerOfTwo → sizeAlignUpPow2 left right = sizeRoundUpMultiple left right) ∧
    (∀ round ∈ [sizeAlignUpPow2, sizeRoundUpMultiple],
      (∀ result, round left right = some result → round result right = some result) ∧
      ∀ left' result', left ≤ left' → left' ≤ sizeMax → round left' right = some result' →
        ∃ result, round left right = some result ∧ result ≤ result') := by
  refine ⟨fun output => ?_, fun output => ?_, fun hzero => ?_, fun output => ?_, fun output => ?_, ?_, ?_⟩
  · rw [sizeAdd_eq hleft, checkedCall_ite]
  · rw [sizeMultiply_eq, checkedCall_ite]
  · exact isLeast_leastMultiple left (Nat.pos_of_ne_zero hzero)
  · rw [sizeAlignUpPow2_eq hright, checkedCall_ite]
  · rw [sizeRoundUpMultiple_eq hleft, checkedCall_ite]
  · exact sizeAlignUpPow2_eq_roundUp hleft hright
  · intro round hround
    rw [List.mem_pair] at hround
    rcases hround with rfl | rfl
    · refine ⟨fun result halign => ?_, fun left' result' hle hleft' halign => ?_⟩
      · obtain ⟨hpower, hround⟩ := sizeAlignUpPow2_eq_some hleft hright halign
        have hfits := (sizeRoundUpMultiple_eq_some hleft hround).2.2.2.2
        rw [sizeAlignUpPow2_eq_roundUp hfits hright hpower]
        exact sizeRoundUpMultiple_idem hleft hround
      · obtain ⟨hpower, hround⟩ := sizeAlignUpPow2_eq_some hleft' hright halign
        rw [sizeAlignUpPow2_eq_roundUp hleft hright hpower]
        exact sizeRoundUpMultiple_mono hle hleft' hround
    · exact ⟨fun result => sizeRoundUpMultiple_idem hleft,
        fun left' result' hle hleft' => sizeRoundUpMultiple_mono hle hleft'⟩

/-- The last multiple of 16 is its own rounding, and one byte more overflows. -/
theorem checked_arithmetic_last :
    checkedCall (sizeAlignUpPow2 (sizeMax - 15) 16) (some 93) = (true, some (sizeMax - 15)) ∧
      checkedCall (sizeRoundUpMultiple (sizeMax - 14) 16) (some 94) = (false, some 94) := by
  obtain ⟨-, -, -, halign, -⟩ := checked_arithmetic (sizeMax - 15) 16 (by decide) (by decide)
  obtain ⟨-, -, -, -, hround, -⟩ := checked_arithmetic (sizeMax - 14) 16 (by decide) (by decide)
  rw [halign, hround]
  decide

end Hplf
