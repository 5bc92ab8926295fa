import Mathlib.Algebra.BigOperators.Fin
import Mathlib.Analysis.Real.Sqrt
import RootFinder.Proofs.Arithmetic

/-! The real numbers as scalars. All definitions over scalars get their exact meaning here: sums do
not depend on their order, nothing is undefined or out of range, and only zero has lost digits. -/

namespace RootFinder

noncomputable instance : Scalar ℝ where
  toZero := inferInstance
  toOne := inferInstance
  toAdd := inferInstance
  toSub := inferInstance
  toMul := inferInstance
  toDiv := inferInstance
  toNeg := inferInstance
  toLE := inferInstance
  toLT := inferInstance
  toOfScientific := inferInstance
  beq a b := decide (a = b)
  decidableLE := inferInstance
  decidableLT := inferInstance
  sqrt := Real.sqrt
  abs a := |a|
  isFinite _ := true
  isNaN _ := false
  isNormal a := decide (a ≠ 0)
  leastNormal := 2 ^ (-1022 : ℤ)

namespace Scalar

@[simp]
theorem real_beq (a b : ℝ) : (a == b) = decide (a = b) :=
  rfl

@[simp]
theorem real_sqrt (a : ℝ) : Scalar.sqrt a = √a :=
  rfl

@[simp]
theorem real_abs (a : ℝ) : Scalar.abs a = |a| :=
  rfl

@[simp]
theorem real_isFinite (a : ℝ) : isFinite a = true :=
  rfl

@[simp]
theorem real_isNaN (a : ℝ) : isNaN a = false :=
  rfl

@[simp]
theorem real_isNormal (a : ℝ) : isNormal a = decide (a ≠ 0) :=
  rfl

@[simp]
theorem real_isVanishing (a : ℝ) : isVanishing a = decide (a = 0) := by
  simp [isVanishing]

@[simp]
theorem real_isPositive (a : ℝ) : isPositive a = decide (0 < a) := by
  simp [isPositive]

@[simp]
theorem real_isNonNegative (a : ℝ) : isNonNegative a = decide (0 ≤ a) := by
  simp [isNonNegative]

@[simp]
theorem real_maxNum (a b : ℝ) : maxNum a b = max a b := by
  simp [maxNum, max_def_lt]

@[simp]
theorem real_minNum (a b : ℝ) : minNum a b = min a b := by
  simp [minNum, min_def_lt]

theorem real_clamp (lo hi a : ℝ) : clamp lo hi a = min hi (max a lo) := by
  rw [clamp, ← max_def_lt, min_def_lt]

@[simp]
theorem real_sum {n : Nat} (f : Fin n → ℝ) : sum f = ∑ i, f i := by
  unfold sum
  induction n with
  | zero => simp
  | succ n ih =>
    rw [Fin.foldl_succ_last, Fin.sum_univ_castSucc]
    exact congrArg (· + f (Fin.last n)) (ih fun i => f i.castSucc)

end Scalar

instance : LawfulComparison ℝ where
  lt_iff _ _ := lt_iff_le_not_ge
  beq_iff a b := by
    rw [Scalar.real_beq, decide_eq_true_iff]
    exact le_antisymm_iff

instance : LawfulArithmetic ℝ where
  le_trans := le_trans
  le_or_le _ _ := le_total _ _
  isNaN_of_le _ := ⟨rfl, rfl⟩
  isNaN_of_isFinite _ := rfl
  isFinite_of_le _ _ _ := rfl
  isFinite_of_lt _ _ := rfl
  zero_lt_one := one_pos
  isFinite_one := rfl
  permille_pos := by norm_num
  neg_zero := by simp
  isNaN_neg _ := rfl
  isFinite_of_add _ := ⟨rfl, rfl⟩
  isNaN_of_add _ := ⟨rfl, rfl⟩
  add_nonneg := add_nonneg
  zero_add ha _ := by simpa using ha
  isNaN_of_sub _ := ⟨rfl, rfl⟩
  isNaN_sub _ _ := rfl
  isFinite_of_mul _ := ⟨rfl, rfl⟩
  isNaN_mul_iff := by simp
  mul_zero _ hb := by simp [of_decide_eq_true hb]
  one_mul := one_mul
  mul_self_nonneg _ := mul_self_nonneg _
  mul_self_congr h := by rw [of_decide_eq_true h]
  isNaN_of_div _ := ⟨rfl, rfl⟩
  isNaN_div h := by cases h
  div_infinite _ hb := by cases hb
  neg_one_div hb := not_lt.mpr (div_nonpos_of_nonpos_of_nonneg (by norm_num) hb.le)
  isFinite_of_sqrt _ := rfl
  isNaN_of_sqrt _ := rfl
  sqrt_nonneg _ := Real.sqrt_nonneg _

end RootFinder
