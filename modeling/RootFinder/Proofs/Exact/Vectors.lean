import Mathlib.Algebra.Order.BigOperators.Ring.Finset
import Mathlib.Algebra.Order.Chebyshev
import Mathlib.LinearAlgebra.Matrix.DotProduct
import RootFinder.Proofs.Exact.Scalars
import RootFinder.Mat

/-! Vectors and matrices of real numbers. A vector is seen as the function of its components and a
matrix as one of Mathlib's; products and norms are then the ones known from linear algebra. -/

namespace RootFinder

open Matrix

variable {n : Nat}

namespace Vec

@[simp]
theorem real_isFinite (v : Vec ℝ n) : v.isFinite = true := by
  simp [isFinite]

@[simp]
theorem get_zeros (i : Fin n) : (zeros n : Vec ℝ n).get i = 0 := by
  change (Vector.replicate n (0 : ℝ))[i.val] = 0
  simp

@[simp]
theorem get_ones (i : Fin n) : (ones n : Vec ℝ n).get i = 1 := by
  change (Vector.replicate n (1 : ℝ))[i.val] = 1
  simp

theorem get_ones_pos (i : Fin n) : 0 < (ones n : Vec ℝ n).get i := by
  rw [get_ones]
  exact one_pos

theorem get_map (g : ℝ → ℝ) (v : Vec ℝ n) (i : Fin n) : (v.map g).get i = g (v.get i) := by
  change (v.map g)[i.val] = g v[i.val]
  simp

theorem get_scale (v : Vec ℝ n) (a : ℝ) : (v.scale a).get = a • v.get := by
  funext i
  rw [scale, get_map, Pi.smul_apply, smul_eq_mul, mul_comm]

theorem scale_scale (v : Vec ℝ n) (a b : ℝ) : (v.scale a).scale b = v.scale (a * b) := by
  refine ext_get fun i => ?_
  rw [get_scale, get_scale, get_scale, smul_smul, mul_comm]

theorem scale_one (v : Vec ℝ n) : v.scale 1 = v := by
  refine ext_get fun i => ?_
  rw [get_scale, one_smul]

theorem get_neg (v : Vec ℝ n) : v.neg.get = -v.get := by
  rw [neg, get_scale, neg_one_smul]

theorem get_addScaled (v w : Vec ℝ n) (a : ℝ) : (v.addScaled a w).get = v.get + a • w.get := by
  funext i
  simp [addScaled]

theorem dot_eq (v w : Vec ℝ n) : v.dot w = v.get ⬝ᵥ w.get := by
  simp [dot, dotProduct]

theorem normSquared_eq (v : Vec ℝ n) : v.normSquared = v.get ⬝ᵥ v.get :=
  dot_eq v v

theorem normSquared_nonneg (v : Vec ℝ n) : 0 ≤ v.normSquared := by
  rw [normSquared_eq]
  exact Finset.sum_nonneg fun _ _ => mul_self_nonneg _

theorem normSquared_eq_zero_iff {v : Vec ℝ n} : v.normSquared = 0 ↔ v.get = 0 := by
  rw [normSquared_eq, dotProduct_self_eq_zero]

theorem normSquared_pos_iff {v : Vec ℝ n} : 0 < v.normSquared ↔ v.get ≠ 0 := by
  rw [(normSquared_nonneg v).lt_iff_ne', ne_eq, normSquared_eq_zero_iff]

theorem normSquared_of_smul {v w : Vec ℝ n} {c : ℝ} (h : v.get = c • w.get) :
    v.normSquared = c ^ 2 * w.normSquared := by
  rw [normSquared_eq, normSquared_eq, h, smul_dotProduct, dotProduct_smul, smul_eq_mul,
    smul_eq_mul, ← mul_assoc, ← pow_two]

theorem norm_nonneg (v : Vec ℝ n) : 0 ≤ v.norm :=
  Real.sqrt_nonneg _

theorem norm_sq (v : Vec ℝ n) : v.norm ^ 2 = v.normSquared :=
  Real.sq_sqrt (normSquared_nonneg v)

theorem norm_lt_norm_iff {v w : Vec ℝ n} : v.norm < w.norm ↔ v.normSquared < w.normSquared :=
  Real.sqrt_lt_sqrt_iff (normSquared_nonneg v)

theorem norm_le_norm_iff {v w : Vec ℝ n} : v.norm ≤ w.norm ↔ v.normSquared ≤ w.normSquared :=
  Real.sqrt_le_sqrt_iff (normSquared_nonneg w)

theorem norm_eq_zero_iff {v : Vec ℝ n} : v.norm = 0 ↔ v.get = 0 := by
  rw [← normSquared_eq_zero_iff]
  exact Real.sqrt_eq_zero (normSquared_nonneg v)

theorem normOne_eq (v : Vec ℝ n) : v.normOne = ∑ i, |v.get i| := by
  simp [normOne]

/-- The sum of magnitudes is at most the root of the dimension times the Euclidean norm. -/
theorem normOne_sq_le (v : Vec ℝ n) : v.normOne ^ 2 ≤ n * v.normSquared := by
  have h := sq_sum_le_card_mul_sum_sq (s := Finset.univ) (f := fun i => |v.get i|)
  simp only [sq_abs, Finset.card_univ, Fintype.card_fin] at h
  rw [normOne_eq, normSquared_eq]
  simpa [dotProduct, ← pow_two] using h

theorem scaledNormSquared_eq (v d : Vec ℝ n) :
    v.scaledNormSquared d = (v.get * d.get) ⬝ᵥ (v.get * d.get) := by
  simp [scaledNormSquared, dotProduct]

theorem scaledNormSquared_nonneg (v d : Vec ℝ n) : 0 ≤ v.scaledNormSquared d := by
  rw [scaledNormSquared_eq]
  exact Finset.sum_nonneg fun _ _ => mul_self_nonneg _

theorem scaledNorm_nonneg (v d : Vec ℝ n) : 0 ≤ v.scaledNorm d :=
  Real.sqrt_nonneg _

theorem scaledNorm_sq (v d : Vec ℝ n) : v.scaledNorm d ^ 2 = v.scaledNormSquared d :=
  Real.sq_sqrt (scaledNormSquared_nonneg v d)

theorem scaledNorm_scale (v d : Vec ℝ n) (t : ℝ) :
    (v.scale t).scaledNorm d = |t| * v.scaledNorm d := by
  have hsquared : (v.scale t).scaledNormSquared d = t ^ 2 * v.scaledNormSquared d := by
    rw [scaledNormSquared_eq, scaledNormSquared_eq, get_scale, smul_mul_assoc, smul_dotProduct,
      dotProduct_smul, smul_eq_mul, smul_eq_mul, ← mul_assoc, ← pow_two]
  rw [scaledNorm, hsquared, Scalar.real_sqrt, Real.sqrt_mul (sq_nonneg t), Real.sqrt_sq_eq_abs]
  rfl

/-- A vector that is not short is brought to any length. -/
theorem scaledNorm_shortened {v d : Vec ℝ n} {radius : ℝ} (hradius : 0 ≤ radius)
    (hv : 0 < v.scaledNorm d) : (v.scale (radius / v.scaledNorm d)).scaledNorm d = radius := by
  rw [scaledNorm_scale, abs_of_nonneg (div_nonneg hradius hv.le), div_mul_cancel₀ _ hv.ne']

theorem normMax_le_iff {v : Vec ℝ n} {c : ℝ} : v.normMax ≤ c ↔ 0 ≤ c ∧ ∀ i, |v.get i| ≤ c := by
  have hlist (values : List ℝ) (first : ℝ) :
      values.foldl (fun largest c => Scalar.maxNum largest (Scalar.abs c)) first ≤ c ↔
        first ≤ c ∧ ∀ a ∈ values, |a| ≤ c := by
    induction values generalizing first with
    | nil => simp
    | cons a values ih =>
      rw [List.foldl_cons, ih, Scalar.real_maxNum, Scalar.real_abs, max_le_iff,
        List.forall_mem_cons, and_assoc]
  have hmem : (∀ a ∈ v.toList, |a| ≤ c) ↔ ∀ i, |v.get i| ≤ c := by
    simp only [Vector.mem_toList_iff, Vector.mem_iff_getElem]
    constructor
    · intro h i
      exact h _ ⟨i, i.isLt, rfl⟩
    · rintro h _ ⟨i, hi, rfl⟩
      exact h ⟨i, hi⟩
  rw [normMax, ← Vector.foldl_toList, hlist, hmem]

theorem normMax_eq_zero_iff {v : Vec ℝ n} : v.normMax = 0 ↔ v.get = 0 := by
  have hnonneg : 0 ≤ v.normMax := (normMax_le_iff.mp le_rfl).1
  rw [← hnonneg.ge_iff_eq', normMax_le_iff, funext_iff]
  simp

end Vec

namespace Mat

def toMatrix (a : Mat ℝ n) : Matrix (Fin n) (Fin n) ℝ :=
  Matrix.of a.entry

@[simp]
theorem toMatrix_apply (a : Mat ℝ n) (i j : Fin n) : a.toMatrix i j = a.entry i j :=
  rfl

@[simp]
theorem real_isFinite (a : Mat ℝ n) : a.isFinite = true := by
  simp [isFinite]

theorem ext_entry {a b : Mat ℝ n} (h : ∀ i j, a.entry i j = b.entry i j) : a = b :=
  Vec.ext_get fun i => Vec.ext_get (h i)

theorem get_mulVec (a : Mat ℝ n) (v : Vec ℝ n) : (a.mulVec v).get = a.toMatrix *ᵥ v.get := by
  funext i
  simp [mulVec, Matrix.mulVec, dotProduct]

theorem get_transposeMulVec (a : Mat ℝ n) (v : Vec ℝ n) :
    (a.transposeMulVec v).get = v.get ᵥ* a.toMatrix := by
  funext j
  simp [transposeMulVec, Matrix.vecMul, dotProduct, mul_comm]

/-- Only zero is taken to zero. -/
def Nonsingular (a : Mat ℝ n) : Prop :=
  ∀ v, a.toMatrix *ᵥ v = 0 → v = 0

end Mat

end RootFinder
