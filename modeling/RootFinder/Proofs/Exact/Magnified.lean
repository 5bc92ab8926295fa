import RootFinder.Proofs.Exact.Gain
import RootFinder.Proofs.Exact.Transport

/-! Residuals and Jacobian multiplied by one factor. Lengths of residuals are multiplied by its
magnitude and singular values too, so the condition of the Jacobian, the step that the trust region
allows and the gain of a step stay what they were. -/

namespace RootFinder

open Matrix

variable {n : Nat} {k : ℝ}

namespace Vec

variable (v w : Vec ℝ n)

theorem neg_scale (k : ℝ) : (v.scale k).neg = v.neg.scale k := by
  rw [neg, neg, scale_scale, scale_scale, mul_comm]

theorem turned_one (k : ℝ) : v.turned k 1 = v.scale k := by
  refine ext_get fun i => ?_
  rw [get_turned, one_mulVec, get_scale]

theorem addScaled_scale (k a : ℝ) :
    (v.scale k).addScaled a (w.scale k) = (v.addScaled a w).scale k := by
  refine ext_get fun i => ?_
  rw [get_addScaled, get_scale, get_scale, get_scale, get_addScaled, smul_add, smul_comm]

theorem norm_scale (k : ℝ) : (v.scale k).norm = |k| * v.norm := by
  rw [norm, normSquared_scale, Scalar.real_sqrt, Real.sqrt_mul (sq_nonneg k), Real.sqrt_sq_eq_abs]
  rfl

theorem normOne_scale (k : ℝ) : (v.scale k).normOne = |k| * v.normOne := by
  rw [normOne_eq, normOne_eq, get_scale, Finset.mul_sum]
  exact Finset.sum_congr rfl fun i _ => abs_mul k _

end Vec

namespace Mat

variable (a : Mat ℝ n)

/-- All entries multiplied by `k`. -/
def magnified (k : ℝ) (a : Mat ℝ n) : Mat ℝ n :=
  ofFn fun i j => k * a.entry i j

@[simp]
theorem entry_magnified (k : ℝ) (i j : Fin n) : (a.magnified k).entry i j = k * a.entry i j := by
  simp [magnified]

theorem toMatrix_magnified (k : ℝ) : (a.magnified k).toMatrix = k • a.toMatrix := by
  ext i j
  simp

theorem magnified_magnified (k l : ℝ) : (a.magnified k).magnified l = a.magnified (l * k) := by
  refine ext_entry fun i j => ?_
  simp [mul_assoc]

theorem magnified_one : a.magnified 1 = a := by
  refine ext_entry fun i j => ?_
  simp

theorem mulVec_magnified (k : ℝ) (v : Vec ℝ n) :
    (a.magnified k).mulVec v = (a.mulVec v).scale k := by
  refine Vec.ext_get fun i => ?_
  rw [get_mulVec, toMatrix_magnified, smul_mulVec, Vec.get_scale, get_mulVec]

theorem toLinearMap_magnified (k : ℝ) : (a.magnified k).toLinearMap = k • a.toLinearMap := by
  rw [toLinearMap, toMatrix_magnified]
  exact map_smul Matrix.toEuclideanLin k a.toMatrix

open LinearMap in
/-- Each singular value of the multiplied matrix comes from one of the matrix. -/
theorem exists_singularValue_magnified (hk : k ≠ 0) {i : Nat} (hi : i < n) :
    ∃ j < n, (a.magnified k).singularValue i = |k| * a.singularValue j := by
  have hfinrank : Module.finrank ℝ (EuclideanSpace ℝ (Fin n)) = n := by simp
  have hvalue := hasEigenvalue_adjoint_comp_self_sq_singularValues (a.magnified k).toLinearMap
    (hfinrank.symm ▸ hi)
  obtain ⟨v, hv⟩ := hvalue.exists_hasEigenvector
  have hadjoint : adjoint (a.magnified k).toLinearMap ∘ₗ (a.magnified k).toLinearMap =
      k ^ 2 • (adjoint a.toLinearMap ∘ₗ a.toLinearMap) := by
    rw [toLinearMap_magnified, map_smulₛₗ]
    ext
    simp [smul_smul, pow_two]
  -- The same vector, with the eigenvalue divided by the squared factor.
  have horiginal : Module.End.HasEigenvalue (adjoint a.toLinearMap ∘ₗ a.toLinearMap)
      ((a.magnified k).singularValue i ^ 2 / k ^ 2) := by
    refine Module.End.hasEigenvalue_of_hasEigenvector (x := v) ⟨?_, hv.2⟩
    have h := hv.apply_eq_smul
    rw [hadjoint] at h
    rw [LinearMap.smul_apply] at h
    rw [Module.End.mem_eigenspace_iff, div_eq_inv_mul, mul_smul]
    exact (eq_inv_smul_iff₀ (pow_ne_zero 2 hk)).mpr h
  obtain ⟨j, hj⟩ := a.toLinearMap.isSymmetric_adjoint_comp_self.exists_eigenvalues_eq hfinrank
    horiginal
  refine ⟨j, j.isLt, ?_⟩
  have hsquares : (a.magnified k).singularValue i ^ 2 = (|k| * a.singularValue j) ^ 2 := by
    have hj' : a.singularValue j ^ 2 = (a.magnified k).singularValue i ^ 2 / k ^ 2 :=
      (a.toLinearMap.sq_singularValues_fin hfinrank j).trans hj
    rw [mul_pow, hj', sq_abs, mul_div_cancel₀ _ (pow_ne_zero 2 hk)]
  exact (sq_eq_sq₀ (singularValue_nonneg _ i)
    (mul_nonneg (abs_nonneg k) (singularValue_nonneg _ j))).mp hsquares

theorem singularValue_magnified_le (hk : k ≠ 0) :
    (a.magnified k).singularValue 0 ≤ |k| * a.singularValue 0 := by
  by_cases hn : 0 < n
  · obtain ⟨j, -, hj⟩ := a.exists_singularValue_magnified hk hn
    rw [hj]
    exact mul_le_mul_of_nonneg_left (a.singularValue_antitone (Nat.zero_le j)) (abs_nonneg k)
  · rw [singularValue_of_le _ (not_lt.mp hn), singularValue_of_le _ (not_lt.mp hn), mul_zero]

theorem le_singularValue_magnified (hk : k ≠ 0) :
    |k| * a.singularValue (n - 1) ≤ (a.magnified k).singularValue (n - 1) := by
  by_cases hn : 0 < n
  · obtain ⟨j, hlt, hj⟩ := a.exists_singularValue_magnified hk (i := n - 1) (by omega)
    rw [hj]
    exact mul_le_mul_of_nonneg_left (a.singularValue_antitone (by omega)) (abs_nonneg k)
  · rw [singularValue_of_le _ (by omega), singularValue_of_le _ (by omega), mul_zero]

theorem condition_magnified (hk : k ≠ 0) : (a.magnified k).condition = a.condition := by
  -- The matrix is the multiplied one times the inverse: each bound holds in both directions.
  have hinverse : (a.magnified k).magnified k⁻¹ = a := by
    rw [magnified_magnified, inv_mul_cancel₀ hk, magnified_one]
  have hpos : 0 < |k| := abs_pos.mpr hk
  have hfirst : (a.magnified k).singularValue 0 = |k| * a.singularValue 0 := by
    have h := (a.magnified k).singularValue_magnified_le (inv_ne_zero hk)
    rw [hinverse, abs_inv, le_inv_mul_iff₀ hpos] at h
    exact le_antisymm (a.singularValue_magnified_le hk) h
  have hlast : (a.magnified k).singularValue (n - 1) = |k| * a.singularValue (n - 1) := by
    have h := (a.magnified k).le_singularValue_magnified (inv_ne_zero hk)
    rw [hinverse, abs_inv, inv_mul_le_iff₀ hpos] at h
    exact le_antisymm h (a.le_singularValue_magnified hk)
  rw [condition, condition, hfirst, hlast, mul_div_mul_left _ _ hpos.ne']

/-- To multiply is to turn by nothing. -/
theorem turned_one (k : ℝ) : a.turned k 1 = a.magnified k := by
  refine ext_entry fun i j => ?_
  rw [turned, entry_ofFn, one_mul, entry_magnified, toMatrix_apply]

end Mat

theorem LinearSolver.refusal?_magnified (hk : k ≠ 0) (tolerance : ℝ) (a : Mat ℝ n) :
    refusal? tolerance (a.magnified k) = refusal? tolerance a := by
  rw [refusal?, refusal?, Mat.real_isFinite, Mat.real_isFinite, Mat.real_reciprocalCondition?,
    Mat.real_reciprocalCondition?, Mat.condition_magnified a hk]

namespace Step

variable (J : Mat ℝ n) (f : Vec ℝ n)

theorem model_magnified (k : ℝ) (move : Vec ℝ n) :
    model (J.magnified k) (f.scale k) move = (model J f move).scale k := by
  rw [model, model, Mat.mulVec_magnified, Vec.addScaled_scale]

variable {J f} {d : Vec ℝ n} {radius : ℝ}

/-- Whatever factors a regular Jacobian, the same step is chosen. -/
theorem choose?_magnified (hk : k ≠ 0) (hJ : J.Nonsingular) {linear linear' : LinearSolver ℝ n}
    (h : linear.factors = some J.eliminate)
    (h' : linear'.factors = some (J.magnified k).eliminate) :
    choose? linear' (J.magnified k) (f.scale k) d radius = choose? linear J f d radius := by
  rw [← Mat.turned_one] at h' ⊢
  rw [← Vec.turned_one]
  exact choose?_turned hJ (one_mem _) hk h h' radius

end Step

theorem decrease?_magnified (hk : k ≠ 0) (before after : ℝ) :
    decrease? (|k| * before) (|k| * after) = decrease? before after := by
  have hpos : 0 < |k| := abs_pos.mpr hk
  simp only [real_decrease?, mul_lt_mul_iff_right₀ hpos, reduction,
    mul_div_mul_left _ _ hpos.ne']

theorem Gain.ofTrial_magnified (hk : k ≠ 0) (J : Mat ℝ n) (f step value : Vec ℝ n) :
    ofTrial (J.magnified k) (f.scale k) step (value.scale k) = ofTrial J f step value := by
  have hmodel := Step.model_magnified J f k step
  unfold Step.model at hmodel
  simp only [ofTrial, hmodel, Vec.norm_scale, decrease?_magnified hk, Vec.real_isFinite]

end RootFinder
