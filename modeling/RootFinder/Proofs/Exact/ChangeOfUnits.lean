import RootFinder.Proofs.Exact.Boundary
import RootFinder.Proofs.Exact.Transport

/-! Units of the unknowns and of the residuals. If each unknown is measured in another unit, the
columns of the Jacobian and the scaling change with it, and the step is the same one in the new
units. Residuals may be turned and multiplied without any effect. -/

namespace RootFinder

open Matrix

variable {n : Nat}

namespace Vec

section

variable {α : Type} [Scalar α]

/-- The product in each component. -/
def times (v w : Vec α n) : Vec α n :=
  Vector.ofFn fun i => v.get i * w.get i

/-- The quotient in each component. -/
def dividedBy (v w : Vec α n) : Vec α n :=
  Vector.ofFn fun i => v.get i / w.get i

end

variable (v w : Vec ℝ n)

theorem get_times : (v.times w).get = v.get * w.get :=
  funext (get_ofFn _)

theorem get_dividedBy : (v.dividedBy w).get = v.get / w.get :=
  funext (get_ofFn _)

end Vec

namespace Mat

/-- The Jacobian for unknowns that are measured in the units `S`. -/
def scaleColumns {α : Type} [Scalar α] (a : Mat α n) (S : Vec α n) : Mat α n :=
  ofFn fun i j => a.entry i j * S.get j

variable (a : Mat ℝ n) (S : Vec ℝ n)

theorem toMatrix_scaleColumns : (a.scaleColumns S).toMatrix = a.toMatrix * diagonal S.get := by
  ext i j
  rw [toMatrix_apply, scaleColumns, entry_ofFn, mul_diagonal, toMatrix_apply]

theorem scaleColumns_mulVec (v : Fin n → ℝ) :
    (a.scaleColumns S).toMatrix *ᵥ v = a.toMatrix *ᵥ (S.get * v) := by
  rw [toMatrix_scaleColumns, ← mulVec_mulVec]
  congr 1
  funext i
  rw [mulVec_diagonal, Pi.mul_apply]

theorem vecMul_scaleColumns (v : Fin n → ℝ) :
    v ᵥ* (a.scaleColumns S).toMatrix = S.get * (v ᵥ* a.toMatrix) := by
  rw [toMatrix_scaleColumns, ← vecMul_vecMul]
  funext i
  rw [vecMul_diagonal, Pi.mul_apply, mul_comm]

end Mat

namespace Step

/-- The same step in the units `S`. -/
def inUnits {α : Type} [Scalar α] (S : Vec α n) (step : Step α n) : Step α n :=
  step.carried fun move => move.dividedBy S

variable {J : Mat ℝ n} {f d : Vec ℝ n}

section

variable {S : Vec ℝ n} (hS : ∀ i, S.get i ≠ 0)

include hS

theorem times_dividedBy (v : Vec ℝ n) : S.get * (v.dividedBy S).get = v.get := by
  funext i
  rw [Pi.mul_apply, Vec.get_dividedBy, Pi.div_apply, mul_div_cancel₀ _ (hS i)]

theorem keepsLengths_dividedBy (d : Vec ℝ n) :
    KeepsLengths (fun v => v.dividedBy S) d (d.times S) where
  scale v t := by
    refine Vec.ext_get fun i => congrFun ?_ i
    rw [Vec.get_dividedBy, Vec.get_scale, Vec.get_scale, Vec.get_dividedBy, smul_div_assoc]
  addScaled v t w := by
    refine Vec.ext_get fun i => ?_
    rw [Vec.get_dividedBy, Vec.get_addScaled, Vec.get_addScaled, Vec.get_dividedBy,
      Vec.get_dividedBy, ← smul_div_assoc]
    exact add_div _ _ _
  length v := by
    have hproduct : (v.dividedBy S).get * (d.times S).get = v.get * d.get := by
      rw [Vec.get_times, mul_comm, mul_assoc, times_dividedBy hS, mul_comm]
    rw [Vec.scaledNormSquared_eq, Vec.scaledNormSquared_eq, hproduct]

theorem nonsingular_scaleColumns (hJ : J.Nonsingular) : (J.scaleColumns S).Nonsingular := by
  intro v hv
  rw [Mat.scaleColumns_mulVec] at hv
  funext i
  have hi := congrFun (hJ _ hv) i
  exact (mul_eq_zero.mp hi).resolve_left (hS i)

omit hS in
theorem steepest_scaleColumns :
    (steepest (J.scaleColumns S) f).get = S.get * (steepest J f).get := by
  rw [steepest, steepest, Vec.get_neg, Vec.get_neg, Mat.get_transposeMulVec,
    Mat.get_transposeMulVec, Mat.vecMul_scaleColumns, mul_neg]

/-- The scaled gradient is a step, and is told in the new units like one. -/
theorem unscale_scaleColumns :
    unscale (steepest (J.scaleColumns S) f) (d.times S) =
      (unscale (steepest J f) d).dividedBy S := by
  refine Vec.ext_get fun i => ?_
  have hi := hS i
  rw [get_unscale, steepest_scaleColumns, Vec.get_dividedBy, Vec.get_times, Pi.mul_apply,
    Pi.mul_apply, Pi.div_apply, get_unscale]
  field_simp

theorem descent_scaleColumns :
    descent (J.scaleColumns S) f (d.times S) = descent J f d := by
  rw [descent, descent, unscale_scaleColumns hS, Vec.dot_eq, Vec.dot_eq, steepest_scaleColumns]
  have hproduct (g v : Vec ℝ n) : (S.get * g.get) ⬝ᵥ (v.dividedBy S).get = g.get ⬝ᵥ v.get := by
    rw [← times_dividedBy hS v]
    exact Finset.sum_congr rfl fun i _ => by simp only [Pi.mul_apply]; ring
  exact hproduct _ _

theorem curvature_scaleColumns :
    curvature (J.scaleColumns S) f (d.times S) = curvature J f d := by
  rw [curvature, curvature, unscale_scaleColumns hS, Vec.normSquared_eq, Vec.normSquared_eq,
    Mat.get_mulVec, Mat.get_mulVec, Mat.scaleColumns_mulVec, times_dividedBy hS]

theorem retells_scaleColumns (hJ : J.Nonsingular) (f d : Vec ℝ n) :
    Retells (fun v => v.dividedBy S) J f d (J.scaleColumns S) f (d.times S) where
  lengths := keepsLengths_dividedBy hS d
  newton := by
    refine (nonsingular_scaleColumns hS hJ).solve_eq ?_
    rw [Mat.scaleColumns_mulVec, times_dividedBy hS, hJ.mulVec_solve]
  gradient := by
    rw [steepest_scaleColumns, funext_iff, funext_iff]
    exact forall_congr' fun i => mul_eq_zero_iff_left (hS i)
  curvature := by
    rw [curvature_scaleColumns hS]
  cauchy := by
    rw [cauchyPoint, cauchyPoint, descent_scaleColumns hS, curvature_scaleColumns hS,
      unscale_scaleColumns hS]
    exact ((keepsLengths_dividedBy hS d).scale _ _).symm

end

/-- Whatever factors the matrices, the step in other units of the unknowns is the same one told in
these units, of the same kind, and the step for residuals that are turned and multiplied is the
same. -/
theorem choose?_keeps_units {linear : LinearSolver ℝ n}
    (hlinear : linear.factors = some J.eliminate) (hJ : IsUnit J.toMatrix) (f d : Vec ℝ n)
    (radius : ℝ) :
    ∃ step, choose? linear J f d radius = some step ∧
      (∀ (S : Vec ℝ n) (linear' : LinearSolver ℝ n), (∀ i, S.get i ≠ 0) →
        linear'.factors = some (J.scaleColumns S).eliminate →
        choose? linear' (J.scaleColumns S) f (d.times S) radius = some (step.inUnits S) ∧
          (step.inUnits S).kind = step.kind) ∧
      ∀ Q ∈ Matrix.orthogonalGroup (Fin n) ℝ, ∀ (k : ℝ) (linear' : LinearSolver ℝ n), k ≠ 0 →
        linear'.factors = some (J.turned k Q).eliminate →
        choose? linear' (J.turned k Q) (f.turned k Q) d radius = some step := by
  have hregular := Mat.nonsingular_iff_isUnit.mpr hJ
  obtain ⟨step, hstep⟩ : ∃ step, choose? linear J f d radius = some step := by
    rw [choose?_of_solve? (LinearSolver.real_solve? hlinear f.neg)]
    split_ifs
    · exact ⟨_, rfl⟩
    · exact ⟨_, rfl⟩
  refine ⟨step, hstep, fun S linear' hS hlinear' => ⟨?_, rfl⟩, fun Q hQ k linear' hk hlinear' => ?_⟩
  · rw [(retells_scaleColumns hS hregular f d).choose? hlinear hlinear', hstep]
    rfl
  · rw [choose?_turned hregular hQ hk hlinear hlinear', hstep]

end Step

def quarterTurn : Matrix (Fin 2) (Fin 2) ℝ :=
  !![0, -1; 1, 0]

theorem quarterTurn_orthogonal : quarterTurn ∈ Matrix.orthogonalGroup (Fin 2) ℝ := by
  rw [mem_orthogonalGroup_iff]
  ext i j
  fin_cases i <;> fin_cases j <;> simp [quarterTurn, mul_apply]

/-- Twice and three times the units, and a quarter turn with a factor. -/
theorem Step.choose?_keeps_units_sheared :
    ∃ step : Step ℝ 2,
      choose? ⟨0, some sheared.eliminate⟩ sheared (Vec.ones 2) (Vec.ones 2) (1 / 2) = some step ∧
      choose? ⟨0, some (sheared.scaleColumns (Vector.mk #[2, 3] rfl)).eliminate⟩
          (sheared.scaleColumns (Vector.mk #[2, 3] rfl)) (Vec.ones 2)
          ((Vec.ones 2).times (Vector.mk #[2, 3] rfl)) (1 / 2) =
        some (step.inUnits (Vector.mk #[2, 3] rfl)) ∧
      choose? ⟨0, some (sheared.turned (-3) quarterTurn).eliminate⟩
          (sheared.turned (-3) quarterTurn) ((Vec.ones 2).turned (-3) quarterTurn) (Vec.ones 2)
          (1 / 2) = some step := by
  have hlinear : (⟨0, some sheared.eliminate⟩ : LinearSolver ℝ 2).factors =
      some sheared.eliminate := rfl
  obtain ⟨step, hstep, hunits, hturned⟩ := choose?_keeps_units hlinear
    (Mat.nonsingular_iff_isUnit.mp sheared_nonsingular) (Vec.ones 2) (Vec.ones 2) (1 / 2)
  have hS (i : Fin 2) : Vector.get (Vector.mk #[(2 : ℝ), 3] rfl) i ≠ 0 := by
    fin_cases i
    · exact two_ne_zero
    · exact three_ne_zero
  exact ⟨step, hstep, (hunits _ _ hS rfl).1,
    hturned quarterTurn quarterTurn_orthogonal (-3) _ (by norm_num) rfl⟩

end RootFinder
