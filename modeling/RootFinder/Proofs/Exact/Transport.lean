import Mathlib.LinearAlgebra.UnitaryGroup
import RootFinder.Proofs.Exact.TrustStep

/-! One trust-region problem told in two sets of coordinates. A linear map of the steps that keeps
their lengths keeps the place where a way leaves the region; if it also takes the Newton step to
the Newton step and the Cauchy point to the Cauchy point, then the same rule is followed in both,
and the map takes the one step to the other. Residuals may be turned and multiplied too: that is
the problem in its own coordinates. -/

namespace RootFinder

open Matrix

variable {n : Nat}

namespace Vec

variable (v w : Vec ℝ n)

theorem dot_scale (a b : ℝ) : (v.scale a).dot (w.scale b) = a * b * v.dot w := by
  rw [dot_eq, dot_eq, get_scale, get_scale, smul_dotProduct, dotProduct_smul, smul_eq_mul,
    smul_eq_mul, mul_assoc]

theorem normSquared_scale (k : ℝ) : (v.scale k).normSquared = k ^ 2 * v.normSquared :=
  normSquared_of_smul (get_scale v k)

/-- The components after `Q`, all multiplied by `k`. -/
def turned (k : ℝ) (Q : Matrix (Fin n) (Fin n) ℝ) (v : Vec ℝ n) : Vec ℝ n :=
  Vector.ofFn (k • (Q *ᵥ v.get))

theorem get_turned (k : ℝ) (Q : Matrix (Fin n) (Fin n) ℝ) (v : Vec ℝ n) :
    (v.turned k Q).get = k • (Q *ᵥ v.get) :=
  funext (get_ofFn _)

theorem normSquared_turned {Q : Matrix (Fin n) (Fin n) ℝ}
    (hQ : Q ∈ Matrix.orthogonalGroup (Fin n) ℝ) (k : ℝ) :
    (v.turned k Q).normSquared = k ^ 2 * v.normSquared := by
  have hturn : (Q *ᵥ v.get) ⬝ᵥ (Q *ᵥ v.get) = v.get ⬝ᵥ v.get := by
    rw [dotProduct_mulVec, ← vecMul_transpose Q v.get, vecMul_vecMul,
      (mem_orthogonalGroup_iff' _ _).mp hQ, vecMul_one]
  rw [normSquared_eq, normSquared_eq, get_turned, smul_dotProduct, dotProduct_smul, hturn,
    smul_eq_mul, smul_eq_mul, ← mul_assoc, pow_two]

end Vec

namespace Mat

variable (a : Mat ℝ n)

theorem mulVec_scale (k : ℝ) (v : Vec ℝ n) : a.mulVec (v.scale k) = (a.mulVec v).scale k := by
  refine Vec.ext_get fun i => ?_
  rw [get_mulVec, Vec.get_scale, mulVec_smul, Vec.get_scale, get_mulVec]

/-- The columns after `Q`, all multiplied by `k`. -/
def turned (k : ℝ) (Q : Matrix (Fin n) (Fin n) ℝ) (a : Mat ℝ n) : Mat ℝ n :=
  ofFn fun i j => k * (Q * a.toMatrix) i j

theorem toMatrix_turned (k : ℝ) (Q : Matrix (Fin n) (Fin n) ℝ) :
    (a.turned k Q).toMatrix = k • (Q * a.toMatrix) := by
  ext i j
  rw [toMatrix_apply, turned, entry_ofFn]
  rfl

theorem mulVec_turned (k : ℝ) (Q : Matrix (Fin n) (Fin n) ℝ) (v : Vec ℝ n) :
    (a.turned k Q).mulVec v = (a.mulVec v).turned k Q := by
  refine Vec.ext_get fun i => ?_
  rw [get_mulVec, toMatrix_turned, smul_mulVec, ← mulVec_mulVec, Vec.get_turned, get_mulVec]

theorem Nonsingular.turned {a : Mat ℝ n} (ha : a.Nonsingular) {k : ℝ} (hk : k ≠ 0)
    {Q : Matrix (Fin n) (Fin n) ℝ} (hQ : Q ∈ Matrix.orthogonalGroup (Fin n) ℝ) :
    (a.turned k Q).Nonsingular := by
  intro v hv
  rw [toMatrix_turned, smul_mulVec, smul_eq_zero, ← mulVec_mulVec] at hv
  have hback := congrArg (Qᵀ *ᵥ ·) (hv.resolve_left hk)
  simp only [mulVec_mulVec, ← mul_assoc, (mem_orthogonalGroup_iff' _ _).mp hQ, one_mul,
    mulVec_zero] at hback
  exact ha v hback

end Mat

namespace Step

/-- The map respects the operations that steps are formed with, and lengths measured with `d`
before it are lengths measured with `d'` after it. -/
structure KeepsLengths (T : Vec ℝ n → Vec ℝ n) (d d' : Vec ℝ n) : Prop where
  scale : ∀ v t, T (v.scale t) = (T v).scale t
  addScaled : ∀ v t w, T (v.addScaled t w) = (T v).addScaled t (T w)
  length : ∀ v, (T v).scaledNormSquared d' = v.scaledNormSquared d

namespace KeepsLengths

variable {T : Vec ℝ n → Vec ℝ n} {d d' : Vec ℝ n}

theorem refl (d : Vec ℝ n) : KeepsLengths id d d :=
  ⟨fun _ _ => rfl, fun _ _ _ => rfl, fun _ => rfl⟩

theorem scaledNorm (h : KeepsLengths T d d') (v : Vec ℝ n) :
    (T v).scaledNorm d' = v.scaledNorm d := by
  rw [Vec.scaledNorm, h.length]
  rfl

/-- The mixed term is determined by the length of a sum. -/
theorem mixed (h : KeepsLengths T d d') (p w : Vec ℝ n) :
    Step.mixed (T p) (T w) d' = Step.mixed p w d := by
  have hsum := h.length (p.addScaled 1 w)
  rw [h.addScaled, scaledNormSquared_addScaled, scaledNormSquared_addScaled, h.length,
    h.length] at hsum
  linarith

theorem boundaryFraction (h : KeepsLengths T d d') (p w : Vec ℝ n) (radius : ℝ) :
    Step.boundaryFraction (T p) (T w) d' radius = Step.boundaryFraction p w d radius := by
  simp only [boundaryFraction_eq, leavingRoot, room, h.mixed, h.length, h.scaledNorm]

end KeepsLengths

/-- The same step in other coordinates. -/
def carried {α : Type} (T : Vec α n → Vec α n) (step : Step α n) : Step α n :=
  ⟨step.rule, T step.move⟩

/-- The problem of `J'`, `f'` and `d'` is that of `J`, `f` and `d` in other coordinates. -/
structure Retells (T : Vec ℝ n → Vec ℝ n) (J : Mat ℝ n) (f d : Vec ℝ n) (J' : Mat ℝ n)
    (f' d' : Vec ℝ n) : Prop where
  lengths : KeepsLengths T d d'
  newton : J'.eliminate.solve f'.neg = T (J.eliminate.solve f.neg)
  gradient : (steepest J' f').get = 0 ↔ (steepest J f).get = 0
  curvature : curvature J' f' d' = 0 ↔ curvature J f d = 0
  cauchy : cauchyPoint J' f' d' = T (cauchyPoint J f d)

namespace Retells

variable {T : Vec ℝ n → Vec ℝ n} {J J' : Mat ℝ n} {f f' d d' : Vec ℝ n}

theorem within (h : Retells T J f d J' f' d') (p : Vec ℝ n) (radius : ℝ) :
    Step.within J' f' d' (T p) radius = (Step.within J f d p radius).carried T := by
  have hlengths := h.lengths
  simp only [within_eq, Scalar.real_beq, Scalar.real_isNormal, decide_eq_true_iff, h.cauchy,
    Vec.normMax_eq_zero_iff, h.gradient, h.curvature, ne_eq, hlengths.scaledNorm,
    ← hlengths.scale, ← hlengths.addScaled, hlengths.boundaryFraction]
  split_ifs <;> rfl

theorem choose? (h : Retells T J f d J' f' d') {linear linear' : LinearSolver ℝ n}
    (hlinear : linear.factors = some J.eliminate) (hlinear' : linear'.factors = some J'.eliminate)
    (radius : ℝ) :
    Step.choose? linear' J' f' d' radius = (Step.choose? linear J f d radius).map (carried T) := by
  rw [choose?_of_solve? (LinearSolver.real_solve? hlinear f.neg),
    choose?_of_solve? (LinearSolver.real_solve? hlinear' f'.neg), h.newton, h.lengths.scaledNorm,
    h.within]
  split_ifs <;> rfl

end Retells

variable {J : Mat ℝ n} {f d : Vec ℝ n} {k : ℝ} {Q : Matrix (Fin n) (Fin n) ℝ}

theorem unscale_scale (g d : Vec ℝ n) (t : ℝ) : unscale (g.scale t) d = (unscale g d).scale t := by
  refine Vec.ext_get fun i => ?_
  rw [get_unscale, Vec.get_scale, Vec.get_scale, Pi.smul_apply, Pi.smul_apply, get_unscale,
    smul_eq_mul, smul_eq_mul, mul_div_assoc]

theorem steepest_turned (hQ : Q ∈ Matrix.orthogonalGroup (Fin n) ℝ) :
    steepest (J.turned k Q) (f.turned k Q) = (steepest J f).scale (k ^ 2) := by
  refine Vec.ext_get fun i => congrFun ?_ i
  rw [steepest, steepest, Vec.get_neg, Vec.get_scale, Vec.get_neg, Mat.get_transposeMulVec,
    Mat.get_transposeMulVec, Mat.toMatrix_turned, Vec.get_turned, vecMul_smul, smul_vecMul,
    smul_smul, ← vecMul_vecMul, ← vecMul_transpose Q f.get, vecMul_vecMul f.get,
    (mem_orthogonalGroup_iff' _ _).mp hQ, vecMul_one, smul_neg, pow_two]

theorem descent_turned (hQ : Q ∈ Matrix.orthogonalGroup (Fin n) ℝ) :
    descent (J.turned k Q) (f.turned k Q) d = k ^ 4 * descent J f d := by
  rw [descent, descent, steepest_turned hQ, unscale_scale, Vec.dot_scale]
  ring

theorem curvature_turned (hQ : Q ∈ Matrix.orthogonalGroup (Fin n) ℝ) :
    curvature (J.turned k Q) (f.turned k Q) d = k ^ 6 * curvature J f d := by
  rw [curvature, curvature, steepest_turned hQ, unscale_scale, Mat.mulVec_turned,
    Vec.normSquared_turned _ hQ, Mat.mulVec_scale, Vec.normSquared_scale]
  ring

/-- Where steepest descent stops does not depend on how the residuals are turned. -/
theorem cauchyPoint_turned (hQ : Q ∈ Matrix.orthogonalGroup (Fin n) ℝ) (hk : k ≠ 0) :
    cauchyPoint (J.turned k Q) (f.turned k Q) d = cauchyPoint J f d := by
  rw [cauchyPoint, cauchyPoint, descent_turned hQ, curvature_turned hQ, steepest_turned hQ,
    unscale_scale, Vec.scale_scale]
  congr 1
  by_cases hcurvature : curvature J f d = 0
  · simp [hcurvature]
  · field_simp

theorem retells_turned (hJ : J.Nonsingular) (hQ : Q ∈ Matrix.orthogonalGroup (Fin n) ℝ)
    (hk : k ≠ 0) (f d : Vec ℝ n) :
    Retells id J f d (J.turned k Q) (f.turned k Q) d where
  lengths := .refl d
  newton := by
    refine (hJ.turned hk hQ).solve_eq ?_
    rw [id_eq, Mat.toMatrix_turned, smul_mulVec, ← mulVec_mulVec, hJ.mulVec_solve, Vec.get_neg,
      Vec.get_neg, Vec.get_turned, mulVec_neg, smul_neg]
  gradient := by
    rw [steepest_turned hQ, Vec.get_scale, smul_eq_zero, or_iff_right (pow_ne_zero 2 hk)]
  curvature := by
    rw [curvature_turned hQ, mul_eq_zero, or_iff_right (pow_ne_zero 6 hk)]
  cauchy := cauchyPoint_turned hQ hk

/-- Turned and multiplied residuals do not change the step. -/
theorem choose?_turned (hJ : J.Nonsingular) (hQ : Q ∈ Matrix.orthogonalGroup (Fin n) ℝ)
    (hk : k ≠ 0) {linear linear' : LinearSolver ℝ n} (hlinear : linear.factors = some J.eliminate)
    (hlinear' : linear'.factors = some (J.turned k Q).eliminate) (radius : ℝ) :
    choose? linear' (J.turned k Q) (f.turned k Q) d radius = choose? linear J f d radius := by
  rw [(retells_turned hJ hQ hk f d).choose? hlinear hlinear']
  exact congrFun Option.map_id _

end Step

end RootFinder
