import Mathlib.Tactic.Linarith
import RootFinder.Proofs.Exact.Condition
import RootFinder.TrustStep

/-! Each step makes the linear model smaller. A Newton step takes it to zero, a part of a Newton
step by that part. Along the scaled gradient the model falls up to the Cauchy point, which is where
steepest descent stops at the latest, and between the Cauchy point and the Newton step it falls to
zero; the region ends on this way, so the fraction of it that is taken lies between zero and
one. -/

namespace RootFinder

open Matrix

variable {n : Nat}

namespace Step

/-- The residuals that the linear model expects after a step. -/
def model {α : Type} [Scalar α] (J : Mat α n) (f move : Vec α n) : Vec α n :=
  (J.mulVec move).addScaled 1 f

variable {J : Mat ℝ n} {f d p : Vec ℝ n} {radius : ℝ}

theorem get_model (move : Vec ℝ n) : (model J f move).get = J.toMatrix *ᵥ move.get + f.get := by
  rw [model, Vec.get_addScaled, Mat.get_mulVec, one_smul]

theorem model_newton (hp : J.toMatrix *ᵥ p.get = -f.get) : (model J f p).get = 0 := by
  rw [get_model, hp, neg_add_cancel]

theorem model_towards_newton (hp : J.toMatrix *ᵥ p.get = -f.get) {v move : Vec ℝ n} {t : ℝ}
    (hmove : move.get = v.get + t • (p.get - v.get)) :
    (model J f move).get = (1 - t) • (model J f v).get := by
  rw [get_model, get_model, hmove, mulVec_add, mulVec_smul, mulVec_sub, hp]
  module

section

variable {c w : Vec ℝ n} (hway : w = p.addScaled (-1) c)

include hway

theorem addScaled_way : c.addScaled 1 w = p := by
  refine Vec.ext_get fun i => ?_
  rw [hway, Vec.get_addScaled, Vec.get_addScaled]
  simp

theorem model_way (hp : J.toMatrix *ᵥ p.get = -f.get) (t : ℝ) :
    (model J f (c.addScaled t w)).get = (1 - t) • (model J f c).get := by
  refine model_towards_newton hp ?_
  rw [Vec.get_addScaled, hway, Vec.get_addScaled]
  module

end

theorem model_shortened_lt (hp : J.toMatrix *ᵥ p.get = -f.get) (hf : f.get ≠ 0) {t : ℝ}
    (ht : 0 < t) (htwo : t < 2) : (model J f (p.scale t)).normSquared < f.normSquared := by
  have hmodel : (model J f (p.scale t)).get = (1 - t) • f.get := by
    rw [get_model, Vec.get_scale, mulVec_smul, hp]
    module
  have hfactor : (1 - t) ^ 2 < 1 := by nlinarith
  rw [Vec.normSquared_of_smul hmodel]
  exact mul_lt_of_lt_one_left (Vec.normSquared_pos_iff.mpr hf) hfactor

theorem dotProduct_mulVec_steepest (move : Vec ℝ n) :
    f.get ⬝ᵥ J.toMatrix *ᵥ move.get = -((steepest J f).dot move) := by
  rw [dotProduct_mulVec, steepest, Vec.dot_eq, Vec.get_neg, Mat.get_transposeMulVec, neg_dotProduct,
    neg_neg]

theorem get_unscale (g : Vec ℝ n) (i : Fin n) :
    (unscale g d).get i = g.get i / (d.get i * d.get i) := by
  simp [unscale]

theorem dot_unscale_pos (hd : ∀ i, 0 < d.get i) {g : Vec ℝ n} (hg : (unscale g d).get ≠ 0) :
    0 < g.dot (unscale g d) := by
  have hterm (i : Fin n) : g.get i * (unscale g d).get i = (g.get i / d.get i) ^ 2 := by
    have := (hd i).ne'
    rw [get_unscale]
    field_simp
  have hsum : g.dot (unscale g d) = ∑ i, (g.get i / d.get i) ^ 2 := by
    rw [Vec.dot_eq, dotProduct]
    exact Finset.sum_congr rfl fun i _ => hterm i
  obtain ⟨i, hi⟩ := Function.ne_iff.mp hg
  have hi' : g.get i / d.get i ≠ 0 := by
    intro h
    apply hi
    rw [get_unscale, ← div_div, h, zero_div]
    rfl
  rw [hsum]
  exact Finset.sum_pos' (fun i _ => sq_nonneg _) ⟨i, Finset.mem_univ i, by positivity⟩

theorem normSquared_model_scale (w : Vec ℝ n) (t : ℝ) :
    (model J f (w.scale t)).normSquared =
      f.normSquared - 2 * t * (steepest J f).dot w + t ^ 2 * (J.mulVec w).normSquared := by
  have hslope := dotProduct_mulVec_steepest (J := J) (f := f) w
  rw [Vec.normSquared_eq, Vec.normSquared_eq (J.mulVec w), get_model, Mat.get_mulVec, Vec.get_scale,
    mulVec_smul]
  simp only [add_dotProduct, dotProduct_add, smul_dotProduct, dotProduct_smul, smul_eq_mul]
  rw [dotProduct_comm _ f.get, hslope, ← Vec.normSquared_eq]
  ring

section

variable {α : Type} [Scalar α]

/-- The descent of the model along the scaled gradient. -/
def descent (J : Mat α n) (f d : Vec α n) : α :=
  (steepest J f).dot (unscale (steepest J f) d)

/-- The curvature of the model along the scaled gradient. -/
def curvature (J : Mat α n) (f d : Vec α n) : α :=
  (J.mulVec (unscale (steepest J f) d)).normSquared

/-- The place along the scaled gradient where the model is smallest. -/
def cauchyPoint (J : Mat α n) (f d : Vec α n) : Vec α n :=
  (unscale (steepest J f) d).scale (descent J f d / curvature J f d)

end

theorem curvature_pos (h : curvature J f d ≠ 0) : 0 < curvature J f d :=
  (Vec.normSquared_nonneg _).lt_of_ne' h

theorem descent_pos (hd : ∀ i, 0 < d.get i) (h : curvature J f d ≠ 0) : 0 < descent J f d := by
  refine dot_unscale_pos hd fun hzero => h ?_
  rw [curvature, Vec.normSquared_eq, Mat.get_mulVec, hzero, mulVec_zero, zero_dotProduct]

/-- Up to twice the way to the Cauchy point the model is smaller than where it starts. -/
theorem model_cauchy_lt (hd : ∀ i, 0 < d.get i) (hcurvature : curvature J f d ≠ 0) {t : ℝ}
    (ht : 0 < t) (htwo : t < 2) :
    (model J f ((cauchyPoint J f d).scale t)).normSquared < f.normSquared := by
  have hcurved := curvature_pos hcurvature
  have hdescent := descent_pos hd hcurvature
  have hmodel : (model J f ((cauchyPoint J f d).scale t)).normSquared =
      f.normSquared - t * (2 - t) * (descent J f d ^ 2 / curvature J f d) := by
    rw [cauchyPoint, Vec.scale_scale, normSquared_model_scale]
    change f.normSquared - 2 * (descent J f d / curvature J f d * t) * descent J f d +
      (descent J f d / curvature J f d * t) ^ 2 * curvature J f d = _
    field_simp
    ring
  have hfall : 0 < t * (2 - t) * (descent J f d ^ 2 / curvature J f d) :=
    mul_pos (mul_pos ht (by linarith)) (by positivity)
  rw [hmodel]
  linarith

theorem positiveRoot_mem {a b room : ℝ} (ha : 0 ≤ a) (hroom : 0 < room) (hone : room < a + 2 * b) :
    0 < (if b ≤ 0 then (√(b * b + a * room) - b) / a else room / (b + √(b * b + a * room))) ∧
      (if b ≤ 0 then (√(b * b + a * room) - b) / a else room / (b + √(b * b + a * room))) < 1 := by
  have hsq : √(b * b + a * room) ^ 2 = b * b + a * room :=
    Real.sq_sqrt (add_nonneg (mul_self_nonneg b) (mul_nonneg ha hroom.le))
  have hroot : 0 ≤ √(b * b + a * room) := Real.sqrt_nonneg _
  generalize √(b * b + a * room) = root at hsq hroot
  -- The root of `a t² + 2 b t = room`, in the form that the sign of `b` makes safe.
  split_ifs with hb
  · have hapos : 0 < a := by linarith
    have hrootpos : 0 < root := by
      refine lt_of_le_of_ne hroot fun h => ?_
      rw [← h] at hsq
      nlinarith [mul_pos hapos hroom, mul_self_nonneg b]
    refine ⟨div_pos (by linarith) hapos, ?_⟩
    rw [div_lt_one hapos]
    nlinarith
  · have hbpos : 0 < b := not_le.mp hb
    refine ⟨div_pos hroom (by linarith), ?_⟩
    rw [div_lt_one (by linarith)]
    nlinarith

section

variable {α : Type} [Scalar α]

/-- Half the coefficient of `t` in the squared scaled length of `p + t w`. -/
def mixed (p w d : Vec α n) : α :=
  Scalar.sum fun i : Fin n => d.get i * d.get i * p.get i * w.get i

/-- What the squared scaled length of `p` may still grow by. -/
def room (p d : Vec α n) (radius : α) : α :=
  (radius - p.scaledNorm d) * (radius + p.scaledNorm d)

/-- The root in the place where the way `w` from `p` leaves the region. -/
def leavingRoot (p w d : Vec α n) (radius : α) : α :=
  Scalar.sqrt (mixed p w d * mixed p w d + w.scaledNormSquared d * room p d radius)

theorem boundaryFraction_eq (p w d : Vec α n) (radius : α) :
    boundaryFraction p w d radius =
      if mixed p w d ≤ 0 then (leavingRoot p w d radius - mixed p w d) / w.scaledNormSquared d
      else room p d radius / (mixed p w d + leavingRoot p w d radius) :=
  rfl

end

theorem scaledNormSquared_addScaled (p w d : Vec ℝ n) (t : ℝ) :
    (p.addScaled t w).scaledNormSquared d =
      p.scaledNormSquared d + 2 * t * mixed p w d + t ^ 2 * w.scaledNormSquared d := by
  simp only [mixed, Vec.scaledNormSquared, Scalar.real_sum, Vec.get_addScaled, Pi.add_apply,
    Pi.smul_apply, smul_eq_mul, Finset.mul_sum, ← Finset.sum_add_distrib]
  exact Finset.sum_congr rfl fun i _ => by ring

section

variable {w : Vec ℝ n} (hinside : p.scaledNorm d < radius)

include hinside

theorem room_pos : 0 < room p d radius := by
  have hlength := Vec.scaledNorm_nonneg p d
  exact mul_pos (by linarith) (by linarith)

theorem room_lt (houtside : radius < (p.addScaled 1 w).scaledNorm d) :
    room p d radius < w.scaledNormSquared d + 2 * mixed p w d := by
  have hlength := Vec.scaledNorm_nonneg p d
  have hend := pow_lt_pow_left₀ houtside (by linarith) two_ne_zero
  rw [Vec.scaledNorm_sq, scaledNormSquared_addScaled, ← Vec.scaledNorm_sq p] at hend
  rw [room]
  linarith

theorem boundaryFraction_mem (houtside : radius < (p.addScaled 1 w).scaledNorm d) :
    0 < boundaryFraction p w d radius ∧ boundaryFraction p w d radius < 1 := by
  rw [boundaryFraction_eq]
  exact positiveRoot_mem (Vec.scaledNormSquared_nonneg w d) (room_pos hinside)
    (room_lt hinside houtside)

end

theorem boundaryFraction_of_way {c w : Vec ℝ n} (houtside : radius < p.scaledNorm d)
    (hnear : c.scaledNorm d < radius) (hway : w = p.addScaled (-1) c) :
    0 < boundaryFraction c w d radius ∧ boundaryFraction c w d radius < 1 := by
  rw [← addScaled_way hway] at houtside
  exact boundaryFraction_mem hnear houtside

/-- The courses of a step when the Newton step `p` lies outside the region. -/
inductive Bends (J : Mat ℝ n) (f d p : Vec ℝ n) (radius : ℝ) : Step ℝ n → Prop
  | noGradient (hgradient : (steepest J f).get = 0) :
      Bends J f d p radius ⟨.noGradient, p.scale (radius / p.scaledNorm d)⟩
  | noCurvature (hcurvature : curvature J f d = 0) :
      Bends J f d p radius ⟨.noCurvature, p.scale (radius / p.scaledNorm d)⟩
  | cauchyOutside (hcurvature : curvature J f d ≠ 0)
      (hfar : radius ≤ (cauchyPoint J f d).scaledNorm d) :
      Bends J f d p radius ⟨.cauchyOutside,
        (cauchyPoint J f d).scale (radius / (cauchyPoint J f d).scaledNorm d)⟩
  | between {w : Vec ℝ n} {t : ℝ} (hcurvature : curvature J f d ≠ 0)
      (hnear : (cauchyPoint J f d).scaledNorm d < radius)
      (hway : w = p.addScaled (-1) (cauchyPoint J f d))
      (ht : t = boundaryFraction (cauchyPoint J f d) w d radius) :
      Bends J f d p radius ⟨.between t, (cauchyPoint J f d).addScaled t w⟩

theorem within_eq {α : Type} [Scalar α] (J : Mat α n) (f d p : Vec α n) (radius : α) :
    within J f d p radius =
      if (steepest J f).normMax == 0 then ⟨.noGradient, p.scale (radius / p.scaledNorm d)⟩
      else if Scalar.isNormal (curvature J f d) then
        if radius ≤ (cauchyPoint J f d).scaledNorm d then
          ⟨.cauchyOutside,
            (cauchyPoint J f d).scale (radius / (cauchyPoint J f d).scaledNorm d)⟩
        else
          let way := p.addScaled (-1) (cauchyPoint J f d)
          let t := boundaryFraction (cauchyPoint J f d) way d radius
          ⟨.between t, (cauchyPoint J f d).addScaled t way⟩
      else ⟨.noCurvature, p.scale (radius / p.scaledNorm d)⟩ :=
  rfl

theorem within_bends (J : Mat ℝ n) (f d p : Vec ℝ n) (radius : ℝ) :
    Bends J f d p radius (within J f d p radius) := by
  rw [within_eq]
  simp only [Scalar.real_beq, Scalar.real_isNormal, decide_eq_true_iff]
  split_ifs with hgradient hcurvature hfar
  · exact .noGradient (Vec.normMax_eq_zero_iff.mp hgradient)
  · exact .cauchyOutside hcurvature hfar
  · exact .between hcurvature (not_le.mp hfar) rfl rfl
  · exact .noCurvature (not_not.mp hcurvature)

theorem within_model_lt (hp : J.toMatrix *ᵥ p.get = -f.get) (hf : f.get ≠ 0)
    (hd : ∀ i, 0 < d.get i) (hradius : 0 < radius) (houtside : radius < p.scaledNorm d) :
    (model J f (within J f d p radius).move).normSquared < f.normSquared := by
  have hshortened :
      (model J f (p.scale (radius / p.scaledNorm d))).normSquared < f.normSquared := by
    have hpart : radius / p.scaledNorm d < 1 := (div_lt_one (by linarith)).mpr houtside
    exact model_shortened_lt hp hf (div_pos hradius (by linarith)) (by linarith)
  have hbends := within_bends J f d p radius
  generalize within J f d p radius = step at hbends
  cases hbends with
  | noGradient => exact hshortened
  | noCurvature => exact hshortened
  | cauchyOutside hcurvature hfar =>
    have hlength := hradius.trans_le hfar
    have hpart := (div_le_one hlength).mpr hfar
    exact model_cauchy_lt hd hcurvature (div_pos hradius hlength) (by linarith)
  | @between w t hcurvature hnear hway ht =>
    obtain ⟨hpos, hone⟩ := boundaryFraction_of_way houtside hnear hway
    rw [← ht] at hpos hone
    have hmodel := model_way hway hp t
    have hcauchy := model_cauchy_lt hd hcurvature one_pos one_lt_two
    rw [Vec.scale_one] at hcauchy
    refine lt_of_le_of_lt ?_ hcauchy
    rw [Vec.normSquared_of_smul hmodel]
    refine mul_le_of_le_one_left (Vec.normSquared_nonneg _) ?_
    nlinarith

theorem choose?_of_solve? {α : Type} [Scalar α] {linear : LinearSolver α n} {J : Mat α n}
    {f d p : Vec α n} {radius : α} (h : linear.solve? f.neg = some p) :
    choose? linear J f d radius =
      if p.scaledNorm d ≤ radius then some ⟨.newtonFits, p⟩ else some (within J f d p radius) := by
  rw [choose?, h]
  rfl

theorem choose?_newton {linear : LinearSolver ℝ n} (hlinear : linear.factors = some J.eliminate)
    (hJ : J.Nonsingular) (hp : J.toMatrix *ᵥ p.get = -f.get) (hfits : p.scaledNorm d ≤ radius) :
    choose? linear J f d radius = some ⟨.newtonFits, p⟩ := by
  have hsolution : J.eliminate.solve f.neg = p := hJ.solve_eq (by rw [hp, Vec.get_neg])
  rw [choose?_of_solve? (LinearSolver.real_solve? hlinear f.neg), hsolution, if_pos hfits]

/-- A step is found for every matrix that has been factored, and the model is smaller after it. -/
theorem exists_choose?_lt {linear : LinearSolver ℝ n} (hlinear : linear.factors = some J.eliminate)
    (hJ : J.Nonsingular) (hf : f.get ≠ 0) (hd : ∀ i, 0 < d.get i) (hradius : 0 < radius) :
    ∃ step, choose? linear J f d radius = some step ∧
      (model J f step.move).normSquared < f.normSquared := by
  have hp : J.toMatrix *ᵥ (J.eliminate.solve f.neg).get = -f.get := by
    rw [hJ.mulVec_solve, Vec.get_neg]
  by_cases hfits : (J.eliminate.solve f.neg).scaledNorm d ≤ radius
  · refine ⟨_, choose?_newton hlinear hJ hp hfits, ?_⟩
    rw [Vec.normSquared_eq_zero_iff.mpr (model_newton hp)]
    exact Vec.normSquared_pos_iff.mpr hf
  · refine ⟨within J f d (J.eliminate.solve f.neg) radius, ?_, ?_⟩
    · rw [choose?_of_solve? (LinearSolver.real_solve? hlinear f.neg), if_neg hfits]
    · exact within_model_lt hp hf hd hradius (not_le.mp hfits)

end Step

end RootFinder
