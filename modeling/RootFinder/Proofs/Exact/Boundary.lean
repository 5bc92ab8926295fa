import Mathlib.LinearAlgebra.Matrix.ToLinearEquiv
import RootFinder.Proofs.Exact.Affine
import RootFinder.Proofs.Exact.Checked

/-! Steps and the boundary of the trust region. A Newton step that lies in the region is taken as it
is; every other step ends exactly on the boundary. The place where the way from the Cauchy point to
the Newton step leaves the region is a root of a quadratic, and each of the two expressions for it
is used where it is defined. -/

namespace RootFinder

open Matrix Checked

variable {n : Nat}

theorem Mat.nonsingular_iff_isUnit {a : Mat ℝ n} : a.Nonsingular ↔ IsUnit a.toMatrix := by
  rw [← Matrix.mulVec_injective_iff_isUnit]
  exact (injective_iff_map_eq_zero (Matrix.mulVecLin a.toMatrix)).symm

def StepRule.checked : StepRule ℝ → StepRule Checked
  | newtonFits => newtonFits
  | noGradient => noGradient
  | noCurvature => noCurvature
  | cauchyOutside => cauchyOutside
  | between fraction => between (value fraction)

namespace Step

variable {J : Mat ℝ n} {f d p w : Vec ℝ n} {radius : ℝ}

/-- Both expressions solve `a t² + 2 b t = room`. -/
theorem positiveRoot_solves {a b room : ℝ} (ha : 0 ≤ a) (hroom : 0 < room)
    (hone : room < a + 2 * b) {t : ℝ}
    (ht : t = if b ≤ 0 then (√(b * b + a * room) - b) / a else room / (b + √(b * b + a * room))) :
    a * t ^ 2 + 2 * b * t = room := by
  have hsq : √(b * b + a * room) ^ 2 = b * b + a * room :=
    Real.sq_sqrt (add_nonneg (mul_self_nonneg b) (mul_nonneg ha hroom.le))
  have hroot : 0 ≤ √(b * b + a * room) := Real.sqrt_nonneg _
  generalize √(b * b + a * room) = root at hsq hroot ht
  split_ifs at ht with hb
  · have ha : a ≠ 0 := by
      rintro rfl
      linarith
    rw [ht]
    field_simp
    linear_combination hsq
  · have hsum : b + root ≠ 0 := by linarith [not_le.mp hb]
    rw [ht]
    field_simp
    linear_combination -hsq

theorem boundaryFraction_reaches (hinside : p.scaledNorm d < radius)
    (houtside : radius < (p.addScaled 1 w).scaledNorm d) :
    (p.addScaled (boundaryFraction p w d radius) w).scaledNorm d = radius := by
  have hlength := Vec.scaledNorm_nonneg p d
  have hsolves := positiveRoot_solves (Vec.scaledNormSquared_nonneg w d) (room_pos hinside)
    (room_lt hinside houtside) (boundaryFraction_eq p w d radius)
  have hsquares :
      (p.addScaled (boundaryFraction p w d radius) w).scaledNorm d ^ 2 = radius ^ 2 := by
    rw [Vec.scaledNorm_sq, scaledNormSquared_addScaled, ← Vec.scaledNorm_sq p]
    rw [room] at hsolves
    linear_combination hsolves
  exact (sq_eq_sq₀ (Vec.scaledNorm_nonneg _ _) (by linarith)).mp hsquares

/-- How the step `step` lies in the region when `p` is the Newton step. -/
structure ReachesBoundary (J : Mat ℝ n) (f d p : Vec ℝ n) (radius : ℝ) (step : Step ℝ n) :
    Prop where
  inside : step.move.scaledNorm d ≤ radius
  newton_iff : step.kind = .newton ↔ p.scaledNorm d ≤ radius
  newton : step.kind = .newton → step.move = p
  boundary : step.kind ≠ .newton → step.move.scaledNorm d = radius
  dogleg : step.kind = .dogleg → ∃ t, 0 < t ∧ t < 1 ∧ step.rule = .between t ∧
    step.move.get = (cauchyPoint J f d).get + t • (p.get - (cauchyPoint J f d).get)

/-- Outside the region the step is cut off at the boundary. -/
theorem within_reachesBoundary (J : Mat ℝ n) (f : Vec ℝ n) (hradius : 0 < radius)
    (houtside : radius < p.scaledNorm d) :
    ReachesBoundary J f d p radius (within J f d p radius) := by
  have hcut {step : Step ℝ n} (hkind : step.kind ≠ .newton)
      (hreaches : step.move.scaledNorm d = radius)
      (hdogleg : step.kind = .dogleg → ∃ t, 0 < t ∧ t < 1 ∧ step.rule = .between t ∧
        step.move.get = (cauchyPoint J f d).get + t • (p.get - (cauchyPoint J f d).get)) :
      ReachesBoundary J f d p radius step :=
    ⟨hreaches.le, iff_of_false hkind (not_le.mpr houtside), fun h => absurd h hkind,
      fun _ => hreaches, hdogleg⟩
  have hshortened := Vec.scaledNorm_shortened hradius.le (hradius.trans houtside)
  have hbends := within_bends J f d p radius
  generalize within J f d p radius = step at hbends
  cases hbends with
  | noGradient => exact hcut nofun hshortened nofun
  | noCurvature => exact hcut nofun hshortened nofun
  | cauchyOutside _ hfar =>
    exact hcut nofun (Vec.scaledNorm_shortened hradius.le (hradius.trans_le hfar)) nofun
  | @between w t _ hnear hway ht =>
    obtain ⟨hpos, hone⟩ := boundaryFraction_of_way houtside hnear hway
    rw [← addScaled_way hway] at houtside
    have hreaches := boundaryFraction_reaches hnear houtside
    rw [← ht] at hpos hone hreaches
    refine hcut nofun hreaches fun _ => ⟨t, hpos, hone, rfl, ?_⟩
    rw [Vec.get_addScaled, hway, Vec.get_addScaled, neg_one_smul, ← sub_eq_add_neg]

/-- The place where the way `w` from `c` leaves the region is computed without a quotient by zero
or the root of a negative number. -/
structure LeavesDefined (c w d : Vec ℝ n) (radius : ℝ) : Prop where
  root : 0 ≤ mixed c w d * mixed c w d + w.scaledNormSquared d * room c d radius
  behind : mixed c w d ≤ 0 → w.scaledNormSquared d ≠ 0
  ahead : 0 < mixed c w d → mixed c w d + leavingRoot c w d radius ≠ 0

theorem leavesDefined {c : Vec ℝ n} (houtside : radius < p.scaledNorm d)
    (hnear : c.scaledNorm d < radius) (hway : w = p.addScaled (-1) c) :
    LeavesDefined c w d radius := by
  rw [← addScaled_way hway] at houtside
  have hroom := room_pos hnear
  have hend := room_lt hnear houtside
  have hsquared := Vec.scaledNormSquared_nonneg w d
  refine ⟨?_, ?_, ?_⟩
  · exact add_nonneg (mul_self_nonneg _) (mul_nonneg hsquared hroom.le)
  · intro hbehind hzero
    linarith
  · intro hahead
    have hroot : 0 ≤ leavingRoot c w d radius := Real.sqrt_nonneg _
    linarith

/-- The divisors that a step is computed with are not zero, and no negative number is under its
roots. -/
structure IsDefined (J : Mat ℝ n) (f d p : Vec ℝ n) (radius : ℝ) (step : Step ℝ n) : Prop where
  scales : ∀ i, d.get i * d.get i ≠ 0
  newton : step.kind = .scaledNewton → p.scaledNorm d ≠ 0
  curvature : step.kind = .steepestDescent ∨ step.kind = .dogleg → curvature J f d ≠ 0
  cauchy : step.kind = .steepestDescent → (cauchyPoint J f d).scaledNorm d ≠ 0
  leaves : step.kind = .dogleg →
    LeavesDefined (cauchyPoint J f d) (p.addScaled (-1) (cauchyPoint J f d)) d radius

theorem within_isDefined (J : Mat ℝ n) (f : Vec ℝ n) (hd : ∀ i, 0 < d.get i) (hradius : 0 < radius)
    (houtside : radius < p.scaledNorm d) : IsDefined J f d p radius (within J f d p radius) := by
  have hscales (i : Fin n) : d.get i * d.get i ≠ 0 := mul_self_ne_zero.mpr (hd i).ne'
  have hnewton : p.scaledNorm d ≠ 0 := (hradius.trans houtside).ne'
  have hbends := within_bends J f d p radius
  generalize within J f d p radius = step at hbends
  cases hbends with
  | noGradient => exact ⟨hscales, fun _ => hnewton, nofun, nofun, nofun⟩
  | noCurvature => exact ⟨hscales, fun _ => hnewton, nofun, nofun, nofun⟩
  | cauchyOutside hcurvature hfar =>
    exact ⟨hscales, nofun, fun _ => hcurvature, fun _ => (hradius.trans_le hfar).ne', nofun⟩
  | between hcurvature hnear =>
    exact ⟨hscales, nofun, fun _ => hcurvature, nofun, fun _ => leavesDefined houtside hnear rfl⟩

def checked (step : Step ℝ n) : Step Checked n :=
  ⟨step.rule.checked, step.move.checked⟩

section

variable (J : Mat ℝ n) (f d c w : Vec ℝ n) (radius : ℝ)

theorem steepest_checked : steepest J.checked f.checked = (steepest J f).checked := by
  rw [steepest, steepest, Mat.transposeMulVec_checked, Vec.neg_checked]

theorem mixed_checked : mixed c.checked w.checked d.checked = value (mixed c w d) := by
  simp only [mixed, Vec.get_checked, value_mul, sum_value]

theorem room_checked : room c.checked d.checked (value radius) = value (room c d radius) := by
  rw [room, Vec.scaledNorm_checked, value_sub, value_add, value_mul, room]

end

theorem boundaryFraction_checked {c : Vec ℝ n} (h : LeavesDefined c w d radius) :
    boundaryFraction c.checked w.checked d.checked (value radius) =
      value (boundaryFraction c w d radius) := by
  have hroot : leavingRoot c.checked w.checked d.checked (value radius) =
      value (leavingRoot c w d radius) := by
    rw [leavingRoot, mixed_checked, Vec.scaledNormSquared_checked, room_checked, value_mul,
      value_mul, value_add, value_sqrt h.root]
    rfl
  rw [boundaryFraction_eq, boundaryFraction_eq, hroot, mixed_checked,
    Vec.scaledNormSquared_checked, room_checked, ← value_zero]
  by_cases hsign : mixed c w d ≤ 0
  · rw [if_pos hsign, if_pos (value_le_value.mpr hsign), value_sub, value_div (h.behind hsign)]
  · rw [if_neg hsign, if_neg (mt value_le_value.mp hsign), value_add,
      value_div (h.ahead (not_le.mp hsign))]

section

variable (hd : ∀ i, 0 < d.get i)

include hd

theorem unscale_checked (g : Vec ℝ n) : unscale g.checked d.checked = (unscale g d).checked := by
  have hscale (i : Fin n) : d.get i * d.get i ≠ 0 := mul_self_ne_zero.mpr (hd i).ne'
  rw [unscale, unscale, Vec.checked_ofFn]
  simp only [Vec.get_checked, value_mul, value_div (hscale _)]

theorem curvature_checked :
    curvature J.checked f.checked d.checked = value (curvature J f d) := by
  rw [curvature, steepest_checked, unscale_checked hd, Mat.mulVec_checked, Vec.normSquared_checked,
    curvature]

theorem cauchyPoint_checked (hcurvature : curvature J f d ≠ 0) :
    cauchyPoint J.checked f.checked d.checked = (cauchyPoint J f d).checked := by
  rw [cauchyPoint, curvature_checked hd, descent, steepest_checked, unscale_checked hd,
    Vec.dot_checked, value_div hcurvature, Vec.scale_checked, cauchyPoint, descent]

theorem within_checked (J : Mat ℝ n) (f : Vec ℝ n) (hradius : 0 < radius)
    (houtside : radius < p.scaledNorm d) :
    within J.checked f.checked d.checked p.checked (value radius) =
      (within J f d p radius).checked := by
  have hlength : p.scaledNorm d ≠ 0 := (hradius.trans houtside).ne'
  rw [within_eq, within_eq, steepest_checked, Vec.normMax_checked, curvature_checked hd,
    isNormal_value, Vec.scaledNorm_checked, value_div hlength, Vec.scale_checked, ← value_zero,
    value_beq_value]
  simp only [Scalar.real_beq, Scalar.real_isNormal, decide_eq_true_iff]
  by_cases hgradient : (steepest J f).normMax = 0
  · rw [if_pos hgradient, if_pos hgradient]
    rfl
  rw [if_neg hgradient, if_neg hgradient]
  by_cases hcurvature : curvature J f d ≠ 0
  · rw [if_pos hcurvature, if_pos hcurvature, cauchyPoint_checked hd hcurvature,
      Vec.scaledNorm_checked]
    by_cases hfar : radius ≤ (cauchyPoint J f d).scaledNorm d
    · rw [if_pos hfar, if_pos (value_le_value.mpr hfar), value_div (hradius.trans_le hfar).ne',
        Vec.scale_checked]
      rfl
    · have hway : p.checked.addScaled (-1) (cauchyPoint J f d).checked =
          (p.addScaled (-1) (cauchyPoint J f d)).checked :=
        Vec.addScaled_checked _ _ _
      have ht := boundaryFraction_checked (leavesDefined houtside (not_le.mp hfar) rfl)
      rw [if_neg hfar, if_neg (mt value_le_value.mp hfar)]
      simp only [hway, ht, Vec.addScaled_checked]
      rfl
  · rw [if_neg hcurvature, if_neg hcurvature]
    rfl

end

/-- For a Jacobian that is invertible and factored there is a step. It is the Newton step if that
lies in the region, and ends on the boundary otherwise. No quotient by zero and no root of a
negative number is computed for it. -/
theorem choose?_reaches_boundary {linear : LinearSolver ℝ n}
    (hlinear : linear.factors = some J.eliminate) (hJ : IsUnit J.toMatrix) (f : Vec ℝ n)
    (hd : ∀ i, 0 < d.get i) (hradius : 0 < radius) :
    ∃ p step, p.get = -(J.toMatrix⁻¹ *ᵥ f.get) ∧ choose? linear J f d radius = some step ∧
      ReachesBoundary J f d p radius step ∧ IsDefined J f d p radius step ∧
      choose? linear.checked J.checked f.checked d.checked (value radius) = some step.checked := by
  have hregular := Mat.nonsingular_iff_isUnit.mpr hJ
  obtain ⟨p, hsolve⟩ : ∃ p, J.eliminate.solve f.neg = p := ⟨_, rfl⟩
  have hp : J.toMatrix *ᵥ p.get = -f.get := by
    rw [← hsolve, hregular.mulVec_solve, Vec.get_neg]
  have hinverse : p.get = -(J.toMatrix⁻¹ *ᵥ f.get) := by
    have hdet := (isUnit_iff_isUnit_det J.toMatrix).mp hJ
    rw [← mulVec_neg, ← hp, mulVec_mulVec, nonsing_inv_mul _ hdet, one_mulVec]
  have hchecked := LinearSolver.solve?_checked hregular hlinear f.neg
  rw [hsolve, ← Vec.neg_checked] at hchecked
  rw [choose?_of_solve? (LinearSolver.real_solve? hlinear f.neg), hsolve,
    choose?_of_solve? hchecked, Vec.scaledNorm_checked]
  by_cases hfits : p.scaledNorm d ≤ radius
  · have hscales (i : Fin n) : d.get i * d.get i ≠ 0 := mul_self_ne_zero.mpr (hd i).ne'
    rw [if_pos hfits, if_pos (value_le_value.mpr hfits)]
    refine ⟨p, ⟨.newtonFits, p⟩, hinverse, rfl, ?_, ?_, rfl⟩
    · exact ⟨hfits, iff_of_true rfl hfits, fun _ => rfl, fun h => absurd rfl h, nofun⟩
    · exact ⟨hscales, nofun, nofun, nofun, nofun⟩
  · have houtside := not_le.mp hfits
    rw [if_neg hfits, if_neg (mt value_le_value.mp hfits), within_checked hd J f hradius houtside]
    exact ⟨p, within J f d p radius, hinverse, rfl, within_reachesBoundary J f hradius houtside,
      within_isDefined J f hd hradius houtside, rfl⟩

theorem choose?_reaches_boundary_sheared :
    ∃ step, choose? ⟨0, some sheared.eliminate⟩ sheared (Vec.ones 2) (Vec.ones 2) (1 / 2) =
      some step ∧ step.kind ≠ .newton ∧ step.move.scaledNorm (Vec.ones 2) = 1 / 2 := by
  have hlinear : (⟨0, some sheared.eliminate⟩ : LinearSolver ℝ 2).factors =
      some sheared.eliminate := rfl
  have hunit := Mat.nonsingular_iff_isUnit.mp sheared_nonsingular
  have hhalf : (0 : ℝ) < 1 / 2 := by norm_num
  obtain ⟨p, step, hp, hstep, hreaches, -⟩ :=
    choose?_reaches_boundary hlinear hunit (Vec.ones 2) Vec.get_ones_pos hhalf
  -- The Newton step is (0, -1).
  have hsecond : p.get 1 = -1 := by
    have hdet := (isUnit_iff_isUnit_det sheared.toMatrix).mp hunit
    have hsolves : sheared.toMatrix *ᵥ p.get = -(Vec.ones 2 : Vec ℝ 2).get := by
      rw [hp, mulVec_neg, mulVec_mulVec, mul_nonsing_inv _ hdet, one_mulVec]
    have h := congrFun hsolves 1
    rw [mulVec, dotProduct, Fin.sum_univ_two, Pi.neg_apply, Vec.get_ones] at h
    change 0 * p.get 0 + 1 * p.get 1 = -1 at h
    linarith
  have hfar : ¬ p.scaledNorm (Vec.ones 2) ≤ 1 / 2 := by
    intro hfits
    have hsquare := pow_le_pow_left₀ (Vec.scaledNorm_nonneg _ _) hfits 2
    rw [Vec.scaledNorm_sq, Vec.scaledNormSquared_eq, dotProduct, Fin.sum_univ_two] at hsquare
    simp only [Pi.mul_apply, Vec.get_ones, hsecond] at hsquare
    nlinarith [mul_self_nonneg (p.get 0)]
  have hkind : step.kind ≠ .newton := mt hreaches.newton_iff.mp hfar
  exact ⟨step, hstep, hkind, hreaches.boundary hkind⟩

end Step

end RootFinder
