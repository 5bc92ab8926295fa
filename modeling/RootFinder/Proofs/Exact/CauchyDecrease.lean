import RootFinder.Proofs.Exact.Boundary
import RootFinder.Proofs.Exact.Descent

/-! What a step gains in comparison with steepest descent. Along the scaled gradient the model is a
parabola with its vertex at the Cauchy point, so no place on this way has a smaller model than the
vertex, and up to it the model falls. A step is at least as good as the best place on this way that
lies in the region. -/

namespace RootFinder

open Matrix WithLp

variable {n : Nat}

theorem Vec.norm_eq_norm_toLp (v : Vec ℝ n) : v.norm = ‖toLp 2 v.get‖ := by
  rw [Vec.norm, Vec.normSquared_eq, EuclideanSpace.norm_eq]
  simp [dotProduct, ← pow_two]

theorem Vec.scaledNorm_eq_norm_toLp (v d : Vec ℝ n) :
    v.scaledNorm d = ‖toLp 2 (v.get * d.get)‖ := by
  rw [Vec.scaledNorm, Vec.scaledNormSquared_eq, EuclideanSpace.norm_eq]
  simp [dotProduct, ← pow_two, ← abs_mul]

namespace Step

variable {J : Mat ℝ n} {f d p : Vec ℝ n} {radius : ℝ}

theorem get_steepest : (steepest J f).get = -(J.toMatrixᵀ *ᵥ f.get) := by
  rw [steepest, Vec.get_neg, Mat.get_transposeMulVec, mulVec_transpose]

theorem get_unscale_scale (g : Vec ℝ n) (t : ℝ) :
    ((unscale g d).scale t).get = t • (g.get / d.get ^ 2) := by
  funext i
  rw [Vec.get_scale, Pi.smul_apply, Pi.smul_apply, get_unscale, ← pow_two]
  rfl

/-- Where `g` is measured in the units of the region, it is divided by them only once. -/
theorem scaledNorm_unscale_scale (hd : ∀ i, 0 < d.get i) (g : Vec ℝ n) (t : ℝ) :
    ((unscale g d).scale t).scaledNorm d = ‖toLp 2 (t • (g.get / d.get))‖ := by
  have hlength : ((unscale g d).scale t).get * d.get = t • (g.get / d.get) := by
    funext i
    have := (hd i).ne'
    rw [get_unscale_scale]
    simp only [Pi.mul_apply, Pi.smul_apply, Pi.div_apply, Pi.pow_apply, smul_eq_mul]
    field_simp
  rw [Vec.scaledNorm_eq_norm_toLp, hlength]

theorem norm_model (move : Vec ℝ n) :
    (model J f move).norm = ‖toLp 2 (f.get + J.toMatrix *ᵥ move.get)‖ := by
  rw [Vec.norm_eq_norm_toLp, get_model, add_comm]

/-- The model along the scaled gradient is a parabola with its vertex at the Cauchy point. -/
theorem normSquared_model_vertex (hcurvature : curvature J f d ≠ 0) (t : ℝ) :
    (model J f ((unscale (steepest J f) d).scale t)).normSquared =
      (model J f (cauchyPoint J f d)).normSquared +
        curvature J f d * (t - descent J f d / curvature J f d) ^ 2 := by
  rw [cauchyPoint, normSquared_model_scale, normSquared_model_scale]
  change f.normSquared - 2 * t * descent J f d + t ^ 2 * curvature J f d =
    f.normSquared - 2 * (descent J f d / curvature J f d) * descent J f d +
      (descent J f d / curvature J f d) ^ 2 * curvature J f d +
      curvature J f d * (t - descent J f d / curvature J f d) ^ 2
  field_simp
  ring

theorem model_cauchy_le (hcurvature : curvature J f d ≠ 0) (t : ℝ) :
    (model J f (cauchyPoint J f d)).normSquared ≤
      (model J f ((unscale (steepest J f) d).scale t)).normSquared := by
  have hcurved := curvature_pos hcurvature
  rw [normSquared_model_vertex hcurvature]
  exact le_add_of_nonneg_right (by positivity)

/-- Up to the Cauchy point the model falls. -/
theorem model_scale_le (hcurvature : curvature J f d ≠ 0) {s t : ℝ} (hst : s ≤ t)
    (ht : t ≤ descent J f d / curvature J f d) :
    (model J f ((unscale (steepest J f) d).scale t)).normSquared ≤
      (model J f ((unscale (steepest J f) d).scale s)).normSquared := by
  have hcurved := curvature_pos hcurvature
  rw [normSquared_model_vertex hcurvature t, normSquared_model_vertex hcurvature s]
  have hnearer : (t - descent J f d / curvature J f d) ^ 2 ≤
      (s - descent J f d / curvature J f d) ^ 2 := by
    nlinarith
  exact add_le_add_right (mul_le_mul_of_nonneg_left hnearer hcurved.le) _

/-- A Newton step outside the region belongs to residuals that are not zero. -/
theorem get_ne_zero_of_outside (hJ : J.Nonsingular) (hp : J.toMatrix *ᵥ p.get = -f.get)
    (hradius : 0 < radius) (houtside : radius < p.scaledNorm d) : f.get ≠ 0 := by
  intro hf
  rw [hf, neg_zero] at hp
  have hlength : p.scaledNorm d ^ 2 = 0 := by
    rw [Vec.scaledNorm_sq, Vec.scaledNormSquared_eq, hJ p.get hp, zero_mul, zero_dotProduct]
  have hpos := pow_pos (hradius.trans houtside) 2
  linarith

theorem within_le_cauchy (hJ : J.Nonsingular) (hp : J.toMatrix *ᵥ p.get = -f.get)
    (hd : ∀ i, 0 < d.get i) (hradius : 0 < radius) (houtside : radius < p.scaledNorm d) {t : ℝ}
    (ht : 0 ≤ t) (hfits : ((unscale (steepest J f) d).scale t).scaledNorm d ≤ radius) :
    (model J f (within J f d p radius).move).normSquared ≤
      (model J f ((unscale (steepest J f) d).scale t)).normSquared := by
  have hf := get_ne_zero_of_outside hJ hp hradius houtside
  have hfalls := within_model_lt hp hf hd hradius houtside
  have hstays (hdirection : (unscale (steepest J f) d).get = 0) :
      (model J f ((unscale (steepest J f) d).scale t)).normSquared = f.normSquared := by
    rw [Vec.normSquared_eq, get_model, Vec.get_scale, hdirection, smul_zero, mulVec_zero, zero_add,
      Vec.normSquared_eq]
  have hbends := within_bends J f d p radius
  generalize within J f d p radius = step at hbends hfalls
  cases hbends with
  | noGradient hgradient =>
    rw [hstays (funext fun i => by rw [get_unscale, hgradient, Pi.zero_apply, zero_div])]
    exact hfalls.le
  | noCurvature hcurvature =>
    rw [curvature, Vec.normSquared_eq_zero_iff, Mat.get_mulVec] at hcurvature
    rw [hstays (hJ _ hcurvature)]
    exact hfalls.le
  | cauchyOutside hcurvature hfar =>
    have hcauchy : 0 < (cauchyPoint J f d).scaledNorm d := hradius.trans_le hfar
    have hvertex : 0 < descent J f d / curvature J f d :=
      div_pos (descent_pos hd hcurvature) (curvature_pos hcurvature)
    have hplace : (cauchyPoint J f d).scale (radius / (cauchyPoint J f d).scaledNorm d) =
        (unscale (steepest J f) d).scale (descent J f d / curvature J f d *
          (radius / (cauchyPoint J f d).scaledNorm d)) :=
      Vec.scale_scale _ _ _
    have hlength : (cauchyPoint J f d).scaledNorm d =
        descent J f d / curvature J f d * (unscale (steepest J f) d).scaledNorm d := by
      rw [cauchyPoint, Vec.scaledNorm_scale, abs_of_pos hvertex]
    rw [Vec.scaledNorm_scale, abs_of_nonneg ht] at hfits
    rw [hplace]
    refine model_scale_le hcurvature ?_ ?_
    · rw [← mul_div_assoc, le_div_iff₀ hcauchy, hlength, mul_left_comm]
      exact mul_le_mul_of_nonneg_left hfits hvertex.le
    · exact mul_le_of_le_one_right hvertex.le ((div_le_one hcauchy).mpr hfar)
  | @between w t' hcurvature hnear hway ht' =>
    obtain ⟨hpos, hone⟩ := boundaryFraction_of_way houtside hnear hway
    rw [← ht'] at hpos hone
    refine le_trans ?_ (model_cauchy_le hcurvature t)
    rw [Vec.normSquared_of_smul (model_way hway hp t')]
    exact mul_le_of_le_one_left (Vec.normSquared_nonneg _) (by nlinarith)

/-- No place on the way along the scaled gradient `g` that lies in the region has a smaller model
than the step, and residuals that are not zero become smaller in the model. -/
structure BeatsGradient (J : Mat ℝ n) (f d : Vec ℝ n) (radius : ℝ) (step : Step ℝ n) : Prop where
  le_gradient : ∀ (g : Fin n → ℝ) (t : ℝ), g = -(J.toMatrixᵀ *ᵥ f.get) → 0 ≤ t →
    ‖toLp 2 (t • (g / d.get))‖ ≤ radius →
      ‖toLp 2 (f.get + J.toMatrix *ᵥ step.move.get)‖ ≤
        ‖toLp 2 (f.get + t • (J.toMatrix *ᵥ (g / d.get ^ 2)))‖
  falls : f.get ≠ 0 → ‖toLp 2 (f.get + J.toMatrix *ᵥ step.move.get)‖ < ‖toLp 2 f.get‖

theorem beatsGradient_of_model {step : Step ℝ n} (hd : ∀ i, 0 < d.get i)
    (hle : ∀ t, 0 ≤ t → ((unscale (steepest J f) d).scale t).scaledNorm d ≤ radius →
      (model J f step.move).norm ≤ (model J f ((unscale (steepest J f) d).scale t)).norm)
    (hfalls : f.get ≠ 0 → (model J f step.move).norm < f.norm) :
    BeatsGradient J f d radius step := by
  constructor
  · rintro g t hg ht hinside
    rw [← get_steepest] at hg
    subst hg
    rw [← scaledNorm_unscale_scale hd] at hinside
    rw [← norm_model, ← mulVec_smul, ← get_unscale_scale, ← norm_model]
    exact hle t ht hinside
  · rw [← norm_model, ← Vec.norm_eq_norm_toLp]
    exact hfalls

theorem choose?_beats_gradient {linear : LinearSolver ℝ n}
    (hlinear : linear.factors = some J.eliminate) (hJ : J.Nonsingular) (f : Vec ℝ n)
    (hd : ∀ i, 0 < d.get i) (hradius : 0 < radius) :
    ∃ step, choose? linear J f d radius = some step ∧ BeatsGradient J f d radius step := by
  have hp : J.toMatrix *ᵥ (J.eliminate.solve f.neg).get = -f.get := by
    rw [hJ.mulVec_solve, Vec.get_neg]
  rw [choose?_of_solve? (LinearSolver.real_solve? hlinear f.neg)]
  generalize J.eliminate.solve f.neg = p at hp
  by_cases hfits : p.scaledNorm d ≤ radius
  · rw [if_pos hfits]
    have hmodel : (model J f p).norm = 0 := Vec.norm_eq_zero_iff.mpr (model_newton hp)
    refine ⟨_, rfl, beatsGradient_of_model hd ?_ ?_⟩
    · intro t _ _
      rw [hmodel]
      exact Vec.norm_nonneg _
    · intro hf
      rw [hmodel]
      exact (Vec.norm_nonneg f).lt_of_ne' (mt Vec.norm_eq_zero_iff.mp hf)
  · rw [if_neg hfits]
    have houtside := not_le.mp hfits
    refine ⟨_, rfl, beatsGradient_of_model hd ?_ ?_⟩
    · intro t ht hinside
      rw [Vec.norm_le_norm_iff]
      exact within_le_cauchy hJ hp hd hradius houtside ht hinside
    · intro hf
      rw [Vec.norm_lt_norm_iff]
      exact within_model_lt hp hf hd hradius houtside

end Step

namespace State

variable {σ : Type} {sys : Equations (StateM σ) ℝ n} {c : Settings ℝ} {s : State ℝ n}

theorem Evaluates.predicted_pos (hs : s.Reachable sys c) {w v : σ} {p : Preparation ℝ n}
    {step : Step ℝ n} {value : Vec ℝ n} (h : Evaluates sys c s w p step value v) :
    s.f.get ≠ 0 ∧
      (p.trial c step value).gain.predicted =
        1 - (‖toLp 2 (s.f.get + p.state.jacobian.matrix.toMatrix *ᵥ step.move.get)‖ /
          ‖toLp 2 s.f.get‖) ^ 2 ∧
      0 < (p.trial c step value).gain.predicted := by
  have hrange := Settings.real_valid_iff.mp hs.valid
  obtain ⟨u, hprepare, -⟩ := h.called
  have hf : p.state.f = s.f := (prepare_samePlace hprepare).f
  have hmodel := h.model_lt hrange hs.wellScaled
  obtain ⟨hpredicted, hpos⟩ := Gain.predicted_of_model_lt value hmodel
  rw [Preparation.trial_gain]
  refine ⟨h.active.get_f_ne_zero, ?_, hpos⟩
  rw [hpredicted, hf, reduction, Step.norm_model, Vec.norm_eq_norm_toLp]

/-- The step for an invertible Jacobian is at least as good as every place on the way along the
scaled gradient in the region. So an iteration that evaluates the place where its step leads
predicts a decrease. -/
theorem step_beats_gradient :
    (∀ (n : Nat) (linear : LinearSolver ℝ n) (J : Mat ℝ n) (f d : Vec ℝ n) (radius : ℝ),
      linear.factors = some J.eliminate → IsUnit J.toMatrix → (∀ i, 0 < d.get i) → 0 < radius →
        ∃ step, Step.choose? linear J f d radius = some step ∧
          Step.BeatsGradient J f d radius step) ∧
    (∀ (σ : Type) (n : Nat) (sys : Equations (StateM σ) ℝ n) (c : Settings ℝ) (s : State ℝ n),
      s.Reachable sys c → ∀ w p step value v, Evaluates sys c s w p step value v →
        s.f.get ≠ 0 ∧
        (p.trial c step value).gain.predicted =
          1 - (‖toLp 2 (s.f.get + p.state.jacobian.matrix.toMatrix *ᵥ step.move.get)‖ /
            ‖toLp 2 s.f.get‖) ^ 2 ∧
        0 < (p.trial c step value).gain.predicted) := by
  constructor
  · intro n linear J f d radius hlinear hJ hd hradius
    exact Step.choose?_beats_gradient hlinear (Mat.nonsingular_iff_isUnit.mpr hJ) f hd hradius
  · intro σ n sys c s hs w p step value v h
    exact h.predicted_pos hs

theorem step_beats_gradient_sheared :
    (∃ step, Step.choose? ⟨0, some sheared.eliminate⟩ sheared (Vec.ones 2) (Vec.ones 2) (1 / 2) =
      some step ∧ Step.BeatsGradient sheared (Vec.ones 2) (Vec.ones 2) (1 / 2) step) ∧
    ∃ s w p step value v, s.Reachable slanted .exact ∧
      Evaluates slanted .exact s w p step value v ∧
      0 < (p.trial .exact step value).gain.predicted := by
  obtain ⟨hstep, hpredicted⟩ := step_beats_gradient
  constructor
  · exact hstep 2 _ sheared (Vec.ones 2) (Vec.ones 2) (1 / 2) rfl
      (Mat.nonsingular_iff_isUnit.mp sheared_nonsingular) Vec.get_ones_pos (by norm_num)
  · obtain ⟨d, w, hcreate, htracks⟩ :=
      create_tracks slanted_isPure Settings.exact_valid two_ne_zero (Vec.zeros 2) 0
    have hs := Reachable.create hcreate
    obtain ⟨s', t, w', h, -⟩ := htracks.iterate_active slanted_isPure
      (Settings.real_valid_iff.mp Settings.exact_valid) sheared_condition
      (slanted_active rfl rfl ⟨rfl, rfl⟩) w
    obtain ⟨v, hevaluates⟩ := evaluates_of_tried h rfl
    obtain ⟨-, -, hpos⟩ := hpredicted Nat 2 slanted .exact _ hs _ _ _ _ _ hevaluates
    exact ⟨_, _, _, _, _, _, hs, hevaluates, hpos⟩

end State

end RootFinder
