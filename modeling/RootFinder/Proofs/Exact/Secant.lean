import RootFinder.Proofs.Exact.Tightening

/-! What an accepted step teaches the Jacobian. Over the real numbers the update makes the matrix
take the step to the change of the residuals and leaves it as it was on all directions orthogonal
to the step; there is only one such matrix. A step too short for an update leaves the matrix alone
and marks it. -/

namespace RootFinder

open Matrix

variable {σ : Type} {n : Nat}

/-- The matrix takes the step to the change of the residuals, and does to directions orthogonal to
the step what `J` does. -/
structure IsSecantUpdate (J : Matrix (Fin n) (Fin n) ℝ) (step df : Fin n → ℝ)
    (B : Matrix (Fin n) (Fin n) ℝ) : Prop where
  secant : B *ᵥ step = df
  orthogonal : ∀ v, v ⬝ᵥ step = 0 → B *ᵥ v = J *ᵥ v

/-- A direction splits into a multiple of the step and what is orthogonal to it. -/
theorem IsSecantUpdate.mulVec_eq {J B : Matrix (Fin n) (Fin n) ℝ} {step df : Fin n → ℝ}
    (h : IsSecantUpdate J step df B) (hstep : step ≠ 0) (v : Fin n → ℝ) :
    B *ᵥ v = (v ⬝ᵥ step / (step ⬝ᵥ step)) • df +
      J *ᵥ (v - (v ⬝ᵥ step / (step ⬝ᵥ step)) • step) := by
  have hlength : step ⬝ᵥ step ≠ 0 := dotProduct_self_eq_zero.not.mpr hstep
  have horthogonal : (v - (v ⬝ᵥ step / (step ⬝ᵥ step)) • step) ⬝ᵥ step = 0 := by
    rw [sub_dotProduct, smul_dotProduct, smul_eq_mul, div_mul_cancel₀ _ hlength, sub_self]
  rw [← h.orthogonal _ horthogonal, mulVec_sub, mulVec_smul, h.secant, add_sub_cancel]

theorem IsSecantUpdate.eq {J B C : Matrix (Fin n) (Fin n) ℝ} {step df : Fin n → ℝ}
    (hB : IsSecantUpdate J step df B) (hC : IsSecantUpdate J step df C) (hstep : step ≠ 0) :
    B = C := by
  refine Matrix.mulVec_injective (funext fun v => ?_)
  rw [hB.mulVec_eq hstep, hC.mulVec_eq hstep]

theorem Mat.toMatrix_addRankOne (a : Mat ℝ n) (c : ℝ) (u v : Vec ℝ n) :
    (a.addRankOne c u v).toMatrix = a.toMatrix + vecMulVec u.get (c • v.get) := by
  ext i j
  simp [Mat.addRankOne, vecMulVec_apply, mul_left_comm]

theorem Mat.addRankOne_mulVec (a : Mat ℝ n) (c : ℝ) (u v : Vec ℝ n) (x : Fin n → ℝ) :
    (a.addRankOne c u v).toMatrix *ᵥ x = a.toMatrix *ᵥ x + (c * (v.get ⬝ᵥ x)) • u.get := by
  rw [toMatrix_addRankOne, add_mulVec, vecMulVec_mulVec, smul_dotProduct, smul_eq_mul,
    op_smul_eq_smul]

namespace Jacobian

theorem real_isNegligible (step : Vec ℝ n) :
    isNegligible step = decide (step.normSquared ≤ 2 ^ (-1022 : ℤ)) := by
  simp only [isNegligible, Scalar.real_isNaN, Bool.false_or]
  rfl

theorem get_secantDefect (a : Mat ℝ n) (step df : Vec ℝ n) :
    (secantDefect a step df).get = df.get - a.toMatrix *ᵥ step.get := by
  funext i
  rw [secantDefect, Vec.get_ofFn, Mat.get_mulVec, Pi.sub_apply]

theorem update_secant (jac : Jacobian ℝ n) {step : Vec ℝ n} (df : Vec ℝ n)
    (h : 2 ^ (-1022 : ℤ) < step.normSquared) :
    IsSecantUpdate jac.matrix.toMatrix step.get df.get (jac.update step df).matrix.toMatrix ∧
      (jac.update step df).fresh = false := by
  have hpos : 0 < step.get ⬝ᵥ step.get := by
    rw [← Vec.normSquared_eq]
    exact (zpow_pos two_pos _).trans h
  have hcarried : ¬ isNegligible step = true := by
    rw [real_isNegligible, decide_eq_true_iff]
    exact not_le.mpr h
  rw [update, if_neg hcarried]
  refine ⟨⟨?_, fun v hv => ?_⟩, rfl⟩
  · rw [Mat.addRankOne_mulVec, get_secantDefect, Vec.normSquared_eq,
      one_div_mul_cancel hpos.ne', one_smul, add_sub_cancel]
  · rw [Mat.addRankOne_mulVec, dotProduct_comm, hv, mul_zero, zero_smul, add_zero]

theorem update_left_out (jac : Jacobian ℝ n) {step : Vec ℝ n} (df : Vec ℝ n)
    (h : step.normSquared ≤ 2 ^ (-1022 : ℤ)) :
    jac.update step df = { jac with stale := true } := by
  rw [update, if_pos]
  rw [real_isNegligible, decide_eq_true_iff]
  exact h

end Jacobian

namespace State

variable {sys : Equations (StateM σ) ℝ n} {F : Vec ℝ n → Vec ℝ n} {c : Settings ℝ} {s : State ℝ n}
  {w w' : σ} {a : Attempt ℝ n} {p : Preparation ℝ n} {t : Trial ℝ n}

/-- The Jacobian that an accepted step leaves is the one that the step was found with, updated by
the step and the change of the residuals. -/
theorem jacobian_of_accepted (h : (s.iterate sys c).run w = (a, w'))
    (hr : a.result = .ok (.tried p t)) (ht : t.accepted = true) :
    (∃ u, (s.prepare sys c).run w = (.ok p, u)) ∧ p.step? = some t.step ∧
      a.state.step = t.step.move ∧ a.state.x = s.x.addScaled 1 a.state.step ∧
      a.state.jacobian =
        p.state.jacobian.update a.state.step (s.f.addScaled (-1) a.state.f).neg := by
  cases commits_of_tried h hr with
  | kept he =>
    obtain ⟨u, hp, -⟩ := he.called
    have hplace := prepare_samePlace hp
    refine ⟨⟨u, hp⟩, he.proposed, commit_step _ _ _, ?_, ?_⟩
    · rw [commit_x, commit_step, if_pos ht, (tested_samePlace p t.step).x, hplace.x]
    · rw [commit_jacobian, commit_step, commit_f, if_pos ht, if_pos ht,
        (tested_samePlace p t.step).f, hplace.f]
      rfl
  | renewed _ hj hrefreshed =>
    rw [hj] at ht hrefreshed
    rw [not_accepted_of_refreshed hrefreshed] at ht
    cases ht

/-- An accepted step makes the Jacobian it was found with the secant update for the step, the only
one there is. A step too short for that leaves the Jacobian and marks it. -/
theorem accepted_step_updates (hsys : sys.Answers F) (hs : s.Reachable sys c)
    (h : (s.iterate sys c).run w = (a, w')) (hr : a.result = .ok (.tried p t))
    (ht : t.accepted = true) :
    ((∃ u, (s.prepare sys c).run w = (.ok p, u)) ∧ p.step? = some t.step ∧
      a.state.step = t.step.move ∧ a.state.x = s.x.addScaled 1 a.state.step) ∧
    (2 ^ (-1022 : ℤ) < a.state.step.normSquared →
      (∀ B, IsSecantUpdate p.state.jacobian.matrix.toMatrix a.state.step.get
        ((F a.state.x).get - (F s.x).get) B ↔ B = a.state.jacobian.matrix.toMatrix) ∧
      a.state.jacobian.fresh = false) ∧
    (a.state.step.normSquared ≤ 2 ^ (-1022 : ℤ) →
      a.state.jacobian.matrix = p.state.jacobian.matrix ∧ a.state.jacobian.stale = true) := by
  obtain ⟨hp, hfound, hstep, hx, hjacobian⟩ := jacobian_of_accepted h hr ht
  have hbefore : s.f = F s.x := (hs.consistent hsys).1
  have hafter : a.state.f = F a.state.x := ((hs.iterate h).consistent hsys).1
  have hdf : (s.f.addScaled (-1) a.state.f).neg.get = (F a.state.x).get - (F s.x).get := by
    rw [Vec.get_neg, Vec.get_addScaled, hbefore, hafter]
    module
  refine ⟨⟨hp, hfound, hstep, hx⟩, fun hlong => ?_, fun hshort => ?_⟩
  · have hne : a.state.step.get ≠ 0 :=
      Vec.normSquared_pos_iff.mp ((zpow_pos two_pos _).trans hlong)
    obtain ⟨hsecant, hfresh⟩ := p.state.jacobian.update_secant
      (s.f.addScaled (-1) a.state.f).neg hlong
    rw [← hjacobian, hdf] at hsecant
    rw [← hjacobian] at hfresh
    exact ⟨fun B => ⟨fun hB => hB.eq hsecant hne, fun hB => hB ▸ hsecant⟩, hfresh⟩
  · rw [hjacobian, Jacobian.update_left_out _ _ hshort]
    exact ⟨rfl, rfl⟩

/-- Past the break the residual is half of what it was, and so is the slope afterwards. -/
theorem accepted_step_updates_broken :
    ∃ (s : State ℝ 1) (a : Attempt ℝ 1) (w w' : Nat) (p : Preparation ℝ 1) (t : Trial ℝ 1),
      s.Reachable (interrupted [] (broken 0.5)) (.accepting 1e-4) ∧
      (s.iterate (interrupted [] (broken 0.5)) (.accepting 1e-4)).run w = (a, w') ∧
      a.result = .ok (.tried p t) ∧ t.accepted = true ∧
      p.state.jacobian.matrix.entry 0 0 = -1 ∧ a.state.jacobian.matrix.entry 0 0 = -0.5 := by
  have hthreshold : (1e-4 : ℝ) ∈ Set.Ioo 0 1 := by norm_num
  obtain ⟨s, a, w, w', p, t, ⟨hs, hrun, hr, -, hratio, haccepted, -⟩, hx, hmatrix, hmove⟩ :=
    broken_iterates 0.5 hthreshold
  have htaken : t.accepted = true := by
    rw [haccepted, hratio]
    norm_num [abs_of_pos]
  obtain ⟨⟨-, -, hstep, hend⟩, hlong, -⟩ :=
    accepted_step_updates (interrupted_answers [] _) hs hrun hr htaken
  refine ⟨s, a, w, w', p, t, hs, hrun, hr, htaken, ?_, ?_⟩
  · rw [hmatrix]
    rfl
  rw [hx, hstep, hmove] at hend
  rw [hx, hend, hstep, hmove] at hlong
  have hone : (Vec.ones 1 : Vec ℝ 1).normSquared = 1 := by
    simp [Vec.normSquared_eq, dotProduct]
  obtain ⟨hupdate, -⟩ := hlong (by rw [hone]; exact zpow_lt_one_of_neg₀ one_lt_two (by norm_num))
  have hfirst : (Vec.zeros 1 : Vec ℝ 1).get 0 < 0.5 := by
    rw [Vec.get_zeros]
    norm_num
  have hpast : ¬ ((Vec.zeros 1 : Vec ℝ 1).addScaled 1 (Vec.ones 1)).get 0 < 0.5 := by
    rw [Vec.get_addScaled]
    norm_num
  have hsecant := congrFun ((hupdate _).mpr rfl).secant 0
  rw [if_pos hfirst, if_neg hpast, get_affine_descending, Vec.get_scale] at hsecant
  simp only [mulVec, dotProduct, Fin.sum_univ_one, Vec.get_ones, mul_one, Pi.sub_apply,
    Pi.smul_apply, smul_eq_mul, Pi.one_apply] at hsecant
  rw [← Mat.toMatrix_apply, hsecant]
  norm_num

end State

end RootFinder
