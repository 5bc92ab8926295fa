import RootFinder.Proofs.Exact.Affine

/-! Descent. An accepted step makes the residuals smaller by a part of the reduction that the model
predicted, since the gain ratio compares just these two; nothing but an accepted step changes the
point or the residuals. So their norm never grows while a run goes on. -/

namespace RootFinder

variable {σ : Type} {n : Nat}

namespace State

/-- The iteration took the step `t`, found with the Jacobian of the preparation `p`, and the
residuals became smaller by the part of the predicted reduction that it takes to be accepted. -/
structure Takes (sys : Equations (StateM σ) ℝ n) (c : Settings ℝ) (s : State ℝ n) (w : σ)
    (p : Preparation ℝ n) (t : Trial ℝ n) (s' : State ℝ n) : Prop where
  evaluates : ∃ v, Evaluates sys c s w p t.step t.value v
  place : SamePlace s p.state
  step : s'.step = t.step.move
  point : s'.x.get = s.x.get + t.step.move.get
  residuals : s'.f = t.value
  predicted : t.gain.predicted =
    1 - ((Step.model p.state.jacobian.matrix s.f t.step.move).norm / s.f.norm) ^ 2
  falls : s'.f.norm ^ 2 ≤ (1 - c.acceptThreshold * t.gain.predicted) * s.f.norm ^ 2
  promise : (1 - c.acceptThreshold * t.gain.predicted) * s.f.norm ^ 2 < s.f.norm ^ 2

variable {sys : Equations (StateM σ) ℝ n} {c : Settings ℝ} {s : State ℝ n} {w w' : σ}
  {a : Attempt ℝ n}

theorem Takes.norm_lt {p : Preparation ℝ n} {t : Trial ℝ n} {s' : State ℝ n}
    (h : Takes sys c s w p t s') : s'.f.norm < s.f.norm :=
  lt_of_pow_lt_pow_left₀ 2 (Vec.norm_nonneg _) (h.falls.trans_lt h.promise)

theorem takes_of_accepted (hc : c.Valid) {p : Preparation ℝ n} {t : Trial ℝ n}
    (h : (s.iterate sys c).run w = (a, w')) (hr : a.result = .ok (.tried p t))
    (haccepted : t.accepted = true) : Takes sys c s w p t a.state := by
  obtain ⟨q, hjudges, hstate⟩ := judges_of_tried h hr
  have hratio : c.acceptThreshold ≤ t.gain.ratio := by
    have hjudgement := hjudges.judgement
    rw [hjudgement] at haccepted ⊢
    exact (Preparation.trial_accepted_iff _ _ _ _).mp haccepted
  have hgain : t.gain = Gain.ofTrial p.state.jacobian.matrix s.f t.step.move t.value := by
    rw [← hjudges.prepared.f]
    exact (congrArg Trial.gain hjudges.judgement).trans (Preparation.trial_gain _ _ _ _)
  rw [hgain] at hratio
  obtain ⟨hmodel, -⟩ := Gain.norm_lt_of_ratio_pos (hc.acceptThreshold_pos.trans_le hratio)
  obtain ⟨hpredicted, -⟩ := Gain.predicted_of_model_lt t.value hmodel
  obtain ⟨hfalls, hpromise⟩ := Gain.norm_sq_le_of_le_ratio hc.acceptThreshold_pos hratio
  have hf : a.state.f = t.value := by rw [hstate, commit_f, if_pos haccepted]
  refine ⟨hjudges.evaluates, hjudges.prepared, ?_, ?_, hf, ?_, ?_, ?_⟩
  · rw [hstate, commit_step, hjudges.step]
  · rw [hstate, commit_x, if_pos haccepted, hjudges.x_eq, hjudges.step, Vec.get_addScaled,
      one_smul]
  · rw [hgain, hpredicted, reduction]
  · rw [hf, hgain, hpredicted]
    exact hfalls
  · rw [hgain, hpredicted]
    exact hpromise

theorem iterate_norm_le (hc : c.Valid) (h : (s.iterate sys c).run w = (a, w')) :
    a.state.f.norm ≤ s.f.norm := by
  rcases iterate_stays_or_accepts h with ⟨-, hf⟩ | ⟨p, t, hr, haccepted⟩
  · rw [hf]
  · exact (takes_of_accepted hc h hr haccepted).norm_lt.le

theorem Continues.norm_le {t : State ℝ n} (hc : c.Valid) (h : Continues sys c s t) :
    t.f.norm ≤ s.f.norm := by
  induction h with
  | here => exact le_rfl
  | iterate _ ha ih => exact (iterate_norm_le hc ha).trans ih

/-- The norm of the residuals never grows between two starts. Only an accepted step changes the
point or the residuals, and it makes them smaller by as much as it takes to be accepted. -/
theorem Reachable.descends (hs : s.Reachable sys c) :
    (∀ w a w', (s.iterate sys c).run w = (a, w') →
      a.state.f.norm ≤ s.f.norm ∧
      ((a.state.x = s.x ∧ a.state.f = s.f) ∨
        ∃ p t, a.result = .ok (.tried p t) ∧ t.accepted = true) ∧
      ∀ p t, a.result = .ok (.tried p t) → t.accepted = true → Takes sys c s w p t a.state) ∧
    ∀ t, Continues sys c s t → t.f.norm ≤ s.f.norm := by
  refine ⟨?_, fun t ht => ht.norm_le hs.valid⟩
  intro w a w' h
  refine ⟨iterate_norm_le hs.valid h, iterate_stays_or_accepts h, ?_⟩
  intro p t hr haccepted
  exact takes_of_accepted hs.valid h hr haccepted

theorem Reachable.descends_slanted :
    ∃ s a w w' p t, s.Reachable slanted .exact ∧ (s.iterate slanted .exact).run w = (a, w') ∧
      Takes slanted .exact s w p t a.state := by
  obtain ⟨d, w, hcreate, htracks⟩ :=
    create_tracks slanted_isPure Settings.exact_valid two_ne_zero (Vec.zeros 2) 0
  have hs := Reachable.create hcreate
  obtain ⟨s', t, w', h, -, hfollows, -⟩ := htracks.iterate_active slanted_isPure
    (Settings.real_valid_iff.mp Settings.exact_valid) sheared_condition
    (slanted_active rfl rfl ⟨rfl, rfl⟩) w
  obtain ⟨hiterate, -⟩ := Reachable.descends hs
  obtain ⟨-, -, htakes⟩ := hiterate _ _ _ h
  exact ⟨_, _, _, _, _, t, hs, h, htakes _ t rfl hfollows.accepted⟩

end State

end RootFinder
