import RootFinder.Proofs.Exact.Descent
import RootFinder.Proofs.History

/-! Rejected steps and the radius. A rejected step whose gain ratio is below the shrink threshold
makes the trust region smaller, until its radius is the smallest one and the run gives up. If no
step with a larger ratio is rejected, the region stays smaller until a step is taken. Between the
two thresholds a step may be rejected and the region may grow. -/

namespace RootFinder

open Matrix

variable {σ : Type} {n : Nat}

namespace State

variable {c : Settings ℝ} {s : State ℝ n}

theorem boundedRadius_mem (hc : c.InRange) (hs : s.radius ∈ Set.Icc c.minRadius c.maxRadius)
    (stepNorm : ℝ) : s.boundedRadius c stepNorm ∈ Set.Icc c.minRadius s.radius := by
  unfold boundedRadius
  split_ifs with h
  · refine ⟨(clampRadius_mem hc _).1, ?_⟩
    rw [clampRadius, Scalar.real_clamp]
    exact (min_le_right _ _).trans (max_le h.2.le hs.1)
  · exact ⟨hs.1, le_rfl⟩

theorem judgedRadius_of_shrinks (hc : c.InRange) {radius ratio : ℝ}
    (hradius : radius ∈ Set.Icc c.minRadius c.maxRadius) (h : ratio < c.shrinkThreshold)
    (agreements : Nat) (stepNorm : ℝ) :
    (judgedRadius c agreements radius ratio stepNorm).1 =
      max (radius * c.shrinkFactor) c.minRadius := by
  have hless : radius * c.shrinkFactor ≤ radius :=
    mul_le_of_le_one_right (hc.minRadius.le.trans hradius.1) hc.shrinkFactor.2.le
  simp only [judgedRadius, if_pos h]
  rw [clampRadius, Scalar.real_clamp]
  exact min_eq_right (max_le (hless.trans hradius.2) hc.minRadius_le)

variable {sys : Equations (StateM σ) ℝ n} {u : State ℝ n} {w w' : σ} {a : Attempt ℝ n}
  {p : Preparation ℝ n} {t : Trial ℝ n} {q : State ℝ n}

theorem Judges.radius_lt_or_eq (hc : c.InRange) (hs : s.WellScaled c)
    (hj : Judges sys c s w p t q) (hratio : t.gain.ratio < c.shrinkThreshold) :
    (q.commit c t).radius < s.radius ∨ (q.commit c t).radius = c.minRadius := by
  have hbounded : t.radius ∈ Set.Icc c.minRadius s.radius := by
    rw [hj.judgement, ← hj.prepared.radius]
    refine boundedRadius_mem (s := p.tested t.step) hc ?_ _
    exact hj.prepared.radius ▸ hs.radius_mem
  have hpos : 0 < t.radius := hc.minRadius.trans_le hbounded.1
  rw [commit_radius, judgedRadius_of_shrinks hc
    ⟨hbounded.1, hbounded.2.trans hs.radius_mem.2⟩ hratio]
  rcases le_total (t.radius * c.shrinkFactor) c.minRadius with hmin | hmin
  · exact .inr (max_eq_right hmin)
  · rw [max_eq_left hmin]
    exact .inl ((mul_lt_of_lt_one_right hpos hc.shrinkFactor.2).trans_le hbounded.2)

/-- At the smallest radius a rejected step ends the run. -/
theorem commit_status_ne_running (hrejected : t.accepted = false)
    (hmin : (q.commit c t).radius ≤ c.minRadius) : (q.commit c t).status ≠ .running := by
  intro hrunning
  rw [commit_status] at hrunning
  obtain ⟨hfailed, hgoes⟩ := verdict_eq_running_iff.mp hrunning
  exact hgoes (verdict_eq_noProgress_iff.mpr ⟨hfailed, .inl ⟨hrejected, hmin⟩⟩)

theorem Judges.radius_lt_of_running (hc : c.InRange) (hs : s.WellScaled c)
    (hj : Judges sys c s w p t q) (hrejected : t.accepted = false)
    (hratio : t.gain.ratio < c.shrinkThreshold) (hrunning : (q.commit c t).status = .running) :
    (q.commit c t).radius < s.radius := by
  refine (hj.radius_lt_or_eq hc hs hratio).resolve_right fun hmin => ?_
  exact commit_status_ne_running hrejected hmin.le hrunning

theorem Judges.ratio_lt_of_rejected (haccept : c.acceptThreshold ≤ c.shrinkThreshold)
    (hj : Judges sys c s w p t q) (hrejected : t.accepted = false) :
    t.gain.ratio < c.shrinkThreshold := by
  rw [hj.judgement] at hrejected ⊢
  refine (not_le.mp fun hle => ?_).trans_le haccept
  rw [(Preparation.trial_accepted_iff _ _ _ _).mpr hle] at hrejected
  cases hrejected

/-- The run has smaller residuals than `s`, or the same ones and, if it goes on, a smaller
region. -/
def TighterThan (s u : State ℝ n) : Prop :=
  u.f.norm < s.f.norm ∨ u.f = s.f ∧ (u.status = .running → u.radius < s.radius)

theorem TighterThan.iterate (hc : c.Valid) (haccept : c.acceptThreshold ≤ c.shrinkThreshold)
    (hu : TighterThan s u) (hscaled : u.WellScaled c) (h : (u.iterate sys c).run w = (a, w')) :
    TighterThan s a.state := by
  have hrange := Settings.real_valid_iff.mp hc
  cases iterate_concludes h with
  | broke _ hplace =>
    unfold TighterThan at hu ⊢
    rw [hplace.f, hplace.status, hplace.radius]
    exact hu
  | settled _ _ hterminal _ hplace =>
    refine hu.imp (fun hlt => ?_) fun hsame => ⟨hplace.f.trans hsame.1, fun hrunning => ?_⟩
    · rw [hplace.f]
      exact hlt
    · exact absurd hrunning hterminal
  | @committed p t q hr hactive hj ha =>
    cases haccepted : t.accepted with
    | true =>
      have hlt := (takes_of_accepted hc h hr haccepted).norm_lt
      exact .inl (hu.elim hlt.trans fun hsame => hsame.1 ▸ hlt)
    | false =>
      have hf : a.state.f = u.f := by
        rw [ha, (commit_stays c q haccepted).2, hj.place.f, hj.prepared.f]
      refine hu.imp (fun hlt => ?_) fun hsame => ⟨hf.trans hsame.1, fun hrunning => ?_⟩
      · rw [hf]
        exact hlt
      · rw [ha] at hrunning ⊢
        exact (hj.radius_lt_of_running hrange hscaled haccepted
          (hj.ratio_lt_of_rejected haccept haccepted) hrunning).trans (hsame.2 hactive.running)

theorem TighterThan.continues (hc : c.Valid) (haccept : c.acceptThreshold ≤ c.shrinkThreshold)
    {b : State ℝ n} (hb : TighterThan s b) (hscaled : b.WellScaled c) (h : Continues sys c b u) :
    TighterThan s u ∧ u.WellScaled c := by
  induction h with
  | here => exact ⟨hb, hscaled⟩
  | iterate _ ha ih =>
    obtain ⟨htighter, hstill⟩ := ih
    exact ⟨htighter.iterate hc haccept hstill ha,
      iterate_wellScaled (Settings.real_valid_iff.mp hc) hstill ha⟩

/-- A step that is rejected with a ratio below the shrink threshold makes the radius smaller, or it
is the smallest one and the run is over. If all rejected steps are of this kind, the run does not
come back to a radius as large while the residuals stay the same. -/
theorem rejected_step_tightens (hs : s.Reachable sys c) (h : (s.iterate sys c).run w = (a, w'))
    (hr : a.result = .ok (.tried p t)) (hrejected : t.accepted = false) :
    (a.state.x = s.x ∧ a.state.f = s.f) ∧
    (a.state.radius = c.minRadius → a.state.status ≠ .running) ∧
    (t.gain.ratio < c.shrinkThreshold →
      (a.state.radius < s.radius ∨ a.state.radius = c.minRadius) ∧
        (a.state.status = .running → a.state.radius < s.radius)) ∧
    (c.acceptThreshold ≤ c.shrinkThreshold → t.gain.ratio < c.shrinkThreshold ∧
      ∀ u, Continues sys c a.state u → u.f = s.f → u.status = .running → u.radius < s.radius) := by
  have hrange := Settings.real_valid_iff.mp hs.valid
  obtain ⟨q, hj, ha⟩ := judges_of_tried h hr
  obtain ⟨hx, hf⟩ := commit_stays c q hrejected
  have hsame : a.state.x = s.x ∧ a.state.f = s.f := by
    rw [ha, hx, hf, hj.place.f, hj.prepared.f]
    exact ⟨hj.x_eq, rfl⟩
  have hradius (hratio : t.gain.ratio < c.shrinkThreshold) :
      (a.state.radius < s.radius ∨ a.state.radius = c.minRadius) ∧
        (a.state.status = .running → a.state.radius < s.radius) := by
    rw [ha]
    exact ⟨hj.radius_lt_or_eq hrange hs.wellScaled hratio,
      hj.radius_lt_of_running hrange hs.wellScaled hrejected hratio⟩
  refine ⟨hsame, fun hmin => ?_, hradius, fun haccept => ?_⟩
  · rw [ha] at hmin ⊢
    exact commit_status_ne_running hrejected hmin.le
  have hratio := hj.ratio_lt_of_rejected haccept hrejected
  refine ⟨hratio, fun u hu hresiduals hrunning => ?_⟩
  have htighter : TighterThan s a.state := .inr ⟨hsame.2, (hradius hratio).2⟩
  rcases (htighter.continues hs.valid haccept (hs.iterate h).wellScaled hu).1 with hlt | hless
  · rw [hresiduals] at hlt
    exact absurd hlt (lt_irrefl _)
  · exact hless.2 hrunning

end State

def descending : Mat ℝ 1 :=
  Vector.mk #[Vector.mk #[-1] rfl] rfl

theorem descending_mulVec (v : Fin 1 → ℝ) : descending.toMatrix *ᵥ v = -v := by
  funext i
  fin_cases i
  simp only [mulVec, dotProduct, Fin.sum_univ_one]
  exact neg_one_mul (v 0)

theorem descending_condition : Settings.exact.singularTolerance < descending.condition := by
  refine (Mat.condition_pos_iff one_ne_zero).mpr fun v hv => ?_
  rwa [descending_mulVec, neg_eq_zero] at hv

/-- A line that falls from one, broken off halfway to its root. -/
noncomputable def broken (rest : ℝ) (x : Vec ℝ 1) : Except EvalError (Vec ℝ 1) :=
  .ok (if x.get 0 < 0.5 then affine descending (Vec.ones 1) x else (Vec.ones 1).scale rest)

/-- The first Newton step fits exactly into the region. -/
noncomputable def Settings.accepting (threshold : ℝ) : Settings ℝ :=
  { exact with scaled := false, initialRadius := .fixed 1, acceptThreshold := threshold }

theorem Settings.accepting_valid {threshold : ℝ} (h : threshold ∈ Set.Ioo 0 1) :
    (accepting threshold).Valid := by
  rw [real_valid_iff]
  constructor <;> first | exact h | norm_num [accepting, exact]

theorem broken_of_lt (rest : ℝ) {x : Vec ℝ 1} (h : x.get 0 < 0.5) :
    broken rest x = .ok (affine descending (Vec.ones 1) x) := by
  rw [broken, if_pos h]

theorem get_affine_descending : (affine descending (Vec.ones 1) (Vec.zeros 1)).get = 1 := by
  have hzeros : (Vec.zeros 1 : Vec ℝ 1).get = 0 := funext Vec.get_zeros
  rw [get_affine, hzeros, mulVec_zero, zero_add]
  exact funext Vec.get_ones

theorem Vec.norm_of_get_one {v : Vec ℝ 1} {c : ℝ} (h : v.get = fun _ => c) : v.norm = |c| := by
  rw [norm, normSquared_eq, h]
  simp [dotProduct, Real.sqrt_mul_self_eq_abs]

/-- From one the model falls to zero, and the system to the rest. -/
theorem Gain.ratio_of_broken {f step value : Vec ℝ 1} {rest : ℝ} (hf : f.get = 1)
    (hstep : step.get = 1) (hvalue : value.get = fun _ => rest) :
    (ofTrial descending f step value).ratio = if |rest| < 1 then 1 - rest ^ 2 else -1 := by
  have hone : f.norm = 1 := (Vec.norm_of_get_one (c := 1) hf).trans abs_one
  have hmodel : (Step.model descending f step).norm = 0 := by
    rw [Vec.norm_eq_zero_iff, Step.get_model, descending_mulVec, hstep, hf, neg_add_cancel]
  rw [real_ratio, real_predicted, real_actual, hmodel, hone, Vec.norm_of_get_one hvalue]
  simp [reduction]

namespace State

section

variable (rest : ℝ) {threshold : ℝ} (h : threshold ∈ Set.Ioo 0 1)
include h

theorem broken_starts :
    ∃ s w, (create (interrupted [] (broken rest)) (.accepting threshold)
        (Vec.zeros 1).toList).run 0 = (.ok s, w) ∧
      Tracks descending (Vec.ones 1) (.accepting threshold) s ∧ s.x = Vec.zeros 1 ∧
      s.scaling = Vec.ones 1 ∧ s.radius = 1 ∧ s.jacobian.fresh = true ∧ s.agreements = 0 := by
  have hc := Settings.accepting_valid h
  have hrange := Settings.real_valid_iff.mp hc
  have hstart := broken_of_lt rest (x := Vec.zeros 1) (by rw [Vec.get_zeros]; norm_num)
  obtain ⟨J, w, hrun, hcolumns⟩ := start_succeeds (interrupted_isPure (broken rest))
    (c := .accepting threshold) hstart (Vec.real_isFinite _) (fun j => ⟨_, rfl⟩) 0
  have hJ : J = descending := by
    refine Mat.ext_column fun j => ?_
    have hincrement := Jacobian.real_increment_pos hrange.differenceStep ((Vec.zeros 1).get j)
    have hnear : (Jacobian.neighbour (Settings.accepting threshold).differenceStep
        (Vec.zeros 1) j).get 0 < 0.5 := by
      rw [Jacobian.neighbour, Vec.get_setAt_add]
      fin_cases j
      norm_num [Jacobian.increment, Settings.accepting, Settings.exact]
    rw [hcolumns j _ (broken_of_lt rest hnear), Jacobian.neighbour,
      Jacobian.slopes_affine hincrement.ne']
  subst hJ
  rw [create_eq_start _ hc one_ne_zero]
  refine ⟨_, w, hrun, initial_tracks hrange _ _ _, rfl, rfl, ?_, rfl, rfl⟩
  change clampRadius (.accepting threshold) 1 = 1
  rw [clampRadius, Scalar.real_clamp]
  norm_num [Settings.accepting, Settings.exact]

/-- The first step leads past the break. -/
theorem broken_iterates :
    ∃ (s : State ℝ 1) (a : Attempt ℝ 1) (w w' : Nat) (p : Preparation ℝ 1) (t : Trial ℝ 1),
      (s.Reachable (interrupted [] (broken rest)) (.accepting threshold) ∧
        (s.iterate (interrupted [] (broken rest)) (.accepting threshold)).run w = (a, w') ∧
        a.result = .ok (.tried p t) ∧ s.radius = 1 ∧
        t.gain.ratio = (if |rest| < 1 then 1 - rest ^ 2 else -1) ∧
        t.accepted = decide (threshold ≤ t.gain.ratio) ∧
        a.state.radius = (judgedRadius (.accepting threshold) 0 1 t.gain.ratio 1).1) ∧
      s.x = Vec.zeros 1 ∧ p.state.jacobian.matrix = descending ∧
        t.step.move = Vec.ones 1 := by
  have hrange := Settings.real_valid_iff.mp (Settings.accepting_valid h)
  obtain ⟨s, w, hcreate, htracks, hx, hscaling, hradius, hfresh, hagreements⟩ :=
    broken_starts rest h
  obtain ⟨hrunning, hnone, -⟩ := create_running hcreate
  have hf : s.f.get = 1 := by rw [htracks.residuals, hx, get_affine_descending]
  have hactive : s.Active (.accepting threshold) := by
    refine ⟨hrunning, ?_, ?_⟩
    · rw [hnone]
      exact Nat.succ_pos 999
    · rw [Vec.norm_of_get_one (c := 1) hf]
      simp
  obtain ⟨hkept, hdetermined, -⟩ := htracks.exists_step hrange descending_condition hactive
  have hlength : (Vec.ones 1 : Vec ℝ 1).scaledNorm s.scaling = 1 := by
    rw [hscaling, Vec.scaledNorm, Vec.scaledNormSquared_eq]
    simp [dotProduct]
  have hstep : (s.preparedAsIs (.accepting threshold)).step? = some ⟨.newtonFits, Vec.ones 1⟩ := by
    refine Step.choose?_newton (by rw [preparedAsIs, htracks.factored_eq descending_condition])
      (htracks.nonsingular hrange descending_condition) ?_ (hlength.trans hradius.symm).le
    rw [preparedAsIs, htracks.matrix, descending_mulVec, hf]
    exact congrArg Neg.neg (funext Vec.get_ones)
  have hvalue : broken rest (s.x.addScaled 1 (Vec.ones 1)) = .ok ((Vec.ones 1).scale rest) := by
    rw [broken, if_neg]
    rw [hx, Vec.get_addScaled]
    norm_num
  obtain ⟨v, hcall⟩ := (interrupted_isPure (broken rest)).run hvalue w
  have hrefreshed : ((s.preparedAsIs (.accepting threshold)).trial (.accepting threshold)
      ⟨.newtonFits, Vec.ones 1⟩ ((Vec.ones 1).scale rest)).refreshed = false := by
    refine Bool.eq_false_iff.mpr fun hrefreshed => ?_
    exact Bool.false_ne_true ((updated_of_refreshed hrefreshed).symm.trans hfresh)
  have hbounded : s.boundedRadius (.accepting threshold) 1 = 1 := by
    rw [boundedRadius, hradius, if_neg (fun hless => lt_irrefl _ hless.2)]
  have hiterate := (Iterates.tried hactive (Prepares.asIs hkept).run hdetermined hstep
    (Tries.judged hcall hrefreshed).run).run
  refine ⟨s, _, w, _, _, _, ⟨.create hcreate, hiterate, rfl, hradius, ?_, rfl, ?_⟩, hx,
    htracks.matrix, rfl⟩
  · rw [Preparation.trial_gain]
    change (Gain.ofTrial s.jacobian.matrix s.f (Vec.ones 1) ((Vec.ones 1).scale rest)).ratio = _
    rw [htracks.matrix]
    refine Gain.ratio_of_broken hf (funext Vec.get_ones) ?_
    rw [Vec.get_scale]
    exact funext fun i => (congrArg (rest * ·) (Vec.get_ones i)).trans (mul_one rest)
  · rw [commit_radius]
    change (judgedRadius _ s.agreements (s.boundedRadius _ ((Vec.ones 1).scaledNorm s.scaling)) _
      ((Vec.ones 1).scaledNorm s.scaling)).1 = _
    rw [hlength, hbounded, hagreements]

theorem broken_tried :
    ∃ (s : State ℝ 1) (a : Attempt ℝ 1) (w w' : Nat) (p : Preparation ℝ 1) (t : Trial ℝ 1),
      s.Reachable (interrupted [] (broken rest)) (.accepting threshold) ∧
      (s.iterate (interrupted [] (broken rest)) (.accepting threshold)).run w = (a, w') ∧
      a.result = .ok (.tried p t) ∧ s.radius = 1 ∧
      t.gain.ratio = (if |rest| < 1 then 1 - rest ^ 2 else -1) ∧
      t.accepted = decide (threshold ≤ t.gain.ratio) ∧
      a.state.radius = (judgedRadius (.accepting threshold) 0 1 t.gain.ratio 1).1 := by
  obtain ⟨s, a, w, w', p, t, htried, -⟩ := broken_iterates rest h
  exact ⟨s, a, w, w', p, t, htried⟩

end

/-- Past the break the residual is larger than before. -/
theorem rejected_step_tightens_broken :
    ∃ (s : State ℝ 1) (a : Attempt ℝ 1) (w w' : Nat) (p : Preparation ℝ 1) (t : Trial ℝ 1),
      s.Reachable (interrupted [] (broken 2)) (.accepting 1e-4) ∧
      (s.iterate (interrupted [] (broken 2)) (.accepting 1e-4)).run w = (a, w') ∧
      a.result = .ok (.tried p t) ∧ t.accepted = false ∧ a.state.x = s.x ∧
      (a.state.radius < s.radius ∨ a.state.radius = (Settings.accepting 1e-4).minRadius) ∧
      (a.state.radius = (Settings.accepting 1e-4).minRadius → a.state.status ≠ .running) ∧
      ∀ u, Continues (interrupted [] (broken 2)) (.accepting 1e-4) a.state u → u.f = s.f →
        u.status = .running → u.radius < s.radius := by
  obtain ⟨s, a, w, w', p, t, hs, hrun, hr, -, hratio, haccepted, -⟩ :=
    broken_tried 2 (show (1e-4 : ℝ) ∈ Set.Ioo 0 1 by norm_num)
  have hrejected : t.accepted = false := by
    rw [haccepted, hratio]
    norm_num
  obtain ⟨⟨hx, -⟩, hends, hradius, hstays⟩ := rejected_step_tightens hs hrun hr hrejected
  obtain ⟨hshrinks, hrest⟩ := hstays (by norm_num [Settings.accepting, Settings.exact])
  exact ⟨s, a, w, w', p, t, hs, hrun, hr, hrejected, hx, (hradius hshrinks).1, hends, hrest⟩

/-- Past the break the residual is half of what it was. That is less than it takes to be accepted
here, but enough for a larger region. -/
theorem rejected_step_may_widen :
    ∃ (s : State ℝ 1) (a : Attempt ℝ 1) (w w' : Nat) (p : Preparation ℝ 1) (t : Trial ℝ 1),
      s.Reachable (interrupted [] (broken 0.5)) (.accepting 0.9) ∧
      (s.iterate (interrupted [] (broken 0.5)) (.accepting 0.9)).run w = (a, w') ∧
      a.result = .ok (.tried p t) ∧ t.accepted = false ∧ s.radius < a.state.radius ∧
      (Settings.accepting 0.9).minRadius < a.state.radius := by
  obtain ⟨s, a, w, w', p, t, hs, hrun, hr, hone, hratio, haccepted, hradius⟩ :=
    broken_tried 0.5 (show (0.9 : ℝ) ∈ Set.Ioo 0 1 by norm_num)
  have hthreeQuarters : t.gain.ratio = 3 / 4 := by
    rw [hratio]
    norm_num [abs_of_pos]
  have htwo : a.state.radius = 2 := by
    rw [hradius, hthreeQuarters]
    simp only [judgedRadius, clampRadius, Scalar.real_clamp, Scalar.real_maxNum, Scalar.real_abs]
    norm_num [Settings.accepting, Settings.exact, abs_of_neg]
  refine ⟨s, a, w, w', p, t, hs, hrun, hr, ?_, ?_, ?_⟩
  · rw [haccepted, hthreeQuarters]
    norm_num
  · rw [hone, htwo]
    norm_num
  · rw [htwo]
    norm_num [Settings.accepting, Settings.exact]

end State

end RootFinder
