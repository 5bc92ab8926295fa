import RootFinder.Proofs.Exact.Gain
import RootFinder.Proofs.Judgement

/-! Valid settings of real numbers, and the trust region they lead to. In every state of a run the
units are positive and the radius lies between its bounds, so a step is found for every Jacobian
that is not refused, and the model promises smaller residuals after it. -/

namespace RootFinder

variable {σ : Type} {n : Nat}

@[simp]
def InitialRadius.IsPositive : InitialRadius ℝ → Prop
  | .estimated factor => 0 < factor
  | .fixed radius => 0 < radius

namespace Settings

structure InRange (c : Settings ℝ) : Prop where
  tolerance : 0 ≤ c.tolerance
  stepToleranceAbs : 0 ≤ c.stepToleranceAbs
  stepToleranceRel : 0 ≤ c.stepToleranceRel
  minRadius : 0 < c.minRadius
  minRadius_le : c.minRadius ≤ c.maxRadius
  initialRadius : c.initialRadius.IsPositive
  acceptThreshold : c.acceptThreshold ∈ Set.Ioo 0 1
  shrinkThreshold : c.shrinkThreshold ∈ Set.Ioo 0 1
  expandThreshold : c.expandThreshold ∈ Set.Ico c.shrinkThreshold 1
  shrinkFactor : c.shrinkFactor ∈ Set.Ioo 0 1
  expandFactor : 1 < c.expandFactor
  refreshLimit : 1 ≤ c.refreshLimit
  slowLimit : 1 ≤ c.slowLimit
  differenceStep : 0 < c.differenceStep
  singularTolerance : c.singularTolerance ∈ Set.Ico 0 1

theorem real_valid_iff {c : Settings ℝ} : c.Valid ↔ c.InRange := by
  simp only [valid_iff, requirements, List.forall_mem_cons, List.not_mem_nil, IsEmpty.forall_iff,
    implies_true, and_true, Scalar.real_isPositive, Scalar.real_isNonNegative,
    Scalar.real_isFinite, Bool.and_eq_true, decide_eq_true_iff, true_and]
  constructor
  · rintro ⟨htol, ⟨habs, hrel⟩, hmin, ⟨-, hmax⟩, hradius, haccept, hshrink, hexpand, hfactor,
      hgrow, hrefresh, hslow, hstep, hsingular⟩
    have hinitial : c.initialRadius.IsPositive := by
      cases hi : c.initialRadius <;> simpa [hi] using hradius
    exact ⟨htol, habs, hrel, hmin, hmax, hinitial, haccept, hshrink, hexpand, hfactor, hgrow,
      hrefresh, hslow, hstep, hsingular⟩
  · intro h
    have hinitial := h.initialRadius
    refine ⟨h.tolerance, ⟨h.stepToleranceAbs, h.stepToleranceRel⟩, h.minRadius,
      ⟨h.minRadius.trans_le h.minRadius_le, h.minRadius_le⟩, ?_, h.acceptThreshold,
      h.shrinkThreshold, h.expandThreshold, h.shrinkFactor, h.expandFactor, h.refreshLimit,
      h.slowLimit, h.differenceStep, h.singularTolerance⟩
    cases hi : c.initialRadius <;> simpa [hi] using hinitial

/-- Choices close to the usual ones. Every matrix that takes only zero to zero counts as
regular. -/
noncomputable def exact : Settings ℝ where
  tolerance := 1e-7
  maxIterations := 1000
  stepToleranceAbs := 0
  stepToleranceRel := 0
  scaled := true
  initialRadius := .estimated 100
  minRadius := 1.5e-8
  maxRadius := 1e10
  shrinkThreshold := 0.1
  expandThreshold := 0.5
  acceptThreshold := 1e-4
  shrinkFactor := 0.5
  expandFactor := 2.0
  refreshLimit := 1
  slowLimit := 10
  differenceStep := 1.5e-8
  singularTolerance := 0

theorem exact_valid : exact.Valid := by
  rw [real_valid_iff]
  constructor <;> norm_num [exact]

end Settings

namespace State

variable {c : Settings ℝ}

theorem clampRadius_mem (hc : c.InRange) (radius : ℝ) :
    clampRadius c radius ∈ Set.Icc c.minRadius c.maxRadius := by
  rw [clampRadius, Scalar.real_clamp]
  exact ⟨le_min hc.minRadius_le (le_max_right _ _), min_le_left _ _⟩

theorem judgedRadius_mem (hc : c.InRange) (agreements : Nat) (radius ratio stepNorm : ℝ) :
    (judgedRadius c agreements radius ratio stepNorm).1 ∈ Set.Icc c.minRadius c.maxRadius := by
  unfold judgedRadius
  split_ifs <;> exact clampRadius_mem hc _

theorem firstScaling_pos (c : Settings ℝ) (a : Mat ℝ n) (i : Fin n) :
    0 < (firstScaling c a).get i := by
  unfold firstScaling
  split_ifs with hscaled
  · have hlength := Vec.norm_nonneg (a.column i)
    rw [Vec.get_map, Mat.columnNorms, Vec.get_ofFn]
    split_ifs with hzero
    · exact one_pos
    · exact lt_of_le_of_ne hlength (Ne.symm (by simpa using hzero))
  · exact Vec.get_ones_pos i

theorem get_grownScaling (c : Settings ℝ) (scaling : Vec ℝ n) (a : Mat ℝ n) (i : Fin n) :
    (grownScaling c scaling a).get i =
      if c.scaled then max (scaling.get i) (a.column i).norm else scaling.get i := by
  unfold grownScaling
  split_ifs with hscaled
  · change (Vector.zipWith Scalar.maxNum scaling a.columnNorms)[i.val] = _
    rw [Vector.getElem_zipWith, Scalar.real_maxNum]
    exact congrArg (max _) (Vec.get_ofFn _ i)
  · rfl

theorem le_grownScaling (c : Settings ℝ) (scaling : Vec ℝ n) (a : Mat ℝ n) (i : Fin n) :
    scaling.get i ≤ (grownScaling c scaling a).get i := by
  rw [get_grownScaling]
  split_ifs
  · exact le_max_left _ _
  · exact le_rfl

/-- The units of the region are positive, and its radius is between the bounds. -/
structure WellScaled (c : Settings ℝ) (s : State ℝ n) : Prop where
  scaling_pos : ∀ i, 0 < s.scaling.get i
  radius_mem : s.radius ∈ Set.Icc c.minRadius c.maxRadius

variable {sys : Equations (StateM σ) ℝ n} {s : State ℝ n} {w w' : σ}

theorem initial_wellScaled (hc : c.InRange) (x f : Vec ℝ n) (d : Differencing ℝ n) :
    WellScaled c (initial c x f d) :=
  ⟨firstScaling_pos c _, clampRadius_mem hc _⟩

theorem refresh_wellScaled {r : State ℝ n} (hs : s.WellScaled c)
    (h : (s.refresh sys c).run w = (.ok r, w')) : r.WellScaled c := by
  obtain ⟨d, -, -, rfl⟩ := refresh_eq_ok h
  exact ⟨fun i => (hs.scaling_pos i).trans_le (le_grownScaling c _ _ i), hs.radius_mem⟩

theorem commit_wellScaled (hc : c.InRange) (hs : s.WellScaled c) (t : Trial ℝ n) :
    (s.commit c t).WellScaled c := by
  constructor
  · intro i
    rw [commit_scaling]
    split_ifs
    · exact (hs.scaling_pos i).trans_le (le_grownScaling c _ _ i)
    · exact hs.scaling_pos i
  · rw [commit_radius]
    exact judgedRadius_mem hc _ _ _ _

theorem tryStep_wellScaled (hc : c.InRange) {p : Preparation ℝ n} {step : Step ℝ n}
    {a : Attempt ℝ n} (hp : p.state.WellScaled c)
    (h : (tryStep sys c p step).run w = (a, w')) : a.state.WellScaled c := by
  have htested : (p.tested step).WellScaled c := ⟨hp.scaling_pos, hp.radius_mem⟩
  cases tryStep_tries h with
  | failed => exact ⟨hp.scaling_pos, hp.radius_mem⟩
  | unrefreshed => exact htested
  | judged => exact commit_wellScaled hc htested _
  | refreshed _ _ hf => exact commit_wellScaled hc (refresh_wellScaled htested hf) _

theorem start_wellScaled (hc : c.InRange) {point : List ℝ}
    (h : (start sys c point).run w = (.ok s, w')) : s.WellScaled c := by
  obtain ⟨x, f, d, v, -, -, -, -, -, rfl⟩ := start_eq_ok h
  exact initial_wellScaled hc x f d

theorem prepare_wellScaled {p : Preparation ℝ n} (hs : s.WellScaled c)
    (h : (s.prepare sys c).run w = (.ok p, w')) : p.state.WellScaled c := by
  cases prepare_prepares h with
  | asIs => exact hs
  | anew _ hr => exact refresh_wellScaled hs hr

theorem iterate_wellScaled (hc : c.InRange) {a : Attempt ℝ n} (hs : s.WellScaled c)
    (h : (s.iterate sys c).run w = (a, w')) : a.state.WellScaled c :=
  iterate_keeps h hs (fun _ _ _ hr => refresh_wellScaled hs hr)
    (fun _ _ ht => ⟨ht.scaling_pos, ht.radius_mem⟩)
    (fun _ _ _ _ _ hp _ _ ht => tryStep_wellScaled hc hp ht)

theorem Reachable.wellScaled (h : s.Reachable sys c) : s.WellScaled c := by
  have hc := Settings.real_valid_iff.mp h.valid
  exact h.invariant (fun _ _ _ _ hstart => start_wellScaled hc hstart)
    (fun _ _ _ _ hs hiterate => iterate_wellScaled hc hs hiterate)

theorem Active.get_f_ne_zero (hs : s.Active c) : s.f.get ≠ 0 := by
  have hnorm : s.f.norm ≠ 0 := by simpa using hs.notAtRoot
  exact fun hzero => hnorm (Vec.norm_eq_zero_iff.mpr hzero)

/-- The model promises smaller residuals after every step that is tried. -/
theorem Evaluates.model_lt (hc : c.InRange) (hs : s.WellScaled c) {p : Preparation ℝ n}
    {step : Step ℝ n} {value : Vec ℝ n} {v : σ} (h : Evaluates sys c s w p step value v) :
    (Step.model p.state.jacobian.matrix p.state.f step.move).norm < p.state.f.norm := by
  obtain ⟨hactive, -, hstep, u, hp, -⟩ := h
  obtain ⟨hrefusal, hfactors⟩ := factored_of_step? hp hstep
  obtain ⟨hscaling, hradius⟩ := prepare_wellScaled hs hp
  have hJ := LinearSolver.nonsingular_of_not_refused hc.singularTolerance.1 hrefusal
  have hf : p.state.f.get ≠ 0 := (hactive.of_samePlace (prepare_samePlace hp)).get_f_ne_zero
  obtain ⟨step', hstep', hlt⟩ := Step.exists_choose?_lt hfactors hJ hf hscaling
    (hc.minRadius.trans_le hradius.1)
  have hsame : step' = step := Option.some.inj (hstep'.symm.trans hstep)
  rw [hsame] at hlt
  exact Vec.norm_lt_norm_iff.mpr hlt

end State

end RootFinder
