import RootFinder.Proofs.Exact.Region
import RootFinder.Proofs.Differencing

/-! Affine systems. Differences of an affine system are its matrix, secant updates find nothing to
correct, and the linear model is the system itself. So a run keeps the matrix, each step does
exactly what was predicted, and a Newton step that fits into the region ends at the root. -/

namespace RootFinder

open Matrix

variable {σ : Type} {n : Nat}

def affine {α : Type} [Scalar α] (A : Mat α n) (b x : Vec α n) : Vec α n :=
  (A.mulVec x).addScaled 1 b

variable {A : Mat ℝ n} {b x : Vec ℝ n}

theorem get_affine (A : Mat ℝ n) (b x : Vec ℝ n) :
    (affine A b x).get = A.toMatrix *ᵥ x.get + b.get := by
  rw [affine, Vec.get_addScaled, Mat.get_mulVec, one_smul]

/-- The linear model of an affine system is the system. -/
theorem affine_addScaled (A : Mat ℝ n) (b x move : Vec ℝ n) :
    affine A b (x.addScaled 1 move) = Step.model A (affine A b x) move := by
  refine Vec.ext_get fun i => congrFun ?_ i
  rw [Step.get_model, get_affine, get_affine, Vec.get_addScaled, one_smul, mulVec_add]
  abel

theorem Vec.get_setAt_add (x : Vec ℝ n) (j : Fin n) (h : ℝ) :
    (x.setAt j (x.get j + h)).get = x.get + Pi.single j h := by
  funext i
  rw [setAt, get_ofFn, Pi.add_apply, Pi.single_apply]
  by_cases hij : i = j
  · subst hij
    simp
  · simp [hij]

namespace Jacobian

theorem real_increment_pos {relative : ℝ} (hr : 0 < relative) (c : ℝ) :
    0 < increment relative c := by
  have hone : 1 ≤ max |c| 1 := le_max_right _ _
  rw [increment, Scalar.real_maxNum, Scalar.real_abs, add_sub_cancel_left]
  positivity

/-- Differences of an affine system are exact, at any distance. -/
theorem slopes_affine {h : ℝ} (hh : h ≠ 0) (j : Fin n) :
    slopes h (affine A b x) (affine A b (x.setAt j (x.get j + h))) = A.column j := by
  refine Vec.ext_get fun i => ?_
  rw [slopes, Vec.get_ofFn, get_affine, get_affine, Vec.get_setAt_add, mulVec_add, Mat.get_column]
  simp [hh]

/-- An update that predicts the change of the residuals leaves the matrix as it is. -/
theorem update_matrix {jac : Jacobian ℝ n} {step df : Vec ℝ n}
    (h : df.get = jac.matrix.toMatrix *ᵥ step.get) :
    (jac.update step df).matrix = jac.matrix := by
  have hdefect (i : Fin n) : (secantDefect jac.matrix step df).get i = 0 := by
    rw [secantDefect, Vec.get_ofFn, h, Mat.get_mulVec, sub_self]
  unfold update
  split_ifs
  · rfl
  · refine Mat.ext_entry fun i j => ?_
    simp [Mat.addRankOne, hdefect]

end Jacobian

namespace State

variable {c : Settings ℝ} {s : State ℝ n}

theorem grownScaling_firstScaling (c : Settings ℝ) (a : Mat ℝ n) :
    grownScaling c (firstScaling c a) a = firstScaling c a := by
  refine Vec.ext_get fun i => ?_
  rw [get_grownScaling]
  split_ifs with hscaled
  · have hlength := Vec.norm_nonneg (a.column i)
    rw [firstScaling, if_pos hscaled, Vec.get_map, Mat.columnNorms, Vec.get_ofFn]
    split_ifs with hzero
    · have hzero' : (a.column i).norm = 0 := by simpa using hzero
      rw [hzero']
      exact max_eq_left zero_le_one
    · exact max_self _
  · rfl

/-- The residuals, the Jacobian and the scaling are those of the affine system, and each iteration
has called it once. -/
structure Tracks (A : Mat ℝ n) (b : Vec ℝ n) (c : Settings ℝ) (s : State ℝ n) : Prop where
  residuals : s.f = affine A b s.x
  matrix : s.jacobian.matrix = A
  evaluations : s.evaluations = 1 + n + s.iterations
  scaling : grownScaling c s.scaling A = s.scaling
  wellScaled : s.WellScaled c

/-- The step did what the model said, and the region reaches as far beyond it as it may. -/
structure FollowsModel (c : Settings ℝ) (s : State ℝ n) (t : Trial ℝ n) (s' : State ℝ n) :
    Prop where
  found : (s.preparedAsIs c).step? = some t.step
  ratio : t.gain.ratio = 1
  accepted : t.accepted = true
  unrefreshed : t.refreshed = false
  point : s'.x.get = s.x.get + t.step.move.get
  residuals : s'.f = Step.model s.jacobian.matrix s.f t.step.move
  falls : s'.f.norm < s.f.norm
  scaling : s'.scaling = s.scaling
  radius : s'.radius =
    min c.maxRadius (max (c.expandFactor * t.step.move.scaledNorm s.scaling) c.minRadius)

theorem initial_tracks (hc : c.InRange) (A : Mat ℝ n) (b x : Vec ℝ n) :
    Tracks A b c (initial c x (affine A b x) ⟨⟨A, true, false⟩, n, none⟩) :=
  ⟨rfl, rfl, rfl, grownScaling_firstScaling c _, initial_wellScaled hc _ _ _⟩

variable {sys : Equations (StateM σ) ℝ n}

theorem create_tracks (hsys : sys.IsPure fun x => .ok (affine A b x)) (hc : c.Valid) (hn : n ≠ 0)
    (x : Vec ℝ n) (w : σ) :
    ∃ d w', (create sys c x.toList).run w = (.ok (initial c x (affine A b x) d), w') ∧
      Tracks A b c (initial c x (affine A b x) d) := by
  have hrange := Settings.real_valid_iff.mp hc
  obtain ⟨a, w', hrun, hcolumns⟩ := start_succeeds hsys (c := c) (x := x) (f := affine A b x) rfl
    (Vec.real_isFinite _) (fun j => ⟨_, rfl⟩) w
  have ha : a = A := by
    refine Mat.ext_column fun j => ?_
    have hstep := (Jacobian.real_increment_pos hrange.differenceStep (x.get j)).ne'
    rw [hcolumns j _ rfl, Jacobian.neighbour, Jacobian.slopes_affine hstep]
  subst ha
  rw [create_eq_start sys hc hn]
  exact ⟨_, w', hrun, initial_tracks hrange _ b x⟩

theorem judgedRadius_of_ratio_one (hc : c.InRange) (agreements : Nat) (radius stepNorm : ℝ) :
    (judgedRadius c agreements radius 1 stepNorm).1 =
      min c.maxRadius (max (c.expandFactor * stepNorm) c.minRadius) := by
  have hshrink : ¬ (1 : ℝ) < c.shrinkThreshold := not_lt.mpr hc.shrinkThreshold.2.le
  have hclose : Scalar.abs ((1 : ℝ) - 1) ≤ c.shrinkThreshold := by
    simpa using hc.shrinkThreshold.1.le
  simp only [judgedRadius, if_neg hshrink, if_pos hclose]
  rw [clampRadius, Scalar.real_clamp]

namespace Tracks

theorem factored_eq (hs : Tracks A b c s) (hA : c.singularTolerance < A.condition) :
    s.factored c =
      (⟨c.singularTolerance, some s.jacobian.matrix.eliminate⟩, none) := by
  have hrefusal : LinearSolver.refusal? c.singularTolerance s.jacobian.matrix = none := by
    rw [hs.matrix]
    exact LinearSolver.real_refusal?_eq_none_iff.mpr hA
  rw [factored, LinearSolver.factor, hrefusal]

theorem nonsingular (hs : Tracks A b c s) (hc : c.InRange)
    (hA : c.singularTolerance < A.condition) : s.jacobian.matrix.Nonsingular := by
  rw [hs.matrix]
  exact LinearSolver.nonsingular_of_not_refused hc.singularTolerance.1
    (LinearSolver.real_refusal?_eq_none_iff.mpr hA)

theorem exists_step (hs : Tracks A b c s) (hc : c.InRange)
    (hA : c.singularTolerance < A.condition) (hactive : s.Active c) :
    s.mustRecompute c = false ∧ (s.preparedAsIs c).isUndetermined = false ∧
      ∃ step, (s.preparedAsIs c).step? = some step ∧
        (Step.model A s.f step.move).norm < s.f.norm := by
  have hfactored := hs.factored_eq hA
  have hfactors : (s.factored c).1.factors = some s.jacobian.matrix.eliminate := by
    rw [hfactored]
  obtain ⟨step, hstep, hlt⟩ := Step.exists_choose?_lt hfactors (hs.nonsingular hc hA)
    hactive.get_f_ne_zero hs.wellScaled.scaling_pos
    (hc.minRadius.trans_le hs.wellScaled.radius_mem.1)
  refine ⟨?_, ?_, step, hstep, ?_⟩
  · simp [mustRecompute, hfactored]
  · simp [Preparation.isUndetermined, Preparation.finalRefusal?, preparedAsIs, hfactored]
  · rw [← hs.matrix]
    exact Vec.norm_lt_norm_iff.mpr hlt

theorem value_eq (hs : Tracks A b c s) (move : Vec ℝ n) :
    affine A b (s.x.addScaled 1 move) = Step.model A s.f move := by
  rw [hs.residuals, affine_addScaled]

variable {p : Preparation ℝ n} {step : Step ℝ n} {t : Trial ℝ n} {q : State ℝ n}

theorem trial_of_model (hs : Tracks A b c s) (hc : c.InRange) (hp : p = s.preparedAsIs c)
    (ht : t = p.trial c step (Step.model A s.f step.move))
    (hlt : (Step.model A s.f step.move).norm < s.f.norm) :
    t.gain.ratio = 1 ∧ t.accepted = true ∧ t.refreshed = false := by
  subst hp ht
  have hratio :
      ((s.preparedAsIs c).trial c step (Step.model A s.f step.move)).gain.ratio = 1 := by
    rw [← hs.matrix] at hlt ⊢
    exact Gain.ratio_eq_one hlt rfl
  have haccepted := (Preparation.trial_accepted_iff _ _ _ _).mpr
    (hc.acceptThreshold.2.le.trans_eq hratio.symm)
  refine ⟨hratio, haccepted, ?_⟩
  by_contra hrefreshed
  rw [not_accepted_of_refreshed (Bool.eq_true_of_not_eq_false hrefreshed)] at haccepted
  cases haccepted

theorem change_eq (hs : Tracks A b c s) (move : Vec ℝ n) :
    ((s.f.addScaled (-1) (Step.model A s.f move)).neg).get =
      s.jacobian.matrix.toMatrix *ᵥ move.get := by
  rw [Vec.get_neg, Vec.get_addScaled, Step.get_model, hs.matrix]
  module

theorem commit (hs : Tracks A b c s) (hc : c.InRange) (hp : p = s.preparedAsIs c)
    (hq : q = p.tested step) (ht : t = p.trial c step (Step.model A s.f step.move))
    (hfound : p.step? = some step)
    (hlt : (Step.model A s.f step.move).norm < s.f.norm) :
    FollowsModel c s t (q.commit c t) ∧ Tracks A b c (q.commit c t) := by
  obtain ⟨hratio, haccepted, hrefreshed⟩ := hs.trial_of_model hc hp ht hlt
  subst hp
  have hx : (q.commit c t).x = s.x.addScaled 1 step.move := by
    rw [commit_x, if_pos haccepted, hq]
    rfl
  have hf : (q.commit c t).f = Step.model A s.f step.move := by
    rw [commit_f, if_pos haccepted, ht]
    rfl
  have hmatrix : (q.commit c t).jacobian.matrix = A := by
    rw [commit_jacobian, if_pos haccepted, hq, ht]
    exact (Jacobian.update_matrix (hs.change_eq step.move)).trans hs.matrix
  -- With the same columns the units are the same.
  have hscaling : (q.commit c t).scaling = s.scaling := by
    rw [commit_scaling, if_pos haccepted, hmatrix, hq]
    exact hs.scaling
  constructor
  · refine ⟨?_, hratio, haccepted, hrefreshed, ?_, ?_, ?_, hscaling, ?_⟩
    · rw [ht]
      exact hfound
    · rw [hx, Vec.get_addScaled, one_smul, ht]
      rfl
    · rw [hf, hs.matrix, ht]
      rfl
    · rw [hf]
      exact hlt
    · rw [commit_radius, hratio, judgedRadius_of_ratio_one hc, ht]
      rfl
  · have hwellScaled : q.WellScaled c := by
      rw [hq]
      exact ⟨hs.wellScaled.scaling_pos, hs.wellScaled.radius_mem⟩
    refine ⟨?_, hmatrix, ?_, ?_, commit_wellScaled hc hwellScaled t⟩
    · rw [hf, hx, hs.value_eq]
    · have hevaluations : q.evaluations = s.evaluations + 1 := by rw [hq]; rfl
      have hiterations : q.iterations = s.iterations := by rw [hq]; rfl
      rw [commit_evaluations, commit_iterations, hevaluations, hs.evaluations, hiterations,
        Nat.add_assoc]
    · rw [hscaling]
      exact hs.scaling

section

variable {sys : Equations (StateM σ) ℝ n} (hsys : sys.IsPure fun x => .ok (affine A b x))
  (hc : c.InRange) (hA : c.singularTolerance < A.condition)
include hsys hc hA

theorem iterate_active (hs : Tracks A b c s) (hactive : s.Active c) (w : σ) :
    ∃ s' t w', (s.iterate sys c).run w = (⟨s', .ok (.tried (s.preparedAsIs c) t)⟩, w') ∧
      s'.status = s'.verdict c true ∧ FollowsModel c s t s' ∧ Tracks A b c s' := by
  obtain ⟨hkept, hdetermined, step, hstep, hlt⟩ := hs.exists_step hc hA hactive
  obtain ⟨w', hcall⟩ := hsys.run (x := s.x.addScaled 1 step.move) rfl w
  rw [hs.value_eq] at hcall
  obtain ⟨-, haccepted, hrefreshed⟩ := hs.trial_of_model hc rfl rfl hlt
  obtain ⟨hfollows, htracks⟩ := hs.commit hc rfl rfl rfl hstep hlt
  have htry := (Tries.judged hcall hrefreshed).run
  have hprepare : (s.prepare sys c).run w = (.ok (s.preparedAsIs c), w) :=
    (Prepares.asIs hkept).run
  refine ⟨_, _, w', (Iterates.tried hactive hprepare hdetermined hstep htry).run, ?_, hfollows,
    htracks⟩
  rw [commit_status, haccepted]

theorem iterate (hs : Tracks A b c s) {w w' : σ} {a : Attempt ℝ n}
    (h : (s.iterate sys c).run w = (a, w')) : Tracks A b c a.state := by
  by_cases hactive : s.Active c
  · obtain ⟨s', t, v, hrun, -, -, htracks⟩ := hs.iterate_active hsys hc hA hactive w
    rw [h] at hrun
    cases hrun
    exact htracks
  · obtain ⟨-, status, he⟩ := iterate_of_not_active hactive h
    rw [he]
    exact ⟨hs.residuals, hs.matrix, hs.evaluations, hs.scaling, hs.wellScaled.scaling_pos,
      hs.wellScaled.radius_mem⟩

theorem of_continues {t : State ℝ n} (hs : Tracks A b c s) (h : Continues sys c s t) :
    Tracks A b c t := by
  induction h with
  | here => exact hs
  | iterate _ ha ih => exact ih.iterate hsys hc hA ha

theorem newton (hs : Tracks A b c s) (hrunning : s.status = .running)
    (hbudget : s.iterations < c.maxIterations) {p : Vec ℝ n}
    (hp : A.toMatrix *ᵥ p.get = -s.f.get) (hfits : p.scaledNorm s.scaling ≤ s.radius) {w w' : σ}
    {a : Attempt ℝ n} (h : (s.iterate sys c).run w = (a, w')) :
    a.answer = .ok .success ∧ a.state.f.get = 0 := by
  by_cases hroot : s.f.norm = 0
  -- At the root already, the Newton step is zero and the run ends without it.
  · have hrun : (s.iterate sys c).run w = (⟨{ s with status := .success }, .ok .settled⟩, w) :=
      (Iterates.atRoot hrunning hbudget (by simpa using hroot)).run
    rw [h] at hrun
    cases hrun
    exact ⟨rfl, Vec.norm_eq_zero_iff.mp hroot⟩
  · have hactive : s.Active c := ⟨hrunning, hbudget, by simpa using hroot⟩
    obtain ⟨s', t, v, hrun, hstatus, hfollows, -⟩ := hs.iterate_active hsys hc hA hactive w
    rw [h] at hrun
    cases hrun
    have hnewton : (s.preparedAsIs c).step? = some ⟨.newtonFits, p⟩ := by
      rw [← hs.matrix] at hp
      have hfactors : (s.factored c).1.factors = some s.jacobian.matrix.eliminate := by
        rw [hs.factored_eq hA]
      exact Step.choose?_newton hfactors (hs.nonsingular hc hA) hp hfits
    have hmove : t.step.move = p := by
      rw [hfollows.found] at hnewton
      rw [Option.some.inj hnewton]
    have hf : s'.f.get = 0 := by
      rw [hfollows.residuals, hmove, hs.matrix]
      exact Step.model_newton hp
    have hpassed : residualTest s'.f c.tolerance = .success := by
      have hnormOne : s'.f.normOne = 0 := by simp [Vec.normOne_eq, hf]
      simp [residualTest, hnormOne, hc.tolerance, Verdict.ofBool]
    rw [verdict_eq_success_iff.mpr ⟨rfl, hpassed⟩] at hstatus
    exact ⟨congrArg Except.ok hstatus, hf⟩

end

end Tracks

end State

def sheared : Mat ℝ 2 :=
  Vector.mk #[Vector.mk #[1, 1] rfl, Vector.mk #[0, 1] rfl] rfl

theorem sheared_nonsingular : sheared.Nonsingular := by
  intro v hv
  have hfirst : 1 * v 0 + 1 * v 1 = 0 := by
    have h := congrFun hv 0
    rw [mulVec, dotProduct, Fin.sum_univ_two] at h
    exact h
  have hsecond : 0 * v 0 + 1 * v 1 = 0 := by
    have h := congrFun hv 1
    rw [mulVec, dotProduct, Fin.sum_univ_two] at h
    exact h
  funext i
  fin_cases i
  · change v 0 = 0
    linarith
  · change v 1 = 0
    linarith

theorem sheared_condition : Settings.exact.singularTolerance < sheared.condition :=
  (Mat.condition_pos_iff two_ne_zero).mpr sheared_nonsingular

noncomputable def slanted : Equations (StateM Nat) ℝ 2 :=
  interrupted [] fun x => .ok (affine sheared (Vec.ones 2) x)

theorem slanted_isPure : slanted.IsPure fun x => .ok (affine sheared (Vec.ones 2) x) :=
  interrupted_isPure _

theorem slanted_active {s : State ℝ 2} (hx : s.x = Vec.zeros 2)
    (hf : s.f = affine sheared (Vec.ones 2) s.x) (hs : s.status = .running ∧ s.iterations = 0) :
    s.Active .exact := by
  have hnorm : s.f.norm ≠ 0 := by
    intro h
    have hzeros : (Vec.zeros 2 : Vec ℝ 2).get = 0 := funext Vec.get_zeros
    have hfirst := congrFun (Vec.norm_eq_zero_iff.mp h) 0
    rw [hf, hx, get_affine, hzeros, mulVec_zero, zero_add, Vec.get_ones] at hfirst
    exact one_ne_zero hfirst
  refine ⟨hs.1, ?_, by simpa using hnorm⟩
  rw [hs.2]
  exact Nat.succ_pos 999

namespace State

/-- A run on an affine system keeps its matrix as the Jacobian and calls it once in an iteration.
Each step does what the model predicts, and the first Newton step that fits into the region ends
the run at the root. -/
theorem affine_run_follows_model {A : Mat ℝ n} {b : Vec ℝ n} {c : Settings ℝ}
    {sys : Equations (StateM σ) ℝ n} (hsys : sys.IsPure fun x => .ok (affine A b x))
    (hc : c.Valid) (hA : c.singularTolerance < A.condition) (x : Vec ℝ n) (w : σ) :
    ∃ s w', (create sys c x.toList).run w = (.ok s, w') ∧ s.x = x ∧
      ∀ t, Continues sys c s t →
        t.jacobian.matrix = A ∧ t.f = affine A b t.x ∧ t.evaluations = 1 + n + t.iterations ∧
        ∀ v a v', (t.iterate sys c).run v = (a, v') →
          (t.Active c → ∃ trial, a.result = .ok (.tried (t.preparedAsIs c) trial) ∧
            FollowsModel c t trial a.state) ∧
          (¬ t.Active c → a.result = .ok .settled) ∧
          (t.status = .running → t.iterations < c.maxIterations → ∀ p : Vec ℝ n,
            A.toMatrix *ᵥ p.get = -t.f.get → p.scaledNorm t.scaling ≤ t.radius →
            a.answer = .ok .success ∧ a.state.f.get = 0) := by
  have hrange := Settings.real_valid_iff.mp hc
  have hn : n ≠ 0 := by
    rintro rfl
    rw [Mat.condition, Mat.singularValue_of_le A le_rfl, div_zero] at hA
    exact absurd hA (not_lt.mpr hrange.singularTolerance.1)
  obtain ⟨d, w', hcreate, htracks⟩ := create_tracks hsys hc hn x w
  refine ⟨_, w', hcreate, rfl, ?_⟩
  intro t hcontinues
  have ht := htracks.of_continues hsys hrange hA hcontinues
  refine ⟨ht.matrix, ht.residuals, ht.evaluations, ?_⟩
  intro v a v' h
  refine ⟨?_, ?_, ?_⟩
  · intro hactive
    obtain ⟨s', trial, u, hrun, -, hfollows, -⟩ := ht.iterate_active hsys hrange hA hactive v
    rw [h] at hrun
    cases hrun
    exact ⟨trial, rfl, hfollows⟩
  · intro hactive
    exact (iterate_of_not_active hactive h).1
  · intro hrunning hbudget p hp hfits
    exact ht.newton hsys hrange hA hrunning hbudget hp hfits h

theorem affine_run_follows_model_slanted :
    ∃ s w', (create slanted .exact (Vec.zeros 2).toList).run 0 = (.ok s, w') ∧
      ∀ v a v', (s.iterate slanted .exact).run v = (a, v') →
        ∃ trial, a.result = .ok (.tried (s.preparedAsIs .exact) trial) ∧
          FollowsModel .exact s trial a.state := by
  obtain ⟨s, w', hcreate, hx, hrun⟩ := affine_run_follows_model slanted_isPure
    Settings.exact_valid sheared_condition (Vec.zeros 2) 0
  obtain ⟨-, hf, -, hiterate⟩ := hrun s .here
  obtain ⟨hrunning, hnone, -⟩ := create_running hcreate
  refine ⟨s, w', hcreate, ?_⟩
  intro v a v' h
  exact (hiterate v a v' h).1 (slanted_active hx hf ⟨hrunning, hnone⟩)

end State

end RootFinder
