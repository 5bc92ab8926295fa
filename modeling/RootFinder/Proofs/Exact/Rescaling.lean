import RootFinder.Proofs.Exact.Magnified
import RootFinder.Proofs.Exact.Units
import RootFinder.Proofs.Restart

/-! All equations multiplied by one factor. Without scaling and with the tolerance adjusted, the
run of the multiplied system keeps in step with the run of the system: it passes through the same
points, steps, radii, statuses and counts, with its residuals and its Jacobian multiplied. -/

namespace RootFinder

variable {m : Type → Type} [Monad m] {n : Nat}

/-- The tolerance that the multiplied residuals meet when the residuals meet the tolerance. -/
noncomputable def Settings.magnified (k : ℝ) (c : Settings ℝ) : Settings ℝ :=
  { c with tolerance := |k| * c.tolerance }

noncomputable def Equations.magnified (k : ℝ) (sys : Equations m ℝ n) : Equations m ℝ n :=
  fun x => Except.map (·.scale k) <$> sys x

noncomputable def Jacobian.magnified (k : ℝ) (jac : Jacobian ℝ n) : Jacobian ℝ n :=
  { jac with matrix := jac.matrix.magnified k }

noncomputable def Differencing.magnified (k : ℝ) (d : Differencing ℝ n) : Differencing ℝ n :=
  { d with jacobian := d.jacobian.magnified k }

@[simp]
theorem Differencing.failure_magnified (k : ℝ) (d : Differencing ℝ n) :
    (d.magnified k).failure = d.failure :=
  rfl

noncomputable def State.magnified (k : ℝ) (s : State ℝ n) : State ℝ n :=
  { s with
    f := s.f.scale k
    jacobian := s.jacobian.magnified k }

noncomputable def Trial.magnified (k : ℝ) (t : Trial ℝ n) : Trial ℝ n :=
  { t with value := t.value.scale k }

/-- The preparation for the multiplied Jacobian, factored if the Jacobian was. -/
noncomputable def Preparation.magnified (k : ℝ) (p : Preparation ℝ n) : Preparation ℝ n :=
  { p with
    state := p.state.magnified k
    linear.factors :=
      p.linear.factors.map fun _ => (p.state.magnified k).jacobian.matrix.eliminate }

noncomputable def Report.magnified (k : ℝ) : Report ℝ n → Report ℝ n
  | settled => settled
  | singular p => singular (p.magnified k)
  | tried p t => tried (p.magnified k) (t.magnified k)

noncomputable def Breakdown.magnified (k : ℝ) : Breakdown ℝ n → Breakdown ℝ n
  | eval cause => eval cause
  | undetermined p => undetermined (p.magnified k)

noncomputable def Attempt.magnified (k : ℝ) (a : Attempt ℝ n) : Attempt ℝ n where
  state := a.state.magnified k
  result :=
    match a.result with
    | .error b => .error (b.magnified k)
    | .ok report => .ok (report.magnified k)

theorem Attempt.answer_magnified (k : ℝ) (a : Attempt ℝ n) : (a.magnified k).answer = a.answer := by
  obtain ⟨s, result⟩ := a
  cases result with
  | error b => cases b <;> rfl
  | ok report => rfl

theorem residualTest_magnified {k : ℝ} (hk : k ≠ 0) (f : Vec ℝ n) (tolerance : ℝ) :
    residualTest (f.scale k) (|k| * tolerance) = residualTest f tolerance := by
  simp only [residualTest, Vec.normOne_scale, mul_le_mul_iff_right₀ (abs_pos.mpr hk)]

theorem Settings.fault?_magnified {k : ℝ} (hk : k ≠ 0) (c : Settings ℝ) :
    (c.magnified k).fault? = c.fault? := by
  have htolerance : Scalar.isNonNegative (|k| * c.tolerance) =
      Scalar.isNonNegative c.tolerance := by
    rw [Scalar.real_isNonNegative, Scalar.real_isNonNegative]
    exact decide_eq_decide.mpr (mul_nonneg_iff_of_pos_left (abs_pos.mpr hk))
  simp only [fault?, requirements, magnified, htolerance]
  rfl

namespace Jacobian

variable (k : ℝ)

theorem unknown_magnified : (unknown n : Jacobian ℝ n).magnified k = unknown n := by
  have hzeros : (Mat.zeros n : Mat ℝ n).magnified k = Mat.zeros n := by
    refine Mat.ext_entry fun i j => ?_
    simp [Mat.zeros]
  rw [magnified, unknown, hzeros]

theorem slopes_scale (h : ℝ) (f g : Vec ℝ n) :
    slopes h (f.scale k) (g.scale k) = (slopes h f g).scale k := by
  refine Vec.ext_get fun i => ?_
  rw [slopes, Vec.get_ofFn, Vec.get_scale, Vec.get_scale, Vec.get_scale, Pi.smul_apply,
    Pi.smul_apply, Pi.smul_apply, slopes, Vec.get_ofFn, smul_eq_mul, smul_eq_mul, smul_eq_mul,
    ← mul_sub, mul_div_assoc]

theorem setColumn_magnified (a : Mat ℝ n) (j : Fin n) (v : Vec ℝ n) :
    (a.magnified k).setColumn j (v.scale k) = (a.setColumn j v).magnified k := by
  refine Mat.ext_entry fun i l => ?_
  simp only [Mat.setColumn, Mat.entry_ofFn, Mat.entry_magnified, Vec.get_scale, Pi.smul_apply,
    smul_eq_mul]
  split_ifs <;> rfl

theorem secantDefect_magnified (a : Mat ℝ n) (step df : Vec ℝ n) :
    secantDefect (a.magnified k) step (df.scale k) = (secantDefect a step df).scale k := by
  refine Vec.ext_get fun i => ?_
  simp only [secantDefect, Mat.mulVec_magnified, Vec.get_ofFn, Vec.get_scale, Pi.smul_apply,
    smul_eq_mul, mul_sub]

theorem addRankOne_magnified (a : Mat ℝ n) (t : ℝ) (u v : Vec ℝ n) :
    (a.magnified k).addRankOne t (u.scale k) v = (a.addRankOne t u v).magnified k := by
  refine Mat.ext_entry fun i j => ?_
  simp only [Mat.addRankOne, Mat.entry_ofFn, Mat.entry_magnified, Vec.get_scale, Pi.smul_apply,
    smul_eq_mul, mul_add, mul_assoc]

/-- A secant update multiplies along with the change of the residuals. -/
theorem update_magnified (jac : Jacobian ℝ n) (step df : Vec ℝ n) :
    (jac.magnified k).update step (df.scale k) = (jac.update step df).magnified k := by
  unfold update
  split_ifs
  · rfl
  · simp only [magnified, secantDefect_magnified, addRankOne_magnified]

variable [LawfulMonad m] (sys : Equations m ℝ n)

theorem differenceColumns_magnified (relative : ℝ) (x f : Vec ℝ n) (js : List (Fin n))
    (a : Mat ℝ n) :
    differenceColumns (sys.magnified k) relative x (f.scale k) js (a.magnified k) =
      Prod.map (Mat.magnified k) id <$> differenceColumns sys relative x f js a := by
  induction js generalizing a with
  | nil =>
    rw [differenceColumns, differenceColumns, map_pure]
    rfl
  | cons j js ih =>
    rw [differenceColumns, differenceColumns, Equations.magnified, bind_map_left, map_bind]
    refine bind_congr fun answer => ?_
    cases answer with
    | error e => simp [Except.map]
    | ok g => simp [Except.map, slopes_scale, setColumn_magnified, ih]

theorem difference_magnified (relative : ℝ) (jac : Jacobian ℝ n) (x f : Vec ℝ n) :
    (jac.magnified k).difference (sys.magnified k) relative x (f.scale k) =
      Differencing.magnified k <$> jac.difference sys relative x f := by
  rw [difference, difference, magnified, differenceColumns_magnified, bind_map_left, map_bind]
  refine bind_congr fun r => ?_
  obtain ⟨a, count, failure⟩ := r
  cases failure with
  | none => simp [Differencing.magnified, magnified]
  | some e => simp [Differencing.magnified, magnified]

end Jacobian

namespace State

variable {k : ℝ} {c : Settings ℝ}

section Judgement

variable (hk : k ≠ 0) (s : State ℝ n)
include hk

theorem judge_magnified (step : Step ℝ n) (value : Vec ℝ n) :
    (s.magnified k).judge (c.magnified k) step (value.scale k) =
      (s.judge c step value).magnified k := by
  have hgain := Gain.ofTrial_magnified hk s.jacobian.matrix s.f step.move value
  simp only [judge, magnified, Jacobian.magnified, hgain]
  rfl

theorem verdict_magnified (accepted : Bool) :
    (s.magnified k).verdict (c.magnified k) accepted = s.verdict c accepted := by
  have htest : residualTest (s.magnified k).f (c.magnified k).tolerance =
      residualTest s.f c.tolerance := residualTest_magnified hk s.f c.tolerance
  rw [verdict, verdict, htest]
  rfl

omit hk in
theorem advance_magnified (hscaled : c.scaled = false) (value : Vec ℝ n) :
    (s.magnified k).advance (c.magnified k) (value.scale k) =
      (s.advance c value).magnified k := by
  have hscaled' : (c.magnified k).scaled = false := hscaled
  simp only [advance, magnified, grownScaling_of_unscaled hscaled,
    grownScaling_of_unscaled hscaled', Vec.addScaled_scale, Vec.neg_scale,
    Jacobian.update_magnified]

theorem commit_magnified (hscaled : c.scaled = false) (t : Trial ℝ n) :
    (s.magnified k).commit (c.magnified k) (t.magnified k) = (s.commit c t).magnified k := by
  have hmoved : (if (t.magnified k).accepted then
        (s.magnified k).advance (c.magnified k) (t.magnified k).value
      else (s.magnified k).stay (t.magnified k).refreshed) =
      (if t.accepted then s.advance c t.value else s.stay t.refreshed).magnified k := by
    change (if t.accepted then (s.magnified k).advance (c.magnified k) (t.value.scale k)
      else (s.stay t.refreshed).magnified k) = _
    rw [advance_magnified s hscaled]
    split_ifs <;> rfl
  unfold commit
  rw [hmoved]
  generalize (if t.accepted then s.advance c t.value else s.stay t.refreshed) = moved
  have hverdict (judged : State ℝ n) :
      { judged.magnified k with
        status := (judged.magnified k).verdict (c.magnified k) t.accepted } =
      State.magnified k { judged with status := judged.verdict c t.accepted } := by
    rw [verdict_magnified hk]
    rfl
  obtain ⟨radius, agreements, hjudged⟩ : ∃ radius agreements,
      judgedRadius c s.agreements t.radius t.gain.ratio t.stepNorm = (radius, agreements) :=
    ⟨_, _, rfl⟩
  have hjudged' : judgedRadius (c.magnified k) (s.magnified k).agreements (t.magnified k).radius
      (t.magnified k).gain.ratio (t.magnified k).stepNorm = (radius, agreements) := hjudged
  rw [hjudged, hjudged']
  exact hverdict { moved with
    radius, agreements
    slow := if 1e-3 ≤ t.gain.actual then 0 else s.slow + 1
    iterations := s.iterations + 1 }

theorem atRoot_magnified : ((s.magnified k).f.norm == 0) = (s.f.norm == 0) := by
  have hnorm : (s.magnified k).f.norm = |k| * s.f.norm := s.f.norm_scale k
  rw [hnorm, Bool.eq_iff_iff, beq_iff_eq, beq_iff_eq, mul_eq_zero, abs_eq_zero]
  simp [hk]

theorem Active.magnified {s : State ℝ n} (hs : s.Active c) :
    (s.magnified k).Active (c.magnified k) := by
  obtain ⟨hrunning, hbudget, hroot⟩ := hs
  exact ⟨hrunning, hbudget, (atRoot_magnified hk s).trans hroot⟩

end Judgement

section Calls

variable [LawfulMonad m] (sys : Equations m ℝ n) (hscaled : c.scaled = false)
include hscaled

theorem initial_magnified (x f : Vec ℝ n) (d : Differencing ℝ n) :
    initial (c.magnified k) x (f.scale k) (d.magnified k) = (initial c x f d).magnified k := by
  have hscaled' : (c.magnified k).scaled = false := hscaled
  simp only [initial, firstScaling_of_unscaled hscaled, firstScaling_of_unscaled hscaled']
  rfl

theorem renewed_magnified (s : State ℝ n) (d : Differencing ℝ n) :
    (s.magnified k).renewed (c.magnified k) (d.magnified k) = (s.renewed c d).magnified k := by
  have hscaled' : (c.magnified k).scaled = false := hscaled
  simp only [renewed, grownScaling_of_unscaled hscaled, grownScaling_of_unscaled hscaled']
  rfl

theorem start_magnified (point : List ℝ) :
    start (sys.magnified k) (c.magnified k) point =
      Except.map (magnified k) <$> start sys c point := by
  unfold start
  cases Vec.ofList? n point with
  | none => simp [Except.map]
  | some x =>
    simp only [Equations.magnified, bind_map_left, map_bind]
    refine bind_congr fun answer => ?_
    cases answer with
    | error e => simp [Except.map]
    | ok f =>
      have hfinite (g : Vec ℝ n) : g.firstNonFinite? = none :=
        Vec.firstNonFinite?_eq_none_iff.mpr g.real_isFinite
      simp only [Except.map, hfinite]
      rw [← Jacobian.unknown_magnified k, Jacobian.difference_magnified, bind_map_left, map_bind,
        Jacobian.unknown_magnified]
      refine bind_congr fun d => ?_
      rw [Differencing.failure_magnified]
      cases d.failure with
      | none => simp [Except.map, initial_magnified hscaled]
      | some e => simp [Except.map]

theorem create_magnified (hk : k ≠ 0) (point : List ℝ) :
    create (sys.magnified k) (c.magnified k) point =
      Except.map (magnified k) <$> create sys c point := by
  unfold create
  rw [Settings.fault?_magnified hk]
  cases c.fault? with
  | some fault => simp [Except.map]
  | none =>
    split_ifs
    · simp [Except.map]
    · exact start_magnified sys hscaled point

theorem restart_magnified (s : State ℝ n) (point : List ℝ) :
    (s.magnified k).restart (sys.magnified k) (c.magnified k) point =
      Prod.map (magnified k) id <$> s.restart sys c point := by
  rw [restart, restart, start_magnified sys hscaled, bind_map_left, map_bind]
  refine bind_congr fun answer => ?_
  cases answer with
  | error e => simp [Except.map]
  | ok t => simp [Except.map]

theorem refresh_magnified (s : State ℝ n) :
    (s.magnified k).refresh (sys.magnified k) (c.magnified k) =
      Except.map (magnified k) <$> s.refresh sys c := by
  change (s.jacobian.magnified k).difference (sys.magnified k) c.differenceStep s.x
    (s.f.scale k) >>= _ = _
  rw [refresh, Jacobian.difference_magnified, bind_map_left, map_bind]
  refine bind_congr fun d => ?_
  rw [Differencing.failure_magnified]
  cases d.failure with
  | none => simp [Except.map, renewed_magnified hscaled]
  | some e => simp [Except.map]

theorem tryStep_magnified (hk : k ≠ 0) (p : Preparation ℝ n) (step : Step ℝ n) :
    tryStep (sys.magnified k) (c.magnified k) (p.magnified k) step =
      Attempt.magnified k <$> tryStep sys c p step := by
  unfold tryStep
  simp only [Equations.magnified, bind_map_left, map_bind]
  refine bind_congr fun answer => ?_
  cases answer with
  | error e =>
    simp only [Except.map, map_pure]
    rfl
  | ok value =>
    have hcounted : ((p.magnified k).state.propose step).counted =
        (p.state.propose step).counted.magnified k := rfl
    simp only [Except.map, hcounted, judge_magnified hk]
    generalize (p.state.propose step).counted = tested
    generalize tested.judge c step value = trial
    have hrefreshed : (trial.magnified k).refreshed = trial.refreshed := rfl
    rw [hrefreshed]
    cases trial.refreshed with
    | false => simp [commit_magnified hk _ hscaled, Attempt.magnified, Report.magnified]
    | true =>
      simp only [if_true, refresh_magnified sys hscaled, bind_map_left, map_bind]
      refine bind_congr fun answer => ?_
      cases answer with
      | error e => simp [Except.map, Attempt.magnified, Breakdown.magnified]
      | ok r =>
        simp [Except.map, commit_magnified hk _ hscaled, Attempt.magnified, Report.magnified]

end Calls

section Preparation

variable (hk : k ≠ 0) (s r : State ℝ n)
include hk

theorem factored_magnified :
    (s.magnified k).factored (c.magnified k) =
      ({ (s.factored c).1 with
          factors := (s.factored c).1.factors.map fun _ =>
            (s.magnified k).jacobian.matrix.eliminate },
        (s.factored c).2) := by
  have hrefusal := LinearSolver.refusal?_magnified hk c.singularTolerance s.jacobian.matrix
  change LinearSolver.factor ⟨c.singularTolerance, none⟩ (s.jacobian.matrix.magnified k) = _
  unfold factored LinearSolver.factor
  rw [hrefusal]
  cases LinearSolver.refusal? c.singularTolerance s.jacobian.matrix <;> rfl

theorem mustRecompute_magnified :
    (s.magnified k).mustRecompute (c.magnified k) = s.mustRecompute c := by
  rw [mustRecompute, mustRecompute, factored_magnified hk]
  rfl

theorem preparedAsIs_magnified :
    (s.magnified k).preparedAsIs (c.magnified k) = (s.preparedAsIs c).magnified k := by
  rw [preparedAsIs, factored_magnified hk]
  rfl

theorem preparedAnew_magnified :
    (s.magnified k).preparedAnew (c.magnified k) (r.magnified k) =
      (s.preparedAnew c r).magnified k := by
  rw [preparedAnew, factored_magnified hk, factored_magnified hk]
  rfl

/-- The step is looked for with what was factored last. -/
theorem step?_magnified (hc : 0 ≤ c.singularTolerance) {p : Preparation ℝ n}
    (hp : p.linear = (p.state.factored c).1) : (p.magnified k).step? = p.step? := by
  cases hr : LinearSolver.refusal? c.singularTolerance p.state.jacobian.matrix with
  | none =>
    have hfactors : p.linear.factors = some p.state.jacobian.matrix.eliminate := by
      simp [hp, factored, LinearSolver.factor, hr]
    have hfactors' : (p.magnified k).linear.factors =
        some (p.state.jacobian.matrix.magnified k).eliminate := by
      change Option.map _ p.linear.factors = _
      rw [hfactors]
      rfl
    exact Step.choose?_magnified hk (LinearSolver.nonsingular_of_not_refused hc hr) hfactors
      hfactors'
  | some refusal =>
    have hfactors : p.linear.factors = none := by
      simp [hp, factored, LinearSolver.factor, hr]
    have hfactors' : (p.magnified k).linear.factors = none := by
      change Option.map _ p.linear.factors = _
      rw [hfactors]
      rfl
    simp [Preparation.step?, Step.choose?, LinearSolver.solve?, hfactors, hfactors']

end Preparation

section Iterations

variable [LawfulMonad m] (sys : Equations m ℝ n)

/-- What an iteration does after its preparation. -/
def carryOn {α : Type} [Scalar α] (sys : Equations m α n) (c : Settings α)
    (p : Preparation α n) : m (Attempt α n) :=
  if p.isUndetermined then pure ⟨p.state, .error (.undetermined p)⟩
  else
    match p.step? with
    | none => pure ⟨{ p.state with status := .jacobianSingular }, .ok (.singular p)⟩
    | some step => tryStep sys c p step

-- Both branches are written out: a bind with `prepare` would forget that the preparation holds the
-- factors of its own Jacobian.
theorem Active.iterate_eq_carryOn {s : State ℝ n} (hs : s.Active c) :
    s.iterate sys c =
      if s.mustRecompute c then do
        match ← s.refresh sys c with
        | .error e => pure ⟨s, .error (.eval e)⟩
        | .ok r => carryOn sys c (s.preparedAnew c r)
      else carryOn sys c (s.preparedAsIs c) := by
  rw [hs.iterate_eq, prepare_eq]
  split_ifs
  · rw [bind_assoc]
    refine bind_congr fun answer => ?_
    cases answer with
    | error e => rw [pure_bind]
    | ok r =>
      rw [pure_bind]
      simp only [carryOn]
      cases (s.preparedAnew c r).step? <;> rfl
  · rw [pure_bind]
    simp only [carryOn]
    cases (s.preparedAsIs c).step? <;> rfl

variable (hk : k ≠ 0) (hscaled : c.scaled = false) (hc : 0 ≤ c.singularTolerance)
include hk hscaled hc

theorem carryOn_magnified {p : Preparation ℝ n} (hp : p.linear = (p.state.factored c).1) :
    carryOn (sys.magnified k) (c.magnified k) (p.magnified k) =
      Attempt.magnified k <$> carryOn sys c p := by
  have hundetermined : (p.magnified k).isUndetermined = p.isUndetermined := rfl
  rw [carryOn, carryOn, hundetermined, step?_magnified hk hc hp]
  cases p.isUndetermined with
  | true => simp [Attempt.magnified, Breakdown.magnified, Preparation.magnified]
  | false =>
    cases p.step? with
    | none =>
      simp only [Bool.false_eq_true, if_false, map_pure]
      rfl
    | some step => exact tryStep_magnified sys hscaled hk p step

theorem iterate_magnified (s : State ℝ n) :
    (s.magnified k).iterate (sys.magnified k) (c.magnified k) =
      Attempt.magnified k <$> s.iterate sys c := by
  by_cases hs : s.Active c
  · rw [hs.iterate_eq_carryOn, (hs.magnified hk).iterate_eq_carryOn, mustRecompute_magnified hk]
    split_ifs
    · rw [refresh_magnified sys hscaled, bind_map_left, map_bind]
      refine bind_congr fun answer => ?_
      cases answer with
      | error e =>
        rw [map_pure]
        rfl
      | ok r =>
        have hgoal := carryOn_magnified sys hk hscaled hc (p := s.preparedAnew c r) rfl
        rw [← preparedAnew_magnified hk] at hgoal
        exact hgoal
    · have hgoal := carryOn_magnified sys hk hscaled hc (p := s.preparedAsIs c) rfl
      rwa [← preparedAsIs_magnified hk] at hgoal
  · rw [iterate, iterate, atRoot_magnified hk]
    change (if s.status.isTerminal = true then _
      else if c.maxIterations ≤ s.iterations then _ else _) = _
    split_ifs with hended hbudget hroot
    · rw [map_pure]
      rfl
    · rw [map_pure]
      rfl
    · rw [map_pure]
      rfl
    · have hrunning : s.status = .running := by simpa [Status.isTerminal] using hended
      exact absurd ⟨hrunning, by omega, by simpa using hroot⟩ hs

theorem serve_magnified (s : State ℝ n) (request : Request ℝ) :
    (s.magnified k).serve (sys.magnified k) (c.magnified k) request =
      Prod.map (magnified k) id <$> s.serve sys c request := by
  cases request with
  | iterate =>
    rw [serve, serve, iterate_magnified sys hk hscaled hc, bind_map_left, map_bind]
    refine bind_congr fun a => ?_
    rw [map_pure, Attempt.answer_magnified]
    rfl
  | restart point =>
    rw [serve, serve, restart_magnified sys hscaled, bind_map_left, map_bind]
    refine bind_congr fun r => ?_
    rw [map_pure]
    rfl

theorem serveAll_magnified (requests : List (Request ℝ)) (s : State ℝ n) :
    serveAll (sys.magnified k) (c.magnified k) requests (s.magnified k) =
      List.map (Prod.map (magnified k) id) <$> serveAll sys c requests s := by
  induction requests generalizing s with
  | nil => rw [serveAll, serveAll, map_pure, List.map_nil]
  | cons request requests ih =>
    rw [serveAll, serveAll, serve_magnified sys hk hscaled hc, bind_map_left, map_bind]
    refine bind_congr fun r => ?_
    obtain ⟨t, reply⟩ := r
    change serveAll _ _ requests (t.magnified k) >>= _ = _
    rw [ih, bind_map_left, map_bind]
    refine bind_congr fun later => ?_
    rw [map_pure, List.map_cons]
    rfl

end Iterations

section Runs

variable [LawfulMonad m]

/-- Without scaling, a system multiplied by a factor other than zero, run with the tolerance
multiplied by its size, keeps in step with the system: wherever both are started and whatever is
asked of them then, every state differs in the residuals and the Jacobian alone, which are
multiplied, and every answer is the same. -/
theorem magnified_run_in_step {k : ℝ} (hk : k ≠ 0) (sys : Equations m ℝ n) {c : Settings ℝ}
    (hc : c.Valid) (hscaled : c.scaled = false) :
    (c.magnified k).Valid ∧
      (∀ point, create (sys.magnified k) (c.magnified k) point =
        Except.map (magnified k) <$> create sys c point) ∧
      ∀ (s : State ℝ n) (requests : List (Request ℝ)),
        serveAll (sys.magnified k) (c.magnified k) requests (s.magnified k) =
          List.map (Prod.map (magnified k) id) <$> serveAll sys c requests s := by
  have htolerance := (Settings.real_valid_iff.mp hc).singularTolerance.1
  refine ⟨?_, create_magnified sys hscaled hk, ?_⟩
  · exact (Settings.fault?_magnified hk c).trans hc
  · intro s requests
    exact serveAll_magnified sys hk hscaled htolerance requests s

end Runs

theorem magnified_run_in_step_slanted :
    (-2 : ℝ) ≠ 0 ∧ Settings.unscaled.Valid ∧ Settings.unscaled.scaled = false ∧
      ∃ (s t : State ℝ 2) (w w' : Nat), t.f.norm < s.f.norm ∧
        (create (slanted.magnified (-2)) (Settings.unscaled.magnified (-2))
          (Vec.zeros 2).toList).run 0 = (.ok (s.magnified (-2)), w) ∧
        (serveAll (slanted.magnified (-2)) (Settings.unscaled.magnified (-2)) [.iterate]
          (s.magnified (-2))).run w = ([(t.magnified (-2), .iterated (.ok t.status))], w') := by
  have hk : (-2 : ℝ) ≠ 0 := by norm_num
  obtain ⟨-, hcreate, hserve⟩ := magnified_run_in_step hk slanted Settings.unscaled_valid rfl
  obtain ⟨d, w, hstart, htracks⟩ :=
    create_tracks slanted_isPure Settings.unscaled_valid two_ne_zero (Vec.zeros 2) 0
  have hactive := slanted_active rfl htracks.residuals ⟨rfl, rfl⟩
  obtain ⟨t, trial, w', h, -, hfollows, -⟩ := htracks.iterate_active slanted_isPure
    (Settings.real_valid_iff.mp Settings.unscaled_valid) sheared_condition
    ⟨hactive.running, hactive.inBudget, hactive.notAtRoot⟩ w
  refine ⟨hk, Settings.unscaled_valid, rfl, _, t, w, w', hfollows.falls, ?_, ?_⟩
  · rw [hcreate, StateT.run_map, hstart]
    rfl
  · rw [hserve, StateT.run_map, serveAll, serve, bind_assoc, run_bind_of_eq h]
    rfl

end State

end RootFinder
