import RootFinder.Proofs.InPlace.Simulation

/-! An iteration in place. The step is computed in the buffers of the dogleg, the trial point in
those of the point on trial, and a step that is taken makes them change places; the state that the
solver shows is the one that the iteration on states ends with. -/

namespace RootFinder

namespace InPlace

variable {β γ α : Type} {n : Nat}

theorem bind_ok {op : Except Fault β} {b : β} {f : β → Except Fault γ} {r : Except Fault γ}
    (h : op = .ok b) (hf : f b = r) : (op >>= f) = r := by
  rw [h]
  exact hf

variable [Scalar α]

theorem boundaryFraction_toList (p w d : Vec α n) (radius : α) :
    boundaryFraction p.toList w.toList d.toList radius =
      .ok (Step.boundaryFraction p w d radius) := by
  rw [boundaryFraction, Vector.length_toList, asVec_toList, asVec_toList, asVec_toList]
  rfl

theorem steepest_toList (J : Mat α n) (f : Vec α n) :
    scale (J.transposeMulVec f).toList (-1) = (Step.steepest J f).toList :=
  scale_toList _ _

/-- The step that reaches the boundary before the Cauchy point or on the way from there to `p`. -/
def bent (cauchy p d : Vec α n) (radius : α) : Step α n :=
  if radius ≤ cauchy.scaledNorm d then
    ⟨.cauchyOutside, cauchy.scale (radius / cauchy.scaledNorm d)⟩
  else
    let way := p.addScaled (-1) cauchy
    let t := Step.boundaryFraction cauchy way d radius
    ⟨.between t, cauchy.addScaled t way⟩

theorem bend_of (d step : Vec α n) (radius curvature : α) (k : Workspace α n) {cauchy : Vec α n}
    (hcauchy : cauchy = k.cauchy.scale (k.gradient.dot k.cauchy / curvature)) :
    ∃ newton, Dogleg.bend d.toList radius curvature (.of k) step.toList =
      .ok (.of { k with newton, cauchy }, (bent cauchy k.newton d radius).move.toList,
        (bent cauchy k.newton d radius).kind) := by
  have hdescent := both_toList Vec.dot k.gradient k.cauchy
  have hlength := both_toList Vec.scaledNorm cauchy d
  have hcopied := copyFrom_toList step cauchy
  by_cases houtside : radius ≤ cauchy.scaledNorm d
  · refine ⟨k.newton, bind_ok hdescent ?_⟩
    rw [bent, if_pos houtside]
    subst hcauchy
    dsimp only [Dogleg.of]
    rw [scale_toList]
    refine bind_ok hlength ?_
    rw [if_pos houtside]
    refine bind_ok hcopied ?_
    rw [scale_toList]
    rfl
  · let way := k.newton.addScaled (-1) cauchy
    refine ⟨way, bind_ok hdescent ?_⟩
    rw [bent, if_neg houtside]
    subst hcauchy
    dsimp only [Dogleg.of]
    rw [scale_toList]
    refine bind_ok hlength ?_
    rw [if_neg houtside]
    refine bind_ok (addScaled_toList (-1) k.newton _) ?_
    refine bind_ok (boundaryFraction_toList _ way d radius) ?_
    exact bind_ok hcopied (bind_ok (addScaled_toList _ _ way) rfl)

theorem within_of (J : Mat α n) (f d step : Vec α n) (radius : α) (k : Workspace α n) :
    ∃ newton gradient cauchy image,
      Dogleg.within ⟨n, J⟩ f.toList d.toList radius (k.newton.scaledNorm d) (.of k) step.toList =
        .ok (.of { k with newton, gradient, cauchy, image },
          (Step.within J f d k.newton radius).move.toList,
          (Step.within J f d k.newton radius).kind) := by
  have hproduct := Square.times_toList J Mat.transposeMulVec f k.gradient
  have hshortened : scale k.newton.toList (radius / k.newton.scaledNorm d) =
      (k.newton.scale (radius / k.newton.scaledNorm d)).toList := scale_toList _ _
  have hnewton := copyFrom_toList step k.newton
  by_cases hgradient : ((Step.steepest J f).normMax == 0) = true
  · refine ⟨k.newton, Step.steepest J f, k.cauchy, k.image, bind_ok hproduct ?_⟩
    rw [steepest_toList]
    refine bind_ok (alone_toList Vec.normMax _) ?_
    rw [if_pos hgradient, Step.within, if_pos hgradient]
    refine bind_ok hnewton ?_
    rw [hshortened]
    rfl
  let direction := Step.unscale (Step.steepest J f) d
  let image := J.mulVec direction
  have hdirection := both_toList (fun g d => (Step.unscale g d).toList) (Step.steepest J f) d
  have hcopied := copyFrom_toList k.cauchy direction
  have himage := Square.times_toList J Mat.mulVec direction k.image
  have hcurvature := alone_toList Vec.normSquared image
  by_cases hnormal : Scalar.isNormal image.normSquared = true
  · let cauchy := direction.scale ((Step.steepest J f).dot direction / image.normSquared)
    have hmove : Step.within J f d k.newton radius = bent cauchy k.newton d radius := by
      rw [Step.within, if_neg hgradient]
      exact if_pos hnormal
    obtain ⟨newton, hbend⟩ := bend_of d step radius image.normSquared
      { k with gradient := Step.steepest J f, cauchy := direction, image } rfl
    refine ⟨newton, Step.steepest J f, cauchy, image, bind_ok hproduct ?_⟩
    rw [steepest_toList, hmove]
    refine bind_ok (alone_toList Vec.normMax _) ?_
    rw [if_neg hgradient]
    refine bind_ok hdirection (bind_ok hcopied (bind_ok himage (bind_ok hcurvature ?_)))
    rw [if_pos hnormal]
    exact hbend
  · have hmove : Step.within J f d k.newton radius =
        ⟨.noCurvature, k.newton.scale (radius / k.newton.scaledNorm d)⟩ := by
      rw [Step.within, if_neg hgradient]
      exact if_neg hnormal
    refine ⟨k.newton, Step.steepest J f, direction, image, bind_ok hproduct ?_⟩
    rw [steepest_toList, hmove]
    refine bind_ok (alone_toList Vec.normMax _) ?_
    rw [if_neg hgradient]
    refine bind_ok hdirection (bind_ok hcopied (bind_ok himage (bind_ok hcurvature ?_)))
    rw [if_neg hnormal]
    refine bind_ok hnewton ?_
    rw [hshortened]
    rfl

/-- The step is the chosen one. Where there is none, the buffer of the step is left alone. -/
theorem compute_of (tolerance : α) (factored : Option (Elimination α n)) (J : Mat α n)
    (f d step : Vec α n) (radius : α) (k : Workspace α n) :
    ∃ newton gradient cauchy image,
      Dogleg.compute (.of tolerance factored) ⟨n, J⟩ f.toList d.toList radius (.of k) step.toList =
        .ok (.of { k with newton, gradient, cauchy, image },
          ((Step.choose? ⟨tolerance, factored⟩ J f d radius).elim step Step.move).toList,
          (Step.choose? ⟨tolerance, factored⟩ J f d radius).map Step.kind) := by
  have hright : scale f.toList (-1) = f.neg.toList := scale_toList f (-1)
  cases factored with
  | none =>
    refine ⟨f.neg, k.gradient, k.cauchy, k.image, bind_ok (copyFrom_toList k.newton f) ?_⟩
    rw [hright]
    rfl
  | some e =>
    let p := e.solve f.neg
    have hsolved : (Factors.of tolerance (some e)).solve f.neg.toList =
        .ok (p.toList, p.isFinite) := by
      refine bind_ok (asVec_toList f.neg) rfl
    by_cases hfinite : p.isFinite = true
    · have hsolution : LinearSolver.solve? ⟨tolerance, some e⟩ f.neg = some p := if_pos hfinite
      by_cases hfits : p.scaledNorm d ≤ radius
      · have hchosen : Step.choose? ⟨tolerance, some e⟩ J f d radius = some ⟨.newtonFits, p⟩ := by
          rw [Step.choose?, hsolution]
          exact if_pos hfits
        refine ⟨p, k.gradient, k.cauchy, k.image, bind_ok (copyFrom_toList k.newton f) ?_⟩
        rw [hright, hchosen]
        refine bind_ok hsolved ?_
        dsimp only
        rw [hfinite]
        refine bind_ok (both_toList Vec.scaledNorm p d) ?_
        rw [if_pos hfits]
        exact bind_ok (copyFrom_toList step p) rfl
      · have hchosen : Step.choose? ⟨tolerance, some e⟩ J f d radius =
            some (Step.within J f d p radius) := by
          rw [Step.choose?, hsolution]
          exact if_neg hfits
        obtain ⟨newton, gradient, cauchy, image, hwithin⟩ :=
          within_of J f d step radius { k with newton := p }
        refine ⟨newton, gradient, cauchy, image, bind_ok (copyFrom_toList k.newton f) ?_⟩
        rw [hright, hchosen]
        refine bind_ok hsolved ?_
        dsimp only
        rw [hfinite]
        refine bind_ok (both_toList Vec.scaledNorm p d) ?_
        rw [if_neg hfits]
        exact bind_ok hwithin rfl
    · have hchosen : Step.choose? ⟨tolerance, some e⟩ J f d radius = none := by
        have hsolution : LinearSolver.solve? ⟨tolerance, some e⟩ f.neg = none := if_neg hfinite
        rw [Step.choose?, hsolution]
        rfl
      refine ⟨p, k.gradient, k.cauchy, k.image, bind_ok (copyFrom_toList k.newton f) ?_⟩
      rw [hright, hchosen]
      refine bind_ok hsolved ?_
      dsimp only
      rw [Bool.eq_false_of_not_eq_true hfinite]
      rfl

variable (c : Settings α)

theorem update_of (jac : Jacobian α n) (step df : Vec α n) (k : Workspace α n) :
    ∃ scratch, Estimator.update (.of c jac k) ⟨n, jac.matrix⟩ step.toList df.toList =
      .ok (.of c (jac.update step df) { k with scratch }, ⟨n, (jac.update step df).matrix⟩) := by
  by_cases hshort : Jacobian.isNegligible step = true
  · refine ⟨k.scratch, bind_ok (alone_toList Vec.normSquared step) ?_⟩
    rw [Jacobian.update, if_pos hshort]
    exact if_pos hshort
  · refine ⟨Jacobian.secantDefect jac.matrix step df,
      bind_ok (alone_toList Vec.normSquared step) ?_⟩
    rw [Jacobian.update, if_neg hshort]
    refine (if_neg hshort).trans ?_
    refine bind_ok (Square.times_toList jac.matrix Mat.mulVec step k.scratch) ?_
    refine bind_ok (both_toList _ df _) ?_
    exact bind_ok (Square.addRankOne_toList jac.matrix _ _ step) rfl

theorem grow_of (s : State α n) (k : Workspace α n) :
    Solver.grow (.of c s k) =
      .ok (.of c { s with scaling := State.grownScaling c s.scaling s.jacobian.matrix } k) := by
  by_cases hscaled : c.scaled = true
  · rw [State.grownScaling, if_pos hscaled]
    refine (if_pos hscaled).trans ?_
    exact bind_ok (both_toList _ s.scaling s.jacobian.matrix.columnNorms) rfl
  · rw [State.grownScaling, if_neg hscaled]
    exact if_neg hscaled

theorem accept_of (s : State α n) (k : Workspace α n)
    (htrial : k.trialX = s.x.addScaled 1 s.step) :
    ∃ k', Solver.accept (.of c s k) = .ok (.of c (s.advance c k.trialF) k') := by
  let df := (s.f.addScaled (-1) k.trialF).neg
  obtain ⟨scratch, hupdate⟩ := update_of c s.jacobian s.step df k
  -- The buffers on trial hold the old point and the change of the residuals from now on.
  refine ⟨{ k with trialX := s.x, trialF := df, scratch }, ?_⟩
  refine bind_ok (addScaled_toList (-1) s.f k.trialF) ?_
  rw [scale_toList]
  refine bind_ok hupdate ?_
  rw [State.advance, ← htrial]
  exact grow_of c { s with
    rejections := 0, x := k.trialX, f := k.trialF, jacobian := s.jacobian.update s.step df }
    { k with trialX := s.x, trialF := df, scratch }

def moved (s : State α n) (value : Vec α n) (accepted refreshed : Bool) : State α n :=
  if accepted then s.advance c value else s.stay refreshed

theorem move_of (s : State α n) (k : Workspace α n) (htrial : k.trialX = s.x.addScaled 1 s.step)
    (accepted refreshed : Bool) :
    ∃ k', Solver.move (.of c s k) accepted refreshed =
      .ok (.of c (moved c s k.trialF accepted refreshed) k') := by
  cases accepted with
  | true => exact accept_of c s k htrial
  | false => exact ⟨k, rfl⟩

theorem judgedRadius_eq (agreements : Nat) (radius ratio stepNorm : α) :
    State.judgedRadius c agreements radius ratio stepNorm =
      (State.clampRadius c (reachedRadius c agreements radius ratio stepNorm).1,
        (reachedRadius c agreements radius ratio stepNorm).2) := by
  by_cases hshrinks : ratio < c.shrinkThreshold
  · rw [State.judgedRadius, if_pos hshrinks, reachedRadius, if_pos hshrinks]
  · rw [State.judgedRadius, if_neg hshrinks, reachedRadius, if_neg hshrinks]

omit c in
theorem residualTest_eq_success_iff {f : Vec α n} {tolerance : α} :
    residualTest f tolerance = .success ↔ f.normOne ≤ tolerance := by
  by_cases hsmall : f.normOne ≤ tolerance <;> simp [residualTest, Verdict.ofBool, hsmall]

theorem verdict_eq (s : State α n) (accepted : Bool) :
    State.verdict c s accepted =
      if accepted && decide (s.f.normOne ≤ c.tolerance) then .success
      else if (!accepted && decide (s.radius ≤ c.minRadius)) || decide (c.slowLimit ≤ s.slow) then
        .noProgress
      else .running := by
  cases accepted <;> simp [State.verdict, residualTest_eq_success_iff]

def concluded (s : State α n) (gain : Gain α) (accepted : Bool) : State α n :=
  let s := { s with
    slow := if 1e-3 ≤ gain.actual then 0 else s.slow + 1
    iterations := s.iterations + 1 }
  { s with status := s.verdict c accepted }

theorem commit_eq (s : State α n) (t : Trial α n) (reached : α × Nat)
    (hreached : reached = reachedRadius c s.agreements t.radius t.gain.ratio t.stepNorm) :
    s.commit c t =
      concluded c
        (moved c { s with radius := State.clampRadius c reached.1, agreements := reached.2 } t.value
          t.accepted t.refreshed)
        t.gain t.accepted := by
  rw [State.commit, judgedRadius_eq, hreached]
  cases t.accepted <;> rfl

theorem conclude_of {c : Settings α} (hc : c.minRadius ≤ c.maxRadius) (s : State α n)
    (k : Workspace α n) (t : Trial α n) (hvalue : k.trialF = t.value)
    (htrial : k.trialX = s.x.addScaled 1 s.step) :
    ∃ k', Solver.conclude (.of c s k) t.gain t.stepNorm t.radius t.accepted t.refreshed =
      .ok (.of c (s.commit c t) k') := by
  let reached := reachedRadius c s.agreements t.radius t.gain.ratio t.stepNorm
  let s' : State α n := { s with radius := State.clampRadius c reached.1, agreements := reached.2 }
  obtain ⟨k', hmove⟩ := move_of c s' k htrial t.accepted t.refreshed
  refine ⟨k', bind_ok (clampRadius_eq hc reached.1) (bind_ok hmove ?_)⟩
  refine bind_ok (alone_toList Vec.normOne _) ?_
  rw [commit_eq c s t reached rfl, ← hvalue, concluded, verdict_eq]
  rfl

variable {σ : Type} {m : Type → Type} [Monad m] {T : Tracking σ m} {sys : Residuals σ α}
  {eqs : Equations m α n} (hsys : Writes T sys eqs)

omit c in
/-- What became of a refresh. The point on trial is still there afterwards. -/
inductive Refreshed (c : Settings α) (s : State α n) (k : Workspace α n) :
    Solver α × Option EvalError → Except EvalError (State α n) → Prop
  | ok (d : Differencing α n) (k' : Workspace α n) (hx : k'.trialX = k.trialX)
      (hf : k'.trialF = k.trialF) :
      Refreshed c s k (.of c (s.renewed c d) k', none) (.ok (s.renewed c d))
  | error (e : EvalError) (k' : Workspace α n) : Refreshed c s k (.of c s k', some e) (.error e)

include hsys in
theorem refresh_sim (s : State α n) (k : Workspace α n) :
    Sim T (Refreshed c s k) (Solver.refresh sys (.of c s k)) (State.refresh eqs c s) := by
  refine .bind (estimate_sim hsys c s.x s.f s.jacobian s.jacobian k k.trialJac s.evaluations) ?_
  rintro _ _ (⟨neighbour, residuals, scratch, jac, calls⟩ |
    ⟨e, neighbour, residuals, scratch, b, jac, calls, calls'⟩)
  · let k' := { k with trialJac := s.jacobian.matrix, neighbour, residuals, scratch }
    refine .lift (grow_of c { s with jacobian := jac, evaluations := s.evaluations + calls } k') ?_
    exact .pure (.ok ⟨jac, calls, none⟩ k' rfl rfl)
  · exact .pure (.error e { k with trialJac := b, neighbour, residuals, scratch })

section Factoring

variable [SingularValues α]

omit c in
/-- How the factors came about. With a Jacobian that is fit they are kept. -/
inductive Prepared (c : Settings α) (s : State α n) :
    Solver α × Except SolveError Bool → Except EvalError (Preparation α n) → Prop
  | error (e : EvalError) (k : Workspace α n) :
      Prepared c s (.of c s k, .error (.eval e)) (.error e)
  | undetermined (p : Preparation α n) (k : Workspace α n) (h : p.isUndetermined = true) :
      Prepared c s (.of c p.state k, .error .decomposition) (.ok p)
  | singular (p : Preparation α n) (k : Workspace α n) (h : p.isUndetermined = false)
      (hstep : p.step? = none) : Prepared c s (.of c p.state k, .ok false) (.ok p)
  | factored (p : Preparation α n) (k : Workspace α n) (h : p.isUndetermined = false)
      (hlinear : p.linear = ⟨c.singularTolerance, k.factored⟩) (hf : p.state.f = s.f) :
      Prepared c s (.of c p.state k, .ok true) (.ok p)

theorem factorOnce_accepted {s : State α n} (k : Workspace α n)
    (h : LinearSolver.refusal? c.singularTolerance s.jacobian.matrix = none) :
    Solver.factorOnce (.of c s k) =
      (.of c s { k with factored := some s.jacobian.matrix.eliminate }, .ok true) := by
  have hfactor : (Solver.of c s k).factors.factor (Solver.of c s k).jac =
      (.of c.singularTolerance (some s.jacobian.matrix.eliminate), none) := by
    rw [Factors.factor]
    dsimp only [Solver.of, Factors.of]
    rw [h]
    rfl
  rw [Solver.factorOnce, hfactor]
  rfl

theorem factorOnce_refused {s : State α n} (k : Workspace α n) {r : Refusal α}
    (h : LinearSolver.refusal? c.singularTolerance s.jacobian.matrix = some r) :
    Solver.factorOnce (.of c s k) =
      (.of c s { k with factored := none },
        if r.error = .jacobianSingular then .ok false else .error r.error) := by
  have hfactor : (Solver.of c s k).factors.factor (Solver.of c s k).jac =
      (⟨c.singularTolerance, none⟩, some r.error) := by
    rw [Factors.factor]
    dsimp only [Solver.of, Factors.of]
    rw [h]
  rw [Solver.factorOnce, hfactor]
  rfl

omit [Scalar α] [SingularValues α] in
theorem refusal_error_cases (r : Refusal α) :
    r.error = .jacobianSingular ∨ r.error = .decomposition := by
  cases r with
  | undetermined => exact .inr rfl
  | notFinite => exact .inl rfl
  | illConditioned => exact .inl rfl

omit [SingularValues α] in
theorem step?_of_forgotten {p : Preparation α n} (h : p.linear.factors = none) :
    p.step? = none := by
  rw [Preparation.step?, Step.choose?, LinearSolver.solve?, h]
  rfl

theorem factorOnce_of {s₀ : State α n} (p : Preparation α n) (k : Workspace α n)
    (hf : p.state.f = s₀.f) (hlinear : p.linear = (p.state.factored c).1)
    (hfinal : p.finalRefusal? = (p.state.factored c).2) :
    Prepared c s₀ (Solver.factorOnce (.of c p.state k)) (.ok p) := by
  rw [State.factored, LinearSolver.factor] at hlinear hfinal
  cases hr : LinearSolver.refusal? c.singularTolerance p.state.jacobian.matrix with
  | none =>
    rw [hr] at hlinear hfinal
    have hdetermined : p.isUndetermined = false := by
      rw [Preparation.isUndetermined, hfinal]
      rfl
    rw [factorOnce_accepted c k hr]
    exact .factored p { k with factored := some _ } hdetermined hlinear hf
  | some r =>
    rw [hr] at hlinear hfinal
    rw [factorOnce_refused c k hr]
    have hundetermined : p.isUndetermined = decide (r.error = .decomposition) := by
      rw [Preparation.isUndetermined, hfinal]
      simp
    by_cases hsingular : r.error = .jacobianSingular
    · rw [if_pos hsingular]
      refine .singular p { k with factored := none } ?_ (step?_of_forgotten ?_)
      · rw [hundetermined, hsingular]
        rfl
      · rw [hlinear]
    · have hdecomposition := (refusal_error_cases r).resolve_left hsingular
      rw [if_neg hsingular, hdecomposition]
      refine .undetermined p { k with factored := none } ?_
      rw [hundetermined, hdecomposition]
      rfl

include hsys in
theorem factor_sim (s : State α n) (k : Workspace α n) :
    Sim T (Prepared c s) (Solver.factor sys (.of c s k)) (State.prepare eqs c s) := by
  have hasIs : Prepared c s (Solver.factorOnce (.of c s k)) (.ok (s.preparedAsIs c)) :=
    factorOnce_of c (s.preparedAsIs c) k rfl rfl rfl
  rw [State.prepare_eq, Solver.factor]
  have hmust : s.mustRecompute c = (!s.jacobian.fresh &&
      (s.factored c).2.any fun refusal => decide (refusal.error ≠ .decomposition)) := rfl
  rw [State.factored, LinearSolver.factor] at hmust
  dsimp only [State.preparedAsIs] at hasIs
  cases hr : LinearSolver.refusal? c.singularTolerance s.jacobian.matrix with
  | none =>
    rw [hr] at hmust
    have hno : ¬ s.mustRecompute c = true := by simp [hmust]
    rw [factorOnce_accepted c k hr] at hasIs ⊢
    rw [if_neg hno]
    exact .pure hasIs
  | some r =>
    rw [hr] at hmust
    rw [factorOnce_refused c k hr] at hasIs ⊢
    by_cases hsingular : r.error = .jacobianSingular
    · rw [if_pos hsingular] at hasIs ⊢
      cases hfresh : s.jacobian.fresh with
      | true =>
        have hno : ¬ s.mustRecompute c = true := by simp [hmust, hfresh]
        have hkept : (Solver.of c s { k with factored := none }).estimator.fresh = true := hfresh
        dsimp only
        rw [if_neg hno, if_pos hkept]
        exact .pure hasIs
      | false =>
        have hyes : s.mustRecompute c = true := by simp [hmust, hfresh, hsingular]
        have hkept : ¬ (Solver.of c s { k with factored := none }).estimator.fresh = true := by
          rw [Bool.not_eq_true]
          exact hfresh
        dsimp only
        rw [if_pos hyes, if_neg hkept]
        refine .bind (refresh_sim c hsys s { k with factored := none }) ?_
        rintro _ _ (⟨d, k', -, -⟩ | ⟨e, k'⟩)
        · have hanew : Prepared c s (Solver.factorOnce (.of c (s.renewed c d) k'))
              (.ok (s.preparedAnew c (s.renewed c d))) :=
            factorOnce_of c (s.preparedAnew c (s.renewed c d)) k' rfl rfl rfl
          exact .pure hanew
        · exact .pure (.error e k')
    · have hdecomposition := (refusal_error_cases r).resolve_left hsingular
      have hno : ¬ s.mustRecompute c = true := by simp [hmust, hdecomposition]
      rw [if_neg hsingular] at hasIs ⊢
      rw [if_neg hno]
      exact .pure hasIs

end Factoring

omit c in
/-- The solver shows the state after the attempt, and the caller is told the same. -/
def Iterated (c : Settings α) (b : Solver α × Except SolveError Status) (a : Attempt α n) : Prop :=
  (∃ k, b.1 = .of c a.state k) ∧ b.2 = a.answer

theorem boundedRadius_of {c : Settings α} (hc : c.minRadius ≤ c.maxRadius) (s : State α n)
    (k : Workspace α n) (stepNorm : α) :
    Solver.boundedRadius (.of c s k) stepNorm = .ok (s.boundedRadius c stepNorm) := by
  by_cases hfirst : s.iterations = 0 ∧ stepNorm < s.radius
  · rw [State.boundedRadius, if_pos hfirst]
    exact (if_pos hfirst).trans (clampRadius_eq hc stepNorm)
  · rw [State.boundedRadius, if_neg hfirst]
    exact if_neg hfirst

include hsys in
theorem tryStep_sim {c : Settings α} (hc : c.minRadius ≤ c.maxRadius) (p : Preparation α n)
    (step : Step α n) (k : Workspace α n) :
    Sim T (Iterated c) (Solver.tryStep sys (.of c (p.state.propose step) k) p.state.f.norm)
      (State.tryStep eqs c p step) := by
  let s := p.state.propose step
  let x := s.x.addScaled 1 step.move
  refine .lift (both_toList Vec.scaledNorm step.move s.scaling) ?_
  refine .lift (boundedRadius_of hc s k _) ?_
  refine .lift (copyFrom_toList k.trialX s.x) (.lift (addScaled_toList 1 s.x step.move) ?_)
  refine .bind (hsys.evaluateInto x k.trialF) ?_
  rintro _ _ (value | ⟨e, left⟩)
  · let model := (s.jacobian.matrix.mulVec step.move).addScaled 1 s.f
    let trial := s.counted.judge c step value
    let k' := { k with trialX := x, trialF := value, model }
    refine .lift (alone_toList Vec.isFinite value) (.lift (alone_toList Vec.norm value) ?_)
    refine .lift (Square.times_toList s.jacobian.matrix Mat.mulVec step.move k.model) ?_
    refine .lift (addScaled_toList 1 _ s.f) (.lift (alone_toList Vec.norm model) ?_)
    -- A refresh leaves the trial point where it is, and the judgement does not look at it again.
    change Sim T (Iterated c) (if trial.refreshed = true then _ else _)
      (if trial.refreshed = true then _ else _)
    by_cases hrefreshed : trial.refreshed = true
    · rw [if_pos hrefreshed, if_pos hrefreshed]
      refine .bind (refresh_sim c hsys s.counted k') ?_
      rintro _ _ (⟨d, k'', hx, hf⟩ | ⟨e, k''⟩)
      · obtain ⟨left, hconclude⟩ :=
          conclude_of hc (s.counted.renewed c d) k'' trial hf hx
        refine .lift hconclude (.pure ⟨⟨left, rfl⟩, rfl⟩)
      · exact .pure ⟨⟨k'', rfl⟩, rfl⟩
    · rw [if_neg hrefreshed, if_neg hrefreshed]
      obtain ⟨left, hconclude⟩ := conclude_of hc s.counted k' trial rfl rfl
      refine .lift hconclude (.pure ⟨⟨left, rfl⟩, rfl⟩)
  · exact .pure ⟨⟨{ k with trialX := x, trialF := left }, rfl⟩, rfl⟩

include hsys in
theorem iterate_sim [SingularValues α] {c : Settings α} (hc : c.minRadius ≤ c.maxRadius)
    (s : State α n) (k : Workspace α n) :
    Sim T (Iterated c) (Solver.iterate sys (.of c s k)) (State.iterate eqs c s) := by
  let b := Solver.of c s k
  rw [State.iterate, Solver.iterate]
  by_cases hterminal : s.status.isTerminal = true
  · rw [if_pos hterminal, if_pos (show b.status.isTerminal = true from hterminal)]
    exact .pure ⟨⟨k, rfl⟩, rfl⟩
  rw [if_neg hterminal, if_neg (show ¬ b.status.isTerminal = true from hterminal)]
  by_cases hspent : c.maxIterations ≤ s.iterations
  · rw [if_pos hspent, if_pos (show b.settings.maxIterations ≤ b.iterations from hspent)]
    exact .pure ⟨⟨k, rfl⟩, rfl⟩
  rw [if_neg hspent, if_neg (show ¬ b.settings.maxIterations ≤ b.iterations from hspent)]
  refine .lift (alone_toList Vec.norm s.f) ?_
  by_cases hroot : (s.f.norm == 0) = true
  · rw [if_pos hroot, if_pos hroot]
    exact .pure ⟨⟨k, rfl⟩, rfl⟩
  rw [if_neg hroot, if_neg hroot]
  refine .bind (factor_sim c hsys s k) ?_
  rintro _ _ (⟨e, k'⟩ | ⟨p, k', h⟩ | ⟨p, k', h, hstep⟩ | ⟨p, k', h, hlinear, hf⟩)
  · exact .pure ⟨⟨k', rfl⟩, rfl⟩
  · dsimp only
    rw [if_pos h]
    exact .pure ⟨⟨k', rfl⟩, rfl⟩
  · dsimp only
    rw [h, hstep]
    exact .pure ⟨⟨k', rfl⟩, rfl⟩
  · dsimp only
    rw [h]
    obtain ⟨newton, gradient, cauchy, image, hcompute⟩ :=
      compute_of c.singularTolerance k'.factored p.state.jacobian.matrix p.state.f p.state.scaling
        p.state.step p.state.radius k'
    refine .lift hcompute ?_
    rw [← hlinear, ← hf, ← Preparation.step?]
    cases p.step? with
    | none => exact .pure ⟨⟨{ k' with newton, gradient, cauchy, image }, rfl⟩, rfl⟩
    | some step => exact tryStep_sim hsys hc p step { k' with newton, gradient, cauchy, image }

end InPlace

end RootFinder
