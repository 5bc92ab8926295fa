import RootFinder.Proofs.Freshness

/-! When a run is given up as singular. A Jacobian that is refused when it is to be factored has
been differenced at the point of the run: one that carried updates is differenced anew first, and
a stale one that is still called fresh has been factored before. But the equations of a Jacobian
that could be factored may have a solution that is not finite; then the run is given up too,
whether or not the Jacobian carries updates. -/

namespace RootFinder

variable {σ α : Type} [Scalar α] {n : Nat}

namespace State

variable [SingularValues α] {sys : Equations (StateM σ) α n}
  {F : Vec α n → Except EvalError (Vec α n)} {c : Settings α} {s : State α n} {w w' : σ}

omit [SingularValues α] in
theorem Anchored.differences (h : Anchored sys F c s) (hfresh : s.jacobian.fresh = true)
    (hstale : s.jacobian.stale = false) :
    sys.Differences c.differenceStep s.x s.f s.jacobian.matrix := by
  obtain ⟨x, f, hf, hdifferences, hdrift⟩ := h.differenced hfresh
  have hx := hdrift.eq_of_not_stale hstale
  subst hx
  have hsame := h.answers
  rw [hf] at hsame
  cases hsame
  exact hdifferences

/-- A Jacobian that is stale and called fresh has been factored. -/
def FactoredIfStale (c : Settings α) (s : State α n) : Prop :=
  s.jacobian.fresh = true → s.jacobian.stale = true →
    LinearSolver.refusal? c.singularTolerance s.jacobian.matrix = none

omit [SingularValues α] in
theorem refresh_not_stale {r : State α n} (h : (s.refresh sys c).run w = (.ok r, w')) :
    r.jacobian.stale = false := by
  obtain ⟨d, hd, hf, rfl⟩ := refresh_eq_ok h
  obtain ⟨a, count, rfl, -⟩ := Jacobian.difference_eq_ok hd hf
  rfl

theorem factoredIfStale_of_not_stale (h : s.jacobian.stale = false) : s.FactoredIfStale c := by
  intro _ hstale
  rw [h] at hstale
  cases hstale

theorem commit_factoredIfStale {t : Trial α n}
    (h : LinearSolver.refusal? c.singularTolerance s.jacobian.matrix = none) :
    (s.commit c t).FactoredIfStale c := by
  intro hfresh _
  cases haccepted : t.accepted with
  | true =>
    rw [commit_jacobian, if_pos haccepted] at hfresh ⊢
    obtain ⟨-, -, hleft⟩ := Jacobian.update_of_fresh hfresh
    rw [hleft]
    exact h
  | false =>
    rw [commit_jacobian, haccepted]
    exact h

theorem tryStep_factoredIfStale {p : Preparation α n} {step : Step α n} {a : Attempt α n}
    (hp : LinearSolver.refusal? c.singularTolerance p.state.jacobian.matrix = none)
    (h : (tryStep sys c p step).run w = (a, w')) : a.state.FactoredIfStale c := by
  cases tryStep_tries h with
  | failed => exact fun _ _ => hp
  | unrefreshed => exact fun _ _ => hp
  | judged => exact commit_factoredIfStale hp
  | refreshed _ hr hf =>
    refine factoredIfStale_of_not_stale ?_
    rw [commit_jacobian, not_accepted_of_refreshed hr]
    exact refresh_not_stale hf

theorem Reachable.factoredIfStale (h : s.Reachable sys c) : s.FactoredIfStale c := by
  refine h.invariant ?_ ?_
  · intro point w s w' hstart
    obtain ⟨x, f, d, v, -, -, -, hd, hf, rfl⟩ := start_eq_ok hstart
    obtain ⟨a, count, rfl, -⟩ := Jacobian.difference_eq_ok hd hf
    exact factoredIfStale_of_not_stale rfl
  · intro s w a w' hs hiterate
    refine iterate_keeps hiterate hs ?_ ?_ ?_
    · exact fun r v v' hr => factoredIfStale_of_not_stale (refresh_not_stale hr)
    · exact fun t status ht => ht
    · rintro p step v b v' - hstep ⟨u, hp⟩ ht
      exact tryStep_factoredIfStale (factored_of_step? hp hstep).1 ht

omit [SingularValues α] in
theorem commit_status_ne_singular (t : Trial α n) :
    (s.commit c t).status ≠ .jacobianSingular := by
  rw [commit_status, verdict]
  split
  · decide
  · split <;> decide

theorem singular_of_status {a : Attempt α n} (hs : s.status = .running)
    (h : (s.iterate sys c).run w = (a, w')) (ha : a.state.status = .jacobianSingular) :
    ∃ p, a = ⟨{ p.state with status := .jacobianSingular }, .ok (.singular p)⟩ ∧
      (s.prepare sys c).run w = (.ok p, w') ∧ p.isUndetermined = false ∧ p.step? = none := by
  cases iterate_iterates h with
  | ended hend => exact absurd hs hend
  | exhausted => cases ha
  | atRoot => cases ha
  | unprepared =>
    rw [hs] at ha
    cases ha
  | undetermined _ hp =>
    rw [(prepare_samePlace hp).status, hs] at ha
    cases ha
  | singular _ hp hd hstep => exact ⟨_, rfl, hp, hd, hstep⟩
  | @tried p step _ _ _ _ hp _ _ ht =>
    have hrunning := (prepare_samePlace hp).status.trans hs
    cases tryStep_tries ht with
    | failed =>
      rw [(propose_samePlace p.state step).status, hrunning] at ha
      cases ha
    | unrefreshed =>
      rw [(tested_samePlace p step).status, hrunning] at ha
      cases ha
    | judged => exact absurd ha (commit_status_ne_singular _)
    | refreshed => exact absurd ha (commit_status_ne_singular _)

theorem prepared_fresh {p : Preparation α n} (h : (s.prepare sys c).run w = (.ok p, w'))
    (hd : p.isUndetermined = false)
    (hrefused : LinearSolver.refusal? c.singularTolerance p.state.jacobian.matrix ≠ none) :
    p.state.jacobian.fresh = true := by
  obtain ⟨r, hr⟩ := Option.ne_none_iff_exists'.mp hrefused
  have hfinal : p.finalRefusal? = some r := by
    rw [(prepare_factored h).2, factored, LinearSolver.factor, hr]
  cases prepare_prepares h with
  | anew _ hrefresh => exact refresh_fresh hrefresh
  | asIs hkept =>
    have hrefusal : (s.factored c).2 = some r := hfinal
    simp only [Preparation.isUndetermined, hfinal, Option.map_some, decide_eq_false_iff_not,
      Option.some.injEq] at hd
    change s.jacobian.fresh = true
    simpa [mustRecompute, hrefusal, hd] using hkept

end State

/-- Two equations, of which the first does not depend on anything from one half on. -/
def plateau (x : Vec Float 2) : Except EvalError (Vec Float 2) :=
  let u := Vec.first x
  let v := Vec.first (Vec.tail x)
  .ok (Vector.mk #[if u < 0.5 then u - 1 else -1.25, 2 * v - 1] rfl)

/-- Very far out both equations are all but flat, the second a little more than the first; nearer,
neither depends on anything. -/
def lowlands (x : Vec Float 2) : Except EvalError (Vec Float 2) :=
  let u := Vec.first x
  let v := Vec.first (Vec.tail x)
  if 0 ≤ u - 5.617791046444737e306 then
    .ok (Vector.mk #[2.983336292480083e-154 * u, 1.1653657392500323e-156 * v] rfl)
  else .ok (Vector.mk #[0, 1.6759759912428246e153] rfl)

/-- The region is measured in units of the columns and may be very large. -/
def Settings.spacious : Settings Float :=
  { Settings.standard with scaled := true, maxRadius := 1e200 }

def givesUpNext (sys : Equations (StateM Nat) Float 2) (c : Settings Float)
    (P : State Float 2 → Nat → Bool) (s : State Float 2) (w : Nat) : Bool :=
  let (a, v) := (s.iterate sys c).run w
  decide (s.status = .running ∧ a.state.status = .jacobianSingular) && P a.state v

namespace State

variable [SingularValues α] {sys : Equations (StateM σ) α n}
  {F : Vec α n → Except EvalError (Vec α n)} {c : Settings α} {s : State α n} {w w' : σ}

/-- A run is given up as singular with a Jacobian that has been differenced at its point, if the
Jacobian is one that is refused. If it is not refused, the Newton step is not finite. -/
theorem singular_verdict_differenced (hsys : sys.IsPure F) (hs : s.Reachable sys c)
    (hrunning : s.status = .running) {a : Attempt α n} (h : (s.iterate sys c).run w = (a, w'))
    (ha : a.state.status = .jacobianSingular) :
    (LinearSolver.refusal? c.singularTolerance a.state.jacobian.matrix ≠ none ∨
        a.state.jacobian.fresh = true ∧ a.state.jacobian.stale = false →
      sys.Differences c.differenceStep a.state.x a.state.f a.state.jacobian.matrix) ∧
    (LinearSolver.refusal? c.singularTolerance a.state.jacobian.matrix = none →
      (a.state.jacobian.matrix.eliminate.solve a.state.f.neg).isFinite = false) := by
  have hreached := hs.iterate h
  obtain ⟨p, rfl, hp, hd, hstep⟩ := singular_of_status hrunning h ha
  constructor
  · intro hcondition
    have hfresh : p.state.jacobian.fresh = true ∧ p.state.jacobian.stale = false := by
      rcases hcondition with hrefused | hfresh
      · have hfresh := prepared_fresh hp hd hrefused
        -- What made it stale is a step, which was found because it could be factored.
        refine ⟨hfresh, ?_⟩
        cases hstale : p.state.jacobian.stale with
        | false => rfl
        | true => exact absurd (hreached.factoredIfStale hfresh hstale) hrefused
      · exact hfresh
    exact (hreached.anchored hsys).differences hfresh.1 hfresh.2
  · intro hfactored
    have hfactors : p.linear.factors = some p.state.jacobian.matrix.eliminate := by
      rw [(prepare_factored hp).1, factored, LinearSolver.factor, hfactored]
    cases hfinite : (p.state.jacobian.matrix.eliminate.solve p.state.f.neg).isFinite with
    | false => rfl
    | true =>
      rw [Preparation.step?, Step.choose?, LinearSolver.solve?, hfactors] at hstep
      simp only [Option.bind_eq_bind, Option.bind_some, hfinite, if_true] at hstep
      split at hstep <;> cases hstep

/-- The secant update across the jump leaves a singular Jacobian; it is differenced anew, and the
new one is refused too. -/
theorem singular_verdict_differenced_plateau :
    ∃ (s : State Float 2) (w w' : Nat) (a : Attempt Float 2),
      s.Reachable (interrupted [] plateau) .standard ∧ s.status = .running ∧
      s.jacobian.fresh = false ∧
      (s.iterate (interrupted [] plateau) .standard).run w = (a, w') ∧
      a.state.status = .jacobianSingular ∧
      (interrupted [] plateau).Differences Settings.standard.differenceStep a.state.x a.state.f
        a.state.jacobian.matrix := by
  obtain ⟨s, w, hs, h⟩ := exists_reachable (interrupted [] plateau) .standard [0, 0] 1 0
    (fun s w => !s.jacobian.fresh && givesUpNext (interrupted [] plateau) .standard
      (fun t _ => (LinearSolver.refusal? Settings.standard.singularTolerance
        t.jacobian.matrix).isSome) s w)
    (by decide +kernel)
  obtain ⟨a, v, ha⟩ := exists_run (s.iterate (interrupted [] plateau) .standard) w
  simp only [givesUpNext, ha, Bool.and_eq_true, Bool.not_eq_true', decide_eq_true_iff] at h
  obtain ⟨hupdated, ⟨hrunning, hsingular⟩, hrefused⟩ := h
  obtain ⟨hdifferenced, -⟩ :=
    singular_verdict_differenced (interrupted_isPure plateau) hs hrunning ha hsingular
  exact ⟨s, w, v, a, hs, hrunning, hupdated, ha, hsingular,
    hdifferenced (.inl (Option.isSome_iff_ne_none.mp hrefused))⟩

end State

/-- The square of the first step is out of range, so its secant update leaves every entry as it
was. The second Newton step is not finite: the run is given up as singular although the Jacobian is
not the one at its point. -/
theorem singular_verdict_may_be_updated :
    ∃ (s : State Float 2) (w w' : Nat) (a : Attempt Float 2),
      s.Reachable (interrupted [] lowlands) .spacious ∧ s.status = .running ∧
      (s.iterate (interrupted [] lowlands) .spacious).run w = (a, w') ∧
      a.state.status = .jacobianSingular ∧ a.state.jacobian.fresh = false ∧
      ¬ (interrupted [] lowlands).Differences Settings.spacious.differenceStep a.state.x a.state.f
        a.state.jacobian.matrix := by
  obtain ⟨s, w, hs, h⟩ := State.exists_reachable (interrupted [] lowlands) .spacious
    [1.1235582092889474e307, 0] 1 0
    (givesUpNext (interrupted [] lowlands) .spacious fun t v =>
      decide (t.jacobian.fresh = false ∧ 0 < t.jacobian.matrix.entry 0 0 ∧
        ¬ 0 < ((t.jacobian.difference (interrupted [] lowlands) Settings.spacious.differenceStep t.x
          t.f).run v).1.jacobian.matrix.entry 0 0))
    (by decide +kernel)
  obtain ⟨a, v, ha⟩ := exists_run (s.iterate (interrupted [] lowlands) .spacious) w
  simp only [givesUpNext, ha, Bool.and_eq_true, decide_eq_true_iff] at h
  obtain ⟨⟨hrunning, hsingular⟩, hupdated, hkept, hanew⟩ := h
  refine ⟨s, w, v, a, hs, hrunning, ha, hsingular, hupdated, ?_⟩
  intro hdifferences
  rw [hdifferences] at hanew
  exact hanew hkept

end RootFinder
