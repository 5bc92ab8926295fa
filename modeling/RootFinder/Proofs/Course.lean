import RootFinder.Iteration

/-! The courses an iteration can take. The system has a hidden state, so that its calls may fail in
any pattern; each course records the calls that were made and what they answered. Every other fact
about an iteration is read off its course. -/

namespace RootFinder

variable {σ α : Type} [Scalar α] {n : Nat}

theorem exists_run {β : Type} (x : StateM σ β) (w : σ) : ∃ a w', x.run w = (a, w') :=
  ⟨_, _, rfl⟩

theorem run_bind_of_eq {β γ : Type} {x : StateM σ β} {f : β → StateM σ γ} {a : β} {w w' : σ}
    (h : x.run w = (a, w')) : (x >>= f).run w = (f a).run w' := by
  rw [StateT.run_bind, h]
  rfl

theorem Jacobian.difference_eq_ok {sys : Equations (StateM σ) α n} {relative : α}
    {jac : Jacobian α n} {x f : Vec α n} {w w' : σ} {d : Differencing α n}
    (h : (jac.difference sys relative x f).run w = (d, w')) (hf : d.failure = none) :
    ∃ a count, d = ⟨⟨a, true, false⟩, count, none⟩ ∧
      (differenceColumns sys relative x f (List.finRange n) jac.matrix).run w =
        ((a, count, none), w') := by
  obtain ⟨⟨a, count, failure⟩, v, hd⟩ :=
    exists_run (differenceColumns sys relative x f (List.finRange n) jac.matrix) w
  rw [difference, run_bind_of_eq hd] at h
  cases failure with
  | some e =>
    cases h
    simp at hf
  | none =>
    cases h
    exact ⟨a, count, rfl, hd⟩

theorem Jacobian.differenceColumns_eq_error {sys : Equations (StateM σ) α n} {relative : α}
    {x f : Vec α n} {js : List (Fin n)} {a b : Mat α n} {count : Nat} {e : EvalError} {w w' : σ}
    (h : (differenceColumns sys relative x f js a).run w = ((b, count, some e), w')) :
    ∃ j v, (sys (neighbour relative x j)).run v = (.error e, w') := by
  induction js generalizing a count w with
  | nil => cases h
  | cons j js ih =>
    obtain ⟨answer, v, hcall⟩ := exists_run (sys (neighbour relative x j)) w
    rw [differenceColumns, run_bind_of_eq hcall] at h
    cases answer with
    | error e' =>
      cases h
      exact ⟨j, w, hcall⟩
    | ok g =>
      obtain ⟨⟨b', count', failure⟩, v', hrest⟩ := exists_run (differenceColumns sys relative x f js
        (a.setColumn j (slopes (increment relative (x.get j)) f g))) v
      change (differenceColumns sys relative x f js _ >>= _).run v = _ at h
      rw [run_bind_of_eq hrest] at h
      cases h
      exact ih hrest

theorem Jacobian.difference_eq_error {sys : Equations (StateM σ) α n} {relative : α}
    {jac : Jacobian α n} {x f : Vec α n} {w w' : σ} {d : Differencing α n} {e : EvalError}
    (h : (jac.difference sys relative x f).run w = (d, w')) (hf : d.failure = some e) :
    ∃ j v, (sys (neighbour relative x j)).run v = (.error e, w') := by
  obtain ⟨⟨a, count, failure⟩, v, hd⟩ :=
    exists_run (differenceColumns sys relative x f (List.finRange n) jac.matrix) w
  rw [difference, run_bind_of_eq hd] at h
  cases failure with
  | none =>
    cases h
    simp at hf
  | some e' =>
    cases h
    cases hf
    exact differenceColumns_eq_error hd

namespace State

theorem refresh_eq_ok {sys : Equations (StateM σ) α n} {c : Settings α} {s r : State α n}
    {w w' : σ} (h : (s.refresh sys c).run w = (.ok r, w')) :
    ∃ d, (s.jacobian.difference sys c.differenceStep s.x s.f).run w = (d, w') ∧
      d.failure = none ∧ r = s.renewed c d := by
  obtain ⟨d, v, hd⟩ := exists_run (s.jacobian.difference sys c.differenceStep s.x s.f) w
  rw [refresh, run_bind_of_eq hd] at h
  cases hf : d.failure with
  | some e =>
    simp only [hf] at h
    cases h
  | none =>
    simp only [hf] at h
    cases h
    exact ⟨d, hd, hf, rfl⟩

theorem refresh_fresh {sys : Equations (StateM σ) α n} {c : Settings α} {s r : State α n}
    {w w' : σ} (h : (s.refresh sys c).run w = (.ok r, w')) : r.jacobian.fresh = true := by
  obtain ⟨d, hd, hf, rfl⟩ := refresh_eq_ok h
  obtain ⟨a, count, rfl, -⟩ := Jacobian.difference_eq_ok hd hf
  rfl

/-- A refresh that fails ends with a call that failed at a neighbour of the point. -/
theorem refresh_eq_error {sys : Equations (StateM σ) α n} {c : Settings α} {s : State α n}
    {w w' : σ} {e : EvalError} (h : (s.refresh sys c).run w = (.error e, w')) :
    ∃ j v, (sys (Jacobian.neighbour c.differenceStep s.x j)).run v = (.error e, w') := by
  obtain ⟨d, v, hd⟩ := exists_run (s.jacobian.difference sys c.differenceStep s.x s.f) w
  rw [refresh, run_bind_of_eq hd] at h
  cases hf : d.failure with
  | none =>
    simp only [hf] at h
    cases h
  | some e' =>
    simp only [hf] at h
    cases h
    exact Jacobian.difference_eq_error hd hf

/-- The states differ at most in the Jacobian, the scaling, the last step and the evaluations. -/
structure SamePlace (s t : State α n) : Prop where
  x : t.x = s.x
  f : t.f = s.f
  radius : t.radius = s.radius
  iterations : t.iterations = s.iterations
  rejections : t.rejections = s.rejections
  agreements : t.agreements = s.agreements
  slow : t.slow = s.slow
  status : t.status = s.status

omit [Scalar α] in
theorem SamePlace.refl (s : State α n) : SamePlace s s :=
  ⟨rfl, rfl, rfl, rfl, rfl, rfl, rfl, rfl⟩

omit [Scalar α] in
theorem SamePlace.trans {s t u : State α n} (h : SamePlace s t) (h' : SamePlace t u) :
    SamePlace s u where
  x := h'.x.trans h.x
  f := h'.f.trans h.f
  radius := h'.radius.trans h.radius
  iterations := h'.iterations.trans h.iterations
  rejections := h'.rejections.trans h.rejections
  agreements := h'.agreements.trans h.agreements
  slow := h'.slow.trans h.slow
  status := h'.status.trans h.status

omit [Scalar α] in
theorem SamePlace.withStatus {s t : State α n} (h : SamePlace s t) (status : Status) :
    SamePlace { s with status } { t with status } :=
  ⟨h.x, h.f, h.radius, h.iterations, h.rejections, h.agreements, h.slow, rfl⟩

theorem refresh_samePlace {sys : Equations (StateM σ) α n} {c : Settings α} {s r : State α n}
    {w w' : σ} (h : (s.refresh sys c).run w = (.ok r, w')) : SamePlace s r := by
  obtain ⟨d, -, -, rfl⟩ := refresh_eq_ok h
  exact ⟨rfl, rfl, rfl, rfl, rfl, rfl, rfl, rfl⟩

variable [SingularValues α]

def factored (c : Settings α) (s : State α n) : LinearSolver α n × Option (Refusal α) :=
  ({ tolerance := c.singularTolerance } : LinearSolver α n).factor s.jacobian.matrix

/-- A Jacobian that counts as singular and carries updates is differenced anew. -/
def mustRecompute (c : Settings α) (s : State α n) : Bool :=
  !s.jacobian.fresh && (s.factored c).2.any fun refusal => decide (refusal.error ≠ .decomposition)

def preparedAsIs (c : Settings α) (s : State α n) : Preparation α n :=
  ⟨s, (s.factored c).1, (s.factored c).2, none⟩

def preparedAnew (c : Settings α) (s r : State α n) : Preparation α n :=
  ⟨r, (r.factored c).1, (s.factored c).2, some ⟨s.jacobian.stale, (r.factored c).2⟩⟩

theorem factor_factored (c : Settings α) (s r : State α n) :
    (s.factored c).1.factor r.jacobian.matrix = r.factored c := by
  unfold factored LinearSolver.factor
  cases LinearSolver.refusal? c.singularTolerance s.jacobian.matrix <;> rfl

theorem factored_of_solve? {c : Settings α} {s : State α n} {b x : Vec α n}
    (h : (s.factored c).1.solve? b = some x) : (s.factored c).2 = none := by
  unfold factored LinearSolver.factor at h ⊢
  cases hr : LinearSolver.refusal? c.singularTolerance s.jacobian.matrix with
  | none => simp
  | some r => simp [hr, LinearSolver.solve?] at h

theorem prepare_eq {m : Type → Type} [Monad m] (sys : Equations m α n) (c : Settings α)
    (s : State α n) :
    s.prepare sys c =
      if s.mustRecompute c then do
        match ← s.refresh sys c with
        | .error e => pure (.error e)
        | .ok r => pure (.ok (s.preparedAnew c r))
      else pure (.ok (s.preparedAsIs c)) := by
  have hf (r : State α n) := factor_factored c s r
  unfold mustRecompute preparedAsIs preparedAnew
  cases hl : s.factored c with
  | mk linear refusal =>
    simp only [hl] at hf
    unfold factored at hl
    cases refusal with
    | none => simp only [prepare, hl, Option.any_none, Bool.and_false, Bool.false_eq_true, if_false]
    | some refusal =>
      simp only [prepare, hl]
      by_cases h : s.jacobian.fresh ∨ refusal.error = .decomposition
      · have hm : (!s.jacobian.fresh && decide (refusal.error ≠ .decomposition)) = false := by
          rcases h with h | h <;> simp [h]
        simp only [if_pos h, Option.any_some, hm, Bool.false_eq_true, if_false]
      · have hm : (!s.jacobian.fresh && decide (refusal.error ≠ .decomposition)) = true := by
          simpa using h
        simp only [Option.any_some, hm, if_true, hf]
        exact if_neg h

inductive Prepares (sys : Equations (StateM σ) α n) (c : Settings α) (s : State α n) (w : σ) :
    Except EvalError (Preparation α n) → σ → Prop
  | asIs (h : s.mustRecompute c = false) : Prepares sys c s w (.ok (s.preparedAsIs c)) w
  | anew {r : State α n} {w' : σ} (h : s.mustRecompute c = true)
      (hr : (s.refresh sys c).run w = (.ok r, w')) :
      Prepares sys c s w (.ok (s.preparedAnew c r)) w'
  | failed {e : EvalError} {w' : σ} (h : s.mustRecompute c = true)
      (hr : (s.refresh sys c).run w = (.error e, w')) : Prepares sys c s w (.error e) w'

theorem prepare_prepares {sys : Equations (StateM σ) α n} {c : Settings α} {s : State α n}
    {w w' : σ} {result : Except EvalError (Preparation α n)}
    (h : (s.prepare sys c).run w = (result, w')) : Prepares sys c s w result w' := by
  rw [prepare_eq] at h
  cases hm : s.mustRecompute c with
  | false =>
    simp only [hm] at h
    cases h
    exact .asIs hm
  | true =>
    simp only [hm, if_true] at h
    obtain ⟨answer, v, hr⟩ := exists_run (s.refresh sys c) w
    rw [run_bind_of_eq hr] at h
    cases answer with
    | error e =>
      cases h
      exact .failed hm hr
    | ok r =>
      cases h
      exact .anew hm hr

theorem Prepares.run {sys : Equations (StateM σ) α n} {c : Settings α} {s : State α n}
    {w w' : σ} {result : Except EvalError (Preparation α n)}
    (h : Prepares sys c s w result w') : (s.prepare sys c).run w = (result, w') := by
  rw [prepare_eq]
  cases h with
  | asIs hm =>
    simp only [hm]
    rfl
  | anew hm hr =>
    simp only [hm, if_true]
    rw [run_bind_of_eq hr]
    rfl
  | failed hm hr =>
    simp only [hm, if_true]
    rw [run_bind_of_eq hr]
    rfl

/-- What is factored last is the Jacobian that a step is looked for with. -/
theorem prepare_factored {sys : Equations (StateM σ) α n} {c : Settings α} {s : State α n}
    {p : Preparation α n} {w w' : σ} (h : (s.prepare sys c).run w = (.ok p, w')) :
    p.linear = (p.state.factored c).1 ∧ p.finalRefusal? = (p.state.factored c).2 := by
  cases prepare_prepares h with
  | asIs => exact ⟨rfl, rfl⟩
  | anew => exact ⟨rfl, rfl⟩

theorem factored_of_step? {sys : Equations (StateM σ) α n} {c : Settings α} {s : State α n}
    {p : Preparation α n} {step : Step α n} {w w' : σ} (h : (s.prepare sys c).run w = (.ok p, w'))
    (hstep : p.step? = some step) :
    LinearSolver.refusal? c.singularTolerance p.state.jacobian.matrix = none ∧
      p.linear.factors = some p.state.jacobian.matrix.eliminate := by
  obtain ⟨hlinear, -⟩ := prepare_factored h
  obtain ⟨x, hx, -⟩ := Option.bind_eq_some_iff.mp hstep
  rw [hlinear] at hx ⊢
  have hfactored := factored_of_solve? hx
  unfold factored LinearSolver.factor at hfactored ⊢
  cases hr : LinearSolver.refusal? c.singularTolerance p.state.jacobian.matrix with
  | none => exact ⟨rfl, by simp⟩
  | some r => simp [hr] at hfactored

theorem prepare_samePlace {sys : Equations (StateM σ) α n} {c : Settings α} {s : State α n}
    {p : Preparation α n} {w w' : σ} (h : (s.prepare sys c).run w = (.ok p, w')) :
    SamePlace s p.state := by
  cases prepare_prepares h with
  | asIs => exact .refl s
  | anew _ hr => exact refresh_samePlace hr

end State

/-- The state in which a step is judged: it was proposed, and the call where it leads counts. -/
def Preparation.tested (p : Preparation α n) (step : Step α n) : State α n :=
  (p.state.propose step).counted

def Preparation.trial (c : Settings α) (p : Preparation α n) (step : Step α n)
    (value : Vec α n) : Trial α n :=
  (p.tested step).judge c step value

namespace State

@[simp]
theorem commit_x (c : Settings α) (s : State α n) (t : Trial α n) :
    (s.commit c t).x = if t.accepted then s.x.addScaled 1 s.step else s.x := by
  unfold commit
  cases t.accepted <;> rfl

@[simp]
theorem commit_f (c : Settings α) (s : State α n) (t : Trial α n) :
    (s.commit c t).f = if t.accepted then t.value else s.f := by
  unfold commit
  cases t.accepted <;> rfl

@[simp]
theorem commit_iterations (c : Settings α) (s : State α n) (t : Trial α n) :
    (s.commit c t).iterations = s.iterations + 1 := by
  unfold commit
  cases t.accepted <;> rfl

@[simp]
theorem commit_step (c : Settings α) (s : State α n) (t : Trial α n) :
    (s.commit c t).step = s.step := by
  unfold commit
  cases t.accepted <;> rfl

@[simp]
theorem commit_jacobian (c : Settings α) (s : State α n) (t : Trial α n) :
    (s.commit c t).jacobian =
      if t.accepted then s.jacobian.update s.step (s.f.addScaled (-1) t.value).neg
      else s.jacobian := by
  unfold commit
  cases t.accepted <;> rfl

@[simp]
theorem commit_scaling (c : Settings α) (s : State α n) (t : Trial α n) :
    (s.commit c t).scaling =
      if t.accepted then grownScaling c s.scaling (s.commit c t).jacobian.matrix
      else s.scaling := by
  rw [commit_jacobian]
  unfold commit
  cases t.accepted <;> rfl

@[simp]
theorem commit_radius (c : Settings α) (s : State α n) (t : Trial α n) :
    (s.commit c t).radius =
      (judgedRadius c s.agreements t.radius t.gain.ratio t.stepNorm).1 := by
  unfold commit
  cases t.accepted <;> rfl

@[simp]
theorem commit_evaluations (c : Settings α) (s : State α n) (t : Trial α n) :
    (s.commit c t).evaluations = s.evaluations := by
  unfold commit
  cases t.accepted <;> rfl

@[simp]
theorem commit_slow (c : Settings α) (s : State α n) (t : Trial α n) :
    (s.commit c t).slow = if 1e-3 ≤ t.gain.actual then 0 else s.slow + 1 := by
  unfold commit
  cases t.accepted <;> rfl

@[simp]
theorem commit_rejections (c : Settings α) (s : State α n) (t : Trial α n) :
    (s.commit c t).rejections =
      if t.accepted || t.refreshed then 0 else s.rejections + 1 := by
  unfold commit stay
  cases t.accepted <;> cases t.refreshed <;> rfl

theorem commit_stays (c : Settings α) (s : State α n) {t : Trial α n}
    (ht : t.accepted = false) : (s.commit c t).x = s.x ∧ (s.commit c t).f = s.f := by
  rw [commit_x, commit_f, ht]
  exact ⟨rfl, rfl⟩

theorem commit_status (c : Settings α) (s : State α n) (t : Trial α n) :
    (s.commit c t).status = (s.commit c t).verdict c t.accepted :=
  rfl

theorem verdict_eq_success_iff {c : Settings α} {s : State α n} {accepted : Bool} :
    s.verdict c accepted = .success ↔
      accepted = true ∧ residualTest s.f c.tolerance = .success := by
  unfold verdict
  constructor
  · intro h
    by_cases hpassed : accepted = true ∧ residualTest s.f c.tolerance = .success
    · exact hpassed
    · rw [if_neg hpassed] at h
      by_cases hstuck : (¬ accepted ∧ s.radius ≤ c.minRadius) ∨ c.slowLimit ≤ s.slow
      · rw [if_pos hstuck] at h
        cases h
      · rw [if_neg hstuck] at h
        cases h
  · intro hpassed
    exact if_pos hpassed

theorem residualTest_of_commit_success {c : Settings α} {s : State α n} {t : Trial α n}
    (h : (s.commit c t).status = .success) :
    residualTest (s.commit c t).f c.tolerance = .success := by
  rw [commit_status] at h
  exact (verdict_eq_success_iff.mp h).2

theorem residualTest_of_commit_running {c : Settings α} {s : State α n} {t : Trial α n}
    (ht : t.accepted = true) (h : (s.commit c t).status = .running) :
    residualTest (s.commit c t).f c.tolerance ≠ .success := by
  intro hpassed
  rw [commit_status, verdict_eq_success_iff.mpr ⟨ht, hpassed⟩] at h
  cases h

omit [Scalar α] in
theorem propose_samePlace (s : State α n) (step : Step α n) : SamePlace s (s.propose step) :=
  ⟨rfl, rfl, rfl, rfl, rfl, rfl, rfl, rfl⟩

omit [Scalar α] in
theorem tested_samePlace (p : Preparation α n) (step : Step α n) :
    SamePlace p.state (p.tested step) :=
  ⟨rfl, rfl, rfl, rfl, rfl, rfl, rfl, rfl⟩

/-- A fresh Jacobian is not differenced anew because of a rejection. -/
theorem updated_of_refreshed {c : Settings α} {p : Preparation α n} {step : Step α n}
    {value : Vec α n} (h : (p.trial c step value).refreshed = true) :
    p.state.jacobian.fresh = false := by
  simp only [Preparation.trial, Preparation.tested, judge, Jacobian.isOutdated, propose, counted,
    Bool.and_eq_true, Bool.not_eq_true'] at h
  exact h.2.1

theorem not_accepted_of_refreshed {c : Settings α} {p : Preparation α n} {step : Step α n}
    {value : Vec α n} (h : (p.trial c step value).refreshed = true) :
    (p.trial c step value).accepted = false := by
  simp only [Preparation.trial, judge, Bool.and_eq_true, Bool.not_eq_true'] at h ⊢
  exact h.1

/-- The courses of a trial: a call where the step leads, and a refresh if the step was rejected
and the Jacobian is outdated. -/
inductive Tries (sys : Equations (StateM σ) α n) (c : Settings α) (p : Preparation α n)
    (step : Step α n) (w : σ) : Attempt α n → σ → Prop
  | failed {e : EvalError} {w' : σ}
      (h : (sys (p.state.x.addScaled 1 step.move)).run w = (.error e, w')) :
      Tries sys c p step w ⟨p.state.propose step, .error (.eval e)⟩ w'
  | judged {value : Vec α n} {w' : σ}
      (h : (sys (p.state.x.addScaled 1 step.move)).run w = (.ok value, w'))
      (hr : (p.trial c step value).refreshed = false) :
      Tries sys c p step w
        ⟨(p.tested step).commit c (p.trial c step value), .ok (.tried p (p.trial c step value))⟩ w'
  | unrefreshed {value : Vec α n} {v w' : σ} {e : EvalError}
      (h : (sys (p.state.x.addScaled 1 step.move)).run w = (.ok value, v))
      (hr : (p.trial c step value).refreshed = true)
      (hf : ((p.tested step).refresh sys c).run v = (.error e, w')) :
      Tries sys c p step w ⟨p.tested step, .error (.eval e)⟩ w'
  | refreshed {value : Vec α n} {v w' : σ} {r : State α n}
      (h : (sys (p.state.x.addScaled 1 step.move)).run w = (.ok value, v))
      (hr : (p.trial c step value).refreshed = true)
      (hf : ((p.tested step).refresh sys c).run v = (.ok r, w')) :
      Tries sys c p step w
        ⟨r.commit c (p.trial c step value), .ok (.tried p (p.trial c step value))⟩ w'

theorem tryStep_tries {sys : Equations (StateM σ) α n} {c : Settings α} {p : Preparation α n}
    {step : Step α n} {w w' : σ} {a : Attempt α n}
    (h : (tryStep sys c p step).run w = (a, w')) : Tries sys c p step w a w' := by
  obtain ⟨answer, v, hs⟩ := exists_run (sys (p.state.x.addScaled 1 step.move)) w
  have hs' : (sys ((p.state.propose step).x.addScaled 1 step.move)).run w = (answer, v) := hs
  rw [tryStep, run_bind_of_eq hs'] at h
  cases answer with
  | error e =>
    cases h
    exact .failed hs
  | ok value =>
    change (if (p.trial c step value).refreshed then _ else _ : StateM σ _).run v = _ at h
    cases hr : (p.trial c step value).refreshed with
    | false =>
      simp only [hr] at h
      cases h
      exact .judged hs hr
    | true =>
      obtain ⟨again, u, hf⟩ := exists_run ((p.tested step).refresh sys c) v
      have hf' : ((p.state.propose step).counted.refresh sys c).run v = (again, u) := hf
      simp only [hr, if_true] at h
      rw [run_bind_of_eq hf'] at h
      cases again with
      | error e =>
        cases h
        exact .unrefreshed hs hr hf
      | ok r =>
        cases h
        exact .refreshed hs hr hf

theorem Tries.run {sys : Equations (StateM σ) α n} {c : Settings α} {p : Preparation α n}
    {step : Step α n} {w w' : σ} {a : Attempt α n} (h : Tries sys c p step w a w') :
    (tryStep sys c p step).run w = (a, w') := by
  rw [tryStep]
  cases h with
  | failed hs =>
    change (sys ((p.state.propose step).x.addScaled 1 step.move)).run w = _ at hs
    rw [run_bind_of_eq hs]
    rfl
  | judged hs hr =>
    change (sys ((p.state.propose step).x.addScaled 1 step.move)).run w = _ at hs
    rw [run_bind_of_eq hs]
    change (if (p.trial c step _).refreshed then _ else _ : StateM σ _).run _ = _
    rw [if_neg (by simp [hr])]
    rfl
  | unrefreshed hs hr hf =>
    change (sys ((p.state.propose step).x.addScaled 1 step.move)).run w = _ at hs
    rw [run_bind_of_eq hs]
    change (if (p.trial c step _).refreshed then _ else _ : StateM σ _).run _ = _
    rw [if_pos hr]
    exact run_bind_of_eq hf
  | refreshed hs hr hf =>
    change (sys ((p.state.propose step).x.addScaled 1 step.move)).run w = _ at hs
    rw [run_bind_of_eq hs]
    change (if (p.trial c step _).refreshed then _ else _ : StateM σ _).run _ = _
    rw [if_pos hr]
    exact run_bind_of_eq hf

/-- The states in which an iteration looks for a step. -/
structure Active (c : Settings α) (s : State α n) : Prop where
  running : s.status = .running
  inBudget : s.iterations < c.maxIterations
  notAtRoot : (s.f.norm == 0) = false

theorem Active.of_samePlace {c : Settings α} {s t : State α n} (hs : s.Active c)
    (h : SamePlace s t) : t.Active c := by
  obtain ⟨hrunning, hbudget, hroot⟩ := hs
  exact ⟨h.status ▸ hrunning, h.iterations ▸ hbudget, h.f ▸ hroot⟩

variable [SingularValues α]

inductive Iterates (sys : Equations (StateM σ) α n) (c : Settings α) (s : State α n) (w : σ) :
    Attempt α n → σ → Prop
  | ended (h : s.status ≠ .running) : Iterates sys c s w ⟨s, .ok .settled⟩ w
  | exhausted (hs : s.status = .running) (h : c.maxIterations ≤ s.iterations) :
      Iterates sys c s w ⟨{ s with status := .iterationLimit }, .ok .settled⟩ w
  | atRoot (hs : s.status = .running) (hi : s.iterations < c.maxIterations)
      (h : (s.f.norm == 0) = true) :
      Iterates sys c s w ⟨{ s with status := .success }, .ok .settled⟩ w
  | unprepared {e : EvalError} {w' : σ} (hs : s.Active c)
      (hp : (s.prepare sys c).run w = (.error e, w')) :
      Iterates sys c s w ⟨s, .error (.eval e)⟩ w'
  | undetermined {p : Preparation α n} {w' : σ} (hs : s.Active c)
      (hp : (s.prepare sys c).run w = (.ok p, w')) (hd : p.isUndetermined = true) :
      Iterates sys c s w ⟨p.state, .error (.undetermined p)⟩ w'
  | singular {p : Preparation α n} {w' : σ} (hs : s.Active c)
      (hp : (s.prepare sys c).run w = (.ok p, w')) (hd : p.isUndetermined = false)
      (h : p.step? = none) :
      Iterates sys c s w ⟨{ p.state with status := .jacobianSingular }, .ok (.singular p)⟩ w'
  | tried {p : Preparation α n} {step : Step α n} {v w' : σ} {a : Attempt α n}
      (hs : s.Active c) (hp : (s.prepare sys c).run w = (.ok p, v)) (hd : p.isUndetermined = false)
      (h : p.step? = some step) (ht : (tryStep sys c p step).run v = (a, w')) :
      Iterates sys c s w a w'

theorem Active.iterate_eq {m : Type → Type} [Monad m] {c : Settings α} {s : State α n}
    (hs : s.Active c) (sys : Equations m α n) :
    s.iterate sys c = (do
      match ← s.prepare sys c with
      | .error e => pure ⟨s, .error (.eval e)⟩
      | .ok p =>
        if p.isUndetermined then pure ⟨p.state, .error (.undetermined p)⟩
        else
          match p.step? with
          | none => pure ⟨{ p.state with status := .jacobianSingular }, .ok (.singular p)⟩
          | some step => tryStep sys c p step) := by
  obtain ⟨hrunning, hbudget, hroot⟩ := hs
  have hterminal : ¬ s.status.isTerminal = true := by simp [hrunning, Status.isTerminal]
  have hbelow : ¬ c.maxIterations ≤ s.iterations := by omega
  have hnonzero : ¬ (s.f.norm == 0) = true := by simp [hroot]
  exact (if_neg hterminal).trans ((if_neg hbelow).trans (if_neg hnonzero))

theorem iterate_iterates {sys : Equations (StateM σ) α n} {c : Settings α} {s : State α n}
    {w w' : σ} {a : Attempt α n} (h : (s.iterate sys c).run w = (a, w')) :
    Iterates sys c s w a w' := by
  by_cases hs : s.status = .running
  · have ht : ¬ s.status.isTerminal = true := by simp [hs, Status.isTerminal]
    by_cases hi : c.maxIterations ≤ s.iterations
    · rw [iterate, if_neg ht, if_pos hi] at h
      cases h
      exact .exhausted hs hi
    · cases hf : s.f.norm == 0 with
      | true =>
        rw [iterate, if_neg ht, if_neg hi, if_pos hf] at h
        cases h
        exact .atRoot hs (by omega) hf
      | false =>
        have ha : s.Active c := ⟨hs, by omega, hf⟩
        obtain ⟨result, v, hr⟩ := exists_run (s.prepare sys c) w
        rw [ha.iterate_eq, run_bind_of_eq hr] at h
        cases result with
        | error e =>
          cases h
          exact .unprepared ha hr
        | ok p =>
          cases hd : p.isUndetermined with
          | true =>
            simp only [hd, if_true] at h
            cases h
            exact .undetermined ha hr hd
          | false =>
            simp only [hd] at h
            cases hstep : p.step? with
            | none =>
              simp only [hstep] at h
              cases h
              exact .singular ha hr hd hstep
            | some step =>
              simp only [hstep] at h
              exact .tried ha hr hd hstep h
  · rw [iterate, if_pos (by simpa [Status.isTerminal] using hs)] at h
    cases h
    exact .ended hs

theorem iterate_of_not_active {sys : Equations (StateM σ) α n} {c : Settings α} {s : State α n}
    {w w' : σ} {a : Attempt α n} (hs : ¬ s.Active c) (h : (s.iterate sys c).run w = (a, w')) :
    a.result = .ok .settled ∧ ∃ status, a.state = { s with status } := by
  cases iterate_iterates h with
  | ended => exact ⟨rfl, s.status, rfl⟩
  | exhausted => exact ⟨rfl, .iterationLimit, rfl⟩
  | atRoot => exact ⟨rfl, .success, rfl⟩
  | unprepared ha => exact absurd ha hs
  | undetermined ha => exact absurd ha hs
  | singular ha => exact absurd ha hs
  | tried ha => exact absurd ha hs

/-- What survives a refresh, the end of a run and a trial survives an iteration. -/
theorem iterate_keeps {sys : Equations (StateM σ) α n} {c : Settings α} {P : State α n → Prop}
    {s : State α n} {w w' : σ} {a : Attempt α n} (h : (s.iterate sys c).run w = (a, w')) (hs : P s)
    (hrefresh : ∀ r v v', (s.refresh sys c).run v = (.ok r, v') → P r)
    (hstatus : ∀ t status, P t → P { t with status })
    (htry : ∀ p step v b v', P p.state → p.step? = some step →
      (∃ u, (s.prepare sys c).run w = (.ok p, u)) →
      (tryStep sys c p step).run v = (b, v') → P b.state) : P a.state := by
  have hprepared {p : Preparation α n} {v : σ} (hp : (s.prepare sys c).run w = (.ok p, v)) :
      P p.state := by
    cases prepare_prepares hp with
    | asIs => exact hs
    | anew _ hr => exact hrefresh _ _ _ hr
  cases iterate_iterates h with
  | ended => exact hs
  | exhausted => exact hstatus _ _ hs
  | atRoot => exact hstatus _ _ hs
  | unprepared => exact hs
  | undetermined _ hp => exact hprepared hp
  | singular _ hp => exact hstatus _ _ (hprepared hp)
  | tried _ hp _ hstep ht => exact htry _ _ _ _ _ (hprepared hp) hstep ⟨_, hp⟩ ht

theorem Iterates.run {sys : Equations (StateM σ) α n} {c : Settings α} {s : State α n}
    {w w' : σ} {a : Attempt α n} (h : Iterates sys c s w a w') :
    (s.iterate sys c).run w = (a, w') := by
  cases h with
  | ended hs =>
    rw [iterate, if_pos (by simpa [Status.isTerminal] using hs)]
    rfl
  | exhausted hs hi =>
    rw [iterate, if_neg (by simp [hs, Status.isTerminal]), if_pos hi]
    rfl
  | atRoot hs hi hf =>
    rw [iterate, if_neg (by simp [hs, Status.isTerminal]), if_neg (by omega), if_pos hf]
    rfl
  | unprepared hs hp =>
    rw [hs.iterate_eq, run_bind_of_eq hp]
    rfl
  | undetermined hs hp hd =>
    rw [hs.iterate_eq, run_bind_of_eq hp]
    simp only [hd, if_true]
    rfl
  | singular hs hp hd hstep =>
    rw [hs.iterate_eq, run_bind_of_eq hp]
    simp only [hd, hstep]
    rfl
  | tried hs hp hd hstep ht =>
    rw [hs.iterate_eq, run_bind_of_eq hp]
    simp only [hd, hstep]
    exact ht

end State

end RootFinder
