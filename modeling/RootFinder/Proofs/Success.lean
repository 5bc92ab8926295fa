import RootFinder.Proofs.Record
import RootFinder.Proofs.Restart

/-! What a success says. A run is called a success when its residuals pass the test after a step
that was taken, or, without a test, when their norm is zero. Norms of tiny residuals vanish, since
they are computed from squares; so the one exception to "a success passes the test" are the states
in which the norm has vanished and the test fails. -/

namespace RootFinder

variable {σ α : Type} [Scalar α] {n : Nat}

namespace State

/-- The states from which the next iteration reports a success that the residual test denies. -/
structure Vanishing (c : Settings α) (s : State α n) : Prop where
  running : s.status = .running
  inBudget : s.iterations < c.maxIterations
  norm_eq_zero : (s.f.norm == 0) = true
  unfinished : residualTest s.f c.tolerance ≠ .success

theorem refresh_step {sys : Equations (StateM σ) α n} {c : Settings α} {s r : State α n}
    {w w' : σ} (h : (s.refresh sys c).run w = (.ok r, w')) : r.step = s.step := by
  obtain ⟨d, -, -, rfl⟩ := refresh_eq_ok h
  rfl

variable [SingularValues α] {sys : Equations (StateM σ) α n} {c : Settings α}

theorem Vanishing.iterate {s : State α n} (hs : s.Vanishing c) (w : σ) :
    (s.iterate sys c).run w = (⟨{ s with status := .success }, .ok .settled⟩, w) :=
  (Iterates.atRoot hs.running hs.inBudget hs.norm_eq_zero).run

theorem iterate_success {s : State α n} {w w' : σ} {a : Attempt α n}
    (h : (s.iterate sys c).run w = (a, w')) (ha : a.state.status = .success) :
    a.state = s ∨ residualTest a.state.f c.tolerance = .success ∨
      s.Vanishing c ∧ a.state = { s with status := .success } := by
  cases iterate_iterates h with
  | ended => exact .inl rfl
  | exhausted => cases ha
  | atRoot hs hi hf =>
    by_cases hpassed : residualTest s.f c.tolerance = .success
    · exact .inr (.inl hpassed)
    · exact .inr (.inr ⟨⟨hs, hi, hf, hpassed⟩, rfl⟩)
  | unprepared hs =>
    rw [hs.running] at ha
    cases ha
  | undetermined hs hp =>
    rw [(prepare_samePlace hp).status, hs.running] at ha
    cases ha
  | singular => cases ha
  | @tried p step _ _ _ hs hp _ _ ht =>
    have hrunning : p.state.status = .running := (prepare_samePlace hp).status.trans hs.running
    cases tryStep_tries ht with
    | failed =>
      rw [(propose_samePlace p.state step).status, hrunning] at ha
      cases ha
    | unrefreshed =>
      rw [(tested_samePlace p step).status, hrunning] at ha
      cases ha
    | judged => exact .inr (.inl (residualTest_of_commit_success ha))
    | refreshed => exact .inr (.inl (residualTest_of_commit_success ha))

theorem Reachable.success {s : State α n} (h : s.Reachable sys c) (hs : s.status = .success) :
    residualTest s.f c.tolerance = .success ∨
      ∃ r : State α n, r.Reachable sys c ∧ r.Vanishing c ∧ s = { r with status := .success } := by
  have hstart {point : List α} {w w' : σ} {t : State α n}
      (ht : (start sys c point).run w = (.ok t, w')) : t.status ≠ .success := by
    obtain ⟨x, f, d, v, -, -, -, -, -, rfl⟩ := start_eq_ok ht
    intro hrunning
    cases hrunning
  induction h with
  | create h => exact absurd hs (hstart (create_eq_ok h).2.2)
  | iterate hr h ih =>
    rcases iterate_success h hs with he | hpassed | ⟨hvanishing, he⟩
    · rw [he] at hs ⊢
      exact ih hs
    · exact .inl hpassed
    · exact .inr ⟨_, hr, hvanishing, he⟩
  | restart _ h ih =>
    rcases restart_cases h with rfl | h
    · exact ih hs
    · exact absurd hs (hstart h)

/-- Only a step that was judged lets a run go on. -/
theorem tried_of_running {s : State α n} {w w' : σ} {a : Attempt α n} {report : Report α n}
    (h : (s.iterate sys c).run w = (a, w')) (hr : a.result = .ok report)
    (ha : a.state.status = .running) :
    ∃ p t, report = .tried p t ∧ a.state.step = t.step.move ∧ 1 ≤ a.state.iterations := by
  cases iterate_iterates h with
  | ended hend => exact absurd ha hend
  | exhausted => cases ha
  | atRoot => cases ha
  | unprepared => cases hr
  | undetermined => cases hr
  | singular => cases ha
  | @tried p step _ _ _ _ _ _ _ ht =>
    cases tryStep_tries ht with
    | failed => cases hr
    | unrefreshed => cases hr
    | judged =>
      cases hr
      refine ⟨_, _, rfl, commit_step _ _ _, ?_⟩
      rw [commit_iterations]
      omega
    | refreshed _ _ hf =>
      cases hr
      refine ⟨_, _, rfl, (commit_step _ _ _).trans (refresh_step hf), ?_⟩
      rw [commit_iterations]
      omega

end State

/-- The search ended because the last step it showed, which led on to the root or was rejected
there, passed the test for short steps. -/
def EndsWithShortStep (c : Settings α) (shots : List (Snapshot α n)) (root : Root α n) : Prop :=
  ∃ earlier s p t, shots = earlier ++ [⟨s, some (.tried p t)⟩] ∧
    s.root .stepSize = .ok root ∧
    stepTest t.step.move root.x c.stepToleranceAbs c.stepToleranceRel = .success

variable [SingularValues α] {sys : Equations (StateM σ) α n}
  {observe : Snapshot α n → StateM σ Control} {c : Settings α}

inductive Ended (sys : Equations (StateM σ) α n) (c : Settings α) (shots : List (Snapshot α n))
    (root : Root α n) : Prop
  | passed (hc : root.criterion = .residual) (h : residualTest root.f c.tolerance = .success)
  | vanished {r : State α n} (hc : root.criterion = .residual) (hr : r.Reachable sys c)
      (hv : r.Vanishing c) (hx : r.x = root.x) (hf : r.f = root.f)
  | shortStep (hc : root.criterion = .stepSize) (hwanted : c.hasStepTest = true)
      (hone : 1 ≤ root.iterations) (h : EndsWithShortStep c shots root)

theorem Ended.after {shots : List (Snapshot α n)} {root : Root α n} (h : Ended sys c shots root)
    (shot : Snapshot α n) : Ended sys c (shot :: shots) root := by
  cases h with
  | passed hc h => exact .passed hc h
  | vanished hc hr hv hx hf => exact .vanished hc hr hv hx hf
  | shortStep hc hwanted hone h =>
    obtain ⟨earlier, s, p, t, rfl, hroot, hshort⟩ := h
    exact .shortStep hc hwanted hone ⟨shot :: earlier, s, p, t, rfl, hroot, hshort⟩

theorem SearchesFrom.ended {k : Nat} {s : State α n} {w w' : σ} {shots : List (Snapshot α n)}
    {root : Root α n} (h : SearchesFrom sys observe c k s w shots (.ok root) w')
    (hs : s.Reachable sys c) : Ended sys c shots root := by
  generalize ho : Except.ok root = o at h
  induction h with
  | passed h =>
    cases ho
    exact .passed rfl h
  | exhausted => cases ho
  | brokenDown => cases ho
  | cancelled => cases ho
  | @concluded _ _ _ _ _ a _ _ _ ha _ _ hend =>
    subst ho
    cases hstatus : a.state.status with
    | success =>
      simp only [State.conclusion?, hstatus] at hend
      cases hend
      rcases (hs.iterate ha).success hstatus with hpassed | ⟨r, hr, hv, he⟩
      · exact .passed rfl hpassed
      · rw [he]
        exact .vanished rfl hr hv rfl rfl
    | _ =>
      simp only [State.conclusion?, hstatus] at hend
      cases hend
  | @stepped _ _ _ _ _ a _ _ ha hr _ hend ht =>
    cases ho
    have hrunning := State.conclusion?_eq_none_iff.mp hend
    obtain ⟨p, t, rfl, hstep, hone⟩ := State.tried_of_running ha hr hrunning
    simp only [State.passesStepTest, Bool.and_eq_true, decide_eq_true_iff] at ht
    obtain ⟨hwanted, hshort⟩ := ht
    rw [hstep] at hshort
    exact .shortStep rfl hwanted hone ⟨[], a.state, p, t, rfl, rfl, hshort⟩
  | next _ ha _ _ _ _ _ ih => exact (ih (hs.iterate ha) ho).after _

theorem Searches.ended {point : List α} {w w' : σ} {shots : List (Snapshot α n)}
    {root : Root α n} (h : Searches sys observe c point w shots (.ok root) w') :
    Ended sys c shots root := by
  cases h with
  | started hc _ rest => exact (rest.ended (.create hc)).after _

/-- Residuals are to be exactly zero. -/
def Settings.strict : Settings Float :=
  { Settings.standard with tolerance := 0 }

/-- Steps below one half are short enough. -/
def Settings.impatient : Settings Float :=
  { Settings.standard with stepToleranceAbs := 0.5 }

/-- One equation, whose residual is the unknown itself. -/
def homogeneous (x : Vec Float 1) : Except EvalError (Vec Float 1) :=
  .ok x

/-- The square of a residual of `1e-170` vanishes, so the next iteration takes it for zero. -/
theorem State.homogeneous_success :
    ∃ s : State Float 1, s.Reachable (interrupted [] homogeneous) .strict ∧
      s.status = .success ∧ residualTest s.f Settings.strict.tolerance ≠ .success := by
  obtain ⟨s, -, hs, h⟩ := exists_reachable (interrupted [] homogeneous) .strict [1e-170] 1 0
    (fun s _ => decide (s.status = .success ∧
      residualTest s.f Settings.strict.tolerance ≠ .success))
    (by decide +kernel)
  exact ⟨s, hs, of_decide_eq_true h⟩

theorem exists_root (sys : Equations (StateM σ) α n) (c : Settings α) (point : List α) (w : σ)
    (P : Root α n → Bool)
    (h : (match (solve sys c point).run w with
      | (.ok root, _) => P root
      | (.error _, _) => false) = true) :
    ∃ root w', (solve sys c point).run w = (.ok root, w') ∧ P root = true := by
  obtain ⟨answer, v, hr⟩ := exists_run (solve sys c point) w
  rw [hr] at h
  cases answer with
  | error e => cases h
  | ok root => exact ⟨root, v, hr, h⟩

theorem homogeneous_root :
    ∃ (root : Root Float 1) (w' : Nat),
      (solve (interrupted [] homogeneous) .strict [1e-170]).run 0 = (.ok root, w') ∧
      root.criterion = .residual ∧ residualTest root.f Settings.strict.tolerance ≠ .success := by
  obtain ⟨root, w', h, hroot⟩ := exists_root (interrupted [] homogeneous) .strict [1e-170] 0
    (fun root => decide (root.criterion = .residual ∧
      residualTest root.f Settings.strict.tolerance ≠ .success))
    (by decide +kernel)
  exact ⟨root, w', h, of_decide_eq_true hroot⟩

/-- A success passes the residual test, but for the states where the norm has vanished; all of
these become successes. A search that ends for a short step was to look for one, and took one. -/
theorem success_passes_unless_norm_vanishes (sys : Equations (StateM σ) α n) (c : Settings α) :
    (∀ s : State α n, s.Reachable sys c → s.status = .success →
      residualTest s.f c.tolerance = .success ∨
        ∃ r : State α n, r.Reachable sys c ∧ r.Vanishing c ∧ s = { r with status := .success }) ∧
    (∀ (r : State α n) (w : σ), r.Vanishing c →
      (r.iterate sys c).run w = (⟨{ r with status := .success }, .ok .settled⟩, w)) ∧
    (∀ observe point w root w', (search sys observe c point).run w = (.ok root, w') →
      (root.criterion = .residual →
        residualTest root.f c.tolerance = .success ∨
          ∃ r : State α n, r.Reachable sys c ∧ r.Vanishing c ∧ r.x = root.x ∧ r.f = root.f) ∧
      (root.criterion = .stepSize →
        (0 < c.stepToleranceAbs ∨ 0 < c.stepToleranceRel) ∧ 1 ≤ root.iterations ∧
        ∃ shots, (search (sys.beside _) (recording observe) c point).run (w, []) =
            (.ok root, (w', shots)) ∧ EndsWithShortStep c shots root)) := by
  refine ⟨fun s hs hsuccess => hs.success hsuccess, fun r w hr => hr.iterate w, ?_⟩
  intro observe point w root w' h
  obtain ⟨shots, hsearches⟩ := search_searches h
  constructor
  · intro hcriterion
    cases hsearches.ended with
    | passed _ hpassed => exact .inl hpassed
    | vanished _ hr hv hx hf => exact .inr ⟨_, hr, hv, hx, hf⟩
    | shortStep hstep =>
      rw [hcriterion] at hstep
      cases hstep
  · intro hcriterion
    cases hsearches.ended with
    | passed hresidual =>
      rw [hcriterion] at hresidual
      cases hresidual
    | vanished hresidual =>
      rw [hcriterion] at hresidual
      cases hresidual
    | shortStep _ hwanted hone hends =>
      simp only [Settings.hasStepTest, Bool.or_eq_true, decide_eq_true_iff] at hwanted
      exact ⟨hwanted, hone, shots, hsearches.recorded, hends⟩

theorem success_passes_unless_norm_vanishes_runs :
    (∃ r : State Float 1, r.Reachable (interrupted [] homogeneous) .strict ∧
      r.Vanishing .strict ∧
      ∀ w, (r.iterate (interrupted [] homogeneous) .strict).run w =
        (⟨{ r with status := .success }, .ok .settled⟩, w)) ∧
    (∃ (root : Root Float 1) (w' : Nat),
      (solve (interrupted [] homogeneous) .strict [1e-170]).run 0 = (.ok root, w') ∧
      root.criterion = .residual ∧
      ∃ r : State Float 1, r.Reachable (interrupted [] homogeneous) .strict ∧
        r.Vanishing .strict ∧ r.x = root.x ∧ r.f = root.f) ∧
    ∃ (root : Root Float 1) (w' : Nat) (shots : List (Snapshot Float 1)),
      (solve (interrupted [] reciprocal) .impatient [1]).run 0 = (.ok root, w') ∧
      root.criterion = .stepSize ∧ 1 ≤ root.iterations ∧
      (search ((interrupted [] reciprocal).beside _) (recording fun _ => pure .proceed) .impatient
        [1]).run (0, []) = (.ok root, (w', shots)) ∧
      EndsWithShortStep .impatient shots root := by
  refine ⟨?_, ?_, ?_⟩
  · obtain ⟨s, hs, hsuccess, hfails⟩ := State.homogeneous_success
    obtain ⟨hstates, hvanishing, -⟩ :=
      success_passes_unless_norm_vanishes (interrupted [] homogeneous) .strict
    rcases hstates s hs hsuccess with hpassed | ⟨r, hr, hv, -⟩
    · exact absurd hpassed hfails
    · exact ⟨r, hr, hv, fun w => hvanishing r w hv⟩
  · obtain ⟨root, w', h, hcriterion, hfails⟩ := homogeneous_root
    obtain ⟨-, -, hsearch⟩ :=
      success_passes_unless_norm_vanishes (interrupted [] homogeneous) .strict
    rcases (hsearch _ _ _ _ _ h).1 hcriterion with hpassed | hvanished
    · exact absurd hpassed hfails
    · exact ⟨root, w', h, hcriterion, hvanished⟩
  · obtain ⟨root, w', h, hroot⟩ := exists_root (interrupted [] reciprocal) .impatient [1] 0
      (fun root => decide (root.criterion = .stepSize))
      (by decide +kernel)
    have hcriterion := of_decide_eq_true hroot
    obtain ⟨-, -, hsearch⟩ :=
      success_passes_unless_norm_vanishes (interrupted [] reciprocal) .impatient
    obtain ⟨-, hone, shots, hrecord, hshort⟩ := (hsearch _ _ _ _ _ h).2 hcriterion
    exact ⟨root, w', shots, h, hcriterion, hone, hrecord, hshort⟩

/-- A run, and a search, that end with a success while the residual test fails. -/
theorem success_may_fail_residual_test :
    (∃ s : State Float 1, s.Reachable (interrupted [] homogeneous) .strict ∧
      s.status = .success ∧ residualTest s.f Settings.strict.tolerance ≠ .success) ∧
    ∃ (root : Root Float 1) (w' : Nat),
      (solve (interrupted [] homogeneous) .strict [1e-170]).run 0 = (.ok root, w') ∧
      root.criterion = .residual ∧
      residualTest root.f Settings.strict.tolerance ≠ .success :=
  ⟨State.homogeneous_success, homogeneous_root⟩

end RootFinder
