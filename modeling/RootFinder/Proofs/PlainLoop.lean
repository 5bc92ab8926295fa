import RootFinder.Proofs.Comparison
import RootFinder.Proofs.Record
import RootFinder.Sweep
import RootFinder.Systems.Restricted
import RootFinder.Systems.Tridiagonal

/-! The search against the plain loop that iterates until an iteration fails or ends the run. The
search tests the residuals and counts its budget on its own; without a step test and with an
observer that never cancels, both come to the same end. -/

namespace RootFinder

variable {σ τ α : Type} {n : Nat}

def Attempt.conclusion? (c : Settings α) (a : Attempt α n) : Option (Outcome α n) :=
  match a.result with
  | .error b => some (a.state.brokenDown b)
  | .ok _ => a.state.conclusion? c

theorem Attempt.conclusion?_of_ok {c : Settings α} {a : Attempt α n} {report : Report α n}
    (hr : a.result = .ok report) : a.conclusion? c = a.state.conclusion? c := by
  rw [conclusion?, hr]

theorem Attempt.conclusion?_eq_none_iff {a : Attempt α n} {c : Settings α} :
    a.conclusion? c = none ↔ a.answer = .ok .running := by
  unfold answer conclusion?
  cases a.result with
  | error b => simp
  | ok report => simp [State.conclusion?_eq_none_iff]

/-- The observer with a state of its own beside that of the system. -/
def watching (observe : Snapshot α n → StateM τ Control) (shot : Snapshot α n) :
    StateM (σ × τ) Control :=
  fun state => (((observe shot).run state.2).1, (state.1, ((observe shot).run state.2).2))

theorem watching_run {observe : Snapshot α n → StateM τ Control} {shot : Snapshot α n}
    {control : Control} {v v' : σ × τ} (ho : (watching observe shot).run v = (control, v')) :
    v'.1 = v.1 := by
  cases ho
  rfl

def NeverCancels (observe : Snapshot α n → StateM τ Control) : Prop :=
  ∀ shot t, ((observe shot).run t).1 = .proceed

theorem NeverCancels.run {observe : Snapshot α n → StateM τ Control} (h : NeverCancels observe)
    {shot : Snapshot α n} {control : Control} {v v' : σ × τ}
    (ho : (watching observe shot).run v = (control, v')) : control = .proceed ∧ v'.1 = v.1 := by
  cases ho
  exact ⟨h shot v.2, rfl⟩

variable [Scalar α]

theorem Settings.hasStepTest_eq_false [LawfulComparison α] {c : Settings α}
    (habs : (c.stepToleranceAbs == 0) = true) (hrel : (c.stepToleranceRel == 0) = true) :
    c.hasStepTest = false := by
  simp only [hasStepTest, Scalar.not_lt_of_beq habs, Scalar.not_lt_of_beq hrel, decide_false,
    Bool.or_self]

namespace State

/-- The states in which the search goes on, with the budget that is left. -/
structure GoesOn (c : Settings α) (k : Nat) (s : State α n) : Prop where
  running : s.status = .running
  budget : s.iterations + k = c.maxIterations
  unfinished : residualTest s.f c.tolerance ≠ .success

theorem GoesOn.commit {c : Settings α} {k : Nat} {s r : State α n} {t : Trial α n}
    (hs : s.GoesOn c (k + 1)) (hr : SamePlace s r) (h : (r.commit c t).status = .running) :
    (r.commit c t).GoesOn c k := by
  obtain ⟨-, hbudget, hunfinished⟩ := hs
  refine ⟨h, ?_, ?_⟩
  · rw [commit_iterations, hr.iterations]
    omega
  · cases ht : t.accepted with
    | true => exact residualTest_of_commit_running ht h
    | false =>
      rw [(commit_stays c r ht).2, hr.f]
      exact hunfinished

variable [SingularValues α]

/-- An iteration that does not end the run has used one of its budget and has not passed the
test, whether its step was taken or not. -/
theorem GoesOn.iterate {sys : Equations (StateM σ) α n} {c : Settings α} {k : Nat}
    {s : State α n} {w w' : σ} {a : Attempt α n} {report : Report α n} (hs : s.GoesOn c (k + 1))
    (h : (s.iterate sys c).run w = (a, w')) (hr : a.result = .ok report)
    (ha : a.state.status = .running) : a.state.GoesOn c k := by
  cases iterate_iterates h with
  | ended hend => exact absurd hs.running hend
  | exhausted => cases ha
  | atRoot => cases ha
  | unprepared => cases hr
  | undetermined => cases hr
  | singular => cases ha
  | @tried p step _ _ _ _ hp _ _ ht =>
    have hplace := (prepare_samePlace hp).trans (tested_samePlace p step)
    cases tryStep_tries ht with
    | failed => cases hr
    | unrefreshed => cases hr
    | judged => exact hs.commit hplace ha
    | refreshed _ _ hre => exact hs.commit (hplace.trans (refresh_samePlace hre)) ha

end State

variable [SingularValues α]

/-- Iterates until an iteration fails or ends with another status than `running`. -/
inductive Driven (sys : Equations (StateM σ) α n) (c : Settings α) :
    State α n → σ → Attempt α n → σ → Prop
  | last {s : State α n} {w w' : σ} {a : Attempt α n} (h : (s.iterate sys c).run w = (a, w'))
      (ha : a.answer ≠ .ok .running) : Driven sys c s w a w'
  | more {s : State α n} {w v w' : σ} {a b : Attempt α n}
      (h : (s.iterate sys c).run w = (a, v)) (ha : a.answer = .ok .running)
      (rest : Driven sys c a.state v b w') : Driven sys c s w b w'

theorem SearchesFrom.driven {sys : Equations (StateM σ) α n}
    {observe : Snapshot α n → StateM τ Control} {c : Settings α} {k : Nat} {s : State α n}
    {w w' : σ × τ} {shots : List (Snapshot α n)} {o : Outcome α n}
    (h : SearchesFrom (sys.beside τ) (watching observe) c k s w shots o w')
    (hobserve : NeverCancels observe) (hstep : c.hasStepTest = false) (hs : s.GoesOn c k) :
    ∃ a, Driven sys c s w.1 a w'.1 ∧ a.conclusion? c = some o := by
  induction h with
  | passed h => exact absurd h hs.unfinished
  | @exhausted s w =>
    have hlimit : c.maxIterations ≤ s.iterations := by
      have := hs.budget
      omega
    exact ⟨_, .last (State.Iterates.exhausted hs.running hlimit).run (by simp [Attempt.answer]),
      rfl⟩
  | brokenDown _ ha hb =>
    have hrun := (State.iterate_beside _ _ _ _).run_fst ha
    exact ⟨_, .last hrun (by simp [Attempt.answer, hb]), by simp [Attempt.conclusion?, hb]⟩
  | cancelled _ _ _ ho => cases (hobserve.run ho).1
  | @concluded _ s w v w' a _ o _ ha hr ho hend =>
    have hrun := (State.iterate_beside _ _ _ _).run_fst ha
    have hc : a.conclusion? c = some o := (Attempt.conclusion?_of_ok hr).trans hend
    have hlast : a.answer ≠ .ok .running := by
      intro hrunning
      rw [Attempt.conclusion?_eq_none_iff.mpr hrunning] at hc
      cases hc
    rw [(hobserve.run ho).2]
    exact ⟨a, .last hrun hlast, hc⟩
  | stepped _ _ _ _ _ ht => simp [State.passesStepTest, hstep] at ht
  | @next _ s w v v' w' a _ _ o _ ha hr ho hend _ _ ih =>
    have hrun := (State.iterate_beside _ _ _ _).run_fst ha
    have hmore : a.answer = .ok .running :=
      Attempt.conclusion?_eq_none_iff.mp ((Attempt.conclusion?_of_ok hr).trans hend)
    obtain ⟨b, hdriven, hb⟩ :=
      ih (hs.iterate hrun hr (State.conclusion?_eq_none_iff.mp hend))
    rw [(hobserve.run ho).2] at hdriven
    exact ⟨b, .more hrun hmore hdriven, hb⟩

/-- The search ends as the plain loop from the starting point does: in a refusal of the start, at
a start that passes the residual test, or with the last attempt of the loop. -/
theorem search_driven [LawfulComparison α] {sys : Equations (StateM σ) α n}
    {observe : Snapshot α n → StateM τ Control} (hobserve : NeverCancels observe)
    {c : Settings α} (habs : (c.stepToleranceAbs == 0) = true)
    (hrel : (c.stepToleranceRel == 0) = true) {point : List α} {w w' : σ × τ} {o : Outcome α n}
    (h : (search (sys.beside τ) (watching observe) c point).run w = (o, w')) :
    (∃ e, (State.create sys c point).run w.1 = (.error e, w'.1) ∧
      o = .error ⟨e, point, none, 0, 0, none⟩) ∨
    ∃ s v, (State.create sys c point).run w.1 = (.ok s, v) ∧
      (residualTest s.f c.tolerance = .success ∧ s.iterations = 0 ∧ w'.1 = v ∧
          o = s.root .residual ∨
        residualTest s.f c.tolerance ≠ .success ∧
          ∃ a, Driven sys c s v a w'.1 ∧ a.conclusion? c = some o) := by
  have hstep := Settings.hasStepTest_eq_false habs hrel
  obtain ⟨shots, hs⟩ := search_searches h
  cases hs with
  | refused hc => exact .inl ⟨_, (State.create_beside _ _ _ _).run_fst hc, rfl⟩
  | cancelled _ ho => cases (hobserve.run ho).1
  | @started s u v _ _ _ hc ho rest =>
    have hrun := (State.create_beside _ _ _ _).run_fst hc
    obtain ⟨x, f, d, -, -, -, -, -, -, hinitial⟩ := State.start_eq_ok (State.create_eq_ok hrun).2.2
    have hzero : s.iterations = 0 := by
      rw [hinitial]
      rfl
    have hrunning : s.status = .running := by
      rw [hinitial]
      rfl
    refine .inr ⟨s, u.1, hrun, ?_⟩
    by_cases hp : residualTest s.f c.tolerance = .success
    · obtain ⟨ho', hw⟩ := rest.of_passed hp
      rw [hw, (hobserve.run ho).2]
      exact .inl ⟨hp, hzero, rfl, ho'⟩
    · have hgoes : s.GoesOn c c.maxIterations := ⟨hrunning, by omega, hp⟩
      have hdriven := rest.driven hobserve hstep hgoes
      rw [(hobserve.run ho).2] at hdriven
      exact .inr ⟨hp, hdriven⟩

/-- The sixth call of the system fails, some iterations after a start that is no root. -/
theorem search_driven_rosenbrock :
    ∃ (s : State Float 2) (v : Nat) (a : Attempt Float 2) (o : Outcome Float 2) (w : Nat × Unit),
      (State.create (interrupted [6] fun x => .ok (rosenbrock 1 10 x)) .standard
        Rosenbrock.standardGuess).run 0 = (.ok s, v) ∧
      (search ((interrupted [6] fun x => .ok (rosenbrock 1 10 x)).beside Unit)
        (watching fun _ => pure .proceed) .standard Rosenbrock.standardGuess).run (0, ()) = (o, w) ∧
      Driven (interrupted [6] fun x => .ok (rosenbrock 1 10 x)) .standard s v a w.1 ∧
      a.conclusion? .standard = some o := by
  have hstart : (match (State.create (interrupted [6] fun x => .ok (rosenbrock 1 10 x)) .standard
      Rosenbrock.standardGuess).run 0 with
    | (.ok s, _) => decide (residualTest s.f Settings.standard.tolerance ≠ .success)
    | (.error _, _) => false) = true := by decide +kernel
  obtain ⟨o, w, h⟩ := exists_run
    (search ((interrupted [6] fun x => .ok (rosenbrock 1 10 x)).beside Unit)
      (watching fun _ => pure .proceed) .standard Rosenbrock.standardGuess) (0, ())
  rcases search_driven (fun _ _ => rfl) (by decide +kernel) (by decide +kernel) h with
    ⟨e, hc, -⟩ | ⟨s, v, hc, ⟨hp, -⟩ | ⟨-, a, ha, ho⟩⟩
  · rw [hc] at hstart
    cases hstart
  · rw [hc] at hstart
    exact absurd hp (of_decide_eq_true hstart)
  · exact ⟨s, v, a, o, w, hc, h, ha, ho⟩

end RootFinder
