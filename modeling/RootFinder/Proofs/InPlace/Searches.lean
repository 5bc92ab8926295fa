import RootFinder.Proofs.InPlace.Iterations

/-! Searches in place. An observer is shown what one of the search over states is shown, and the
search ends where that one does. -/

namespace RootFinder

namespace InPlace

variable {σ : Type} {m : Type → Type} [Monad m] {T : Tracking σ m} {α : Type} {n : Nat}

def Found.of (r : Root α n) : Found α :=
  ⟨r.x.toList, r.f.toList, r.iterations, r.evaluations, r.criterion⟩

def Failed.of (e : SearchFailure α n) : Failed α :=
  ⟨e.error, e.x, e.f, e.iterations, e.evaluations⟩

/-- The end of a search as the caller is told it. -/
def told (r : Outcome α n) : Except (Failed α) (Found α) :=
  match r with
  | .ok root => .ok (.of root)
  | .error failure => .error (.of failure)

variable [Scalar α]

def Stats.of (s : State α n) : Stats α :=
  ⟨s.iterations, s.x.toList, s.f.toList, s.f.normOne, s.radius, s.stepKind, s.status⟩

theorem stats_of (c : Settings α) (s : State α n) (k : Workspace α n) :
    Solver.stats (.of c s k) = .ok (.of s) :=
  bind_ok (alone_toList Vec.normOne s.f) rfl

variable [SingularValues α] {sys : Residuals σ α} {eqs : Equations m α n} (hsys : Writes T sys eqs)
  {observe : Stats α → StateM σ Control} {observe' : Snapshot α n → m Control}
  (hobserve : ∀ s report, Sim T Eq (outside (observe (.of s))) (observe' ⟨s, report⟩))
include hsys hobserve

theorem solveFrom_sim {c : Settings α} (hc : c.minRadius ≤ c.maxRadius) (budget : Nat)
    (s : State α n) (k : Workspace α n) :
    Sim T (fun b r => b = told r) (solveFrom sys observe budget (.of c s k))
      (searchFrom eqs observe' c budget s) := by
  induction budget generalizing s k with
  | zero =>
    rw [solveFrom, searchFrom]
    refine .lift (alone_toList Vec.normOne s.f) ?_
    by_cases hsmall : s.f.normOne ≤ c.tolerance
    · rw [if_pos (residualTest_eq_success_iff.mpr hsmall),
        if_pos (show _ ≤ (Solver.of c s k).settings.tolerance from hsmall)]
      exact .pure rfl
    · rw [if_neg (mt residualTest_eq_success_iff.mp hsmall),
        if_neg (show ¬ _ ≤ (Solver.of c s k).settings.tolerance from hsmall)]
      exact .pure rfl
  | succ budget ih =>
    rw [solveFrom, searchFrom]
    refine .lift (alone_toList Vec.normOne s.f) ?_
    by_cases hsmall : s.f.normOne ≤ c.tolerance
    · rw [if_pos (residualTest_eq_success_iff.mpr hsmall),
        if_pos (show _ ≤ (Solver.of c s k).settings.tolerance from hsmall)]
      exact .pure rfl
    rw [if_neg (mt residualTest_eq_success_iff.mp hsmall),
      if_neg (show ¬ _ ≤ (Solver.of c s k).settings.tolerance from hsmall)]
    refine .bind (iterate_sim hsys hc s k) ?_
    rintro ⟨b, answer⟩ ⟨t, result⟩ ⟨⟨k', hb⟩, hanswer⟩
    dsimp only at hb hanswer
    subst hb hanswer
    cases result with
    | error breakdown => exact .pure rfl
    | ok report =>
      refine .lift (stats_of c t k') (.bind (hobserve t (some report)) ?_)
      rintro control _ rfl
      cases control with
      | cancel => exact .pure rfl
      | proceed =>
        dsimp only
        cases t.status with
        | success => exact .pure rfl
        | jacobianSingular => exact .pure rfl
        | noProgress => exact .pure rfl
        | iterationLimit => exact .pure rfl
        | running =>
          refine .lift (both_toList _ t.step t.x) ?_
          change Sim T _
            (if c.hasStepTest ∧
                stepTest t.step t.x c.stepToleranceAbs c.stepToleranceRel = .success then _ else _) _
          by_cases htest : c.hasStepTest ∧
              stepTest t.step t.x c.stepToleranceAbs c.stepToleranceRel = .success
          · rw [if_pos htest, if_pos htest]
            exact .pure rfl
          · rw [if_neg htest, if_neg htest]
            exact ih t k'

theorem solve_sim (c : Settings α) (point : List α) :
    Sim T (fun b r => b = told r) (solve sys observe c point) (search eqs observe' c point) := by
  refine .bind (create_sim hsys c point) ?_
  rintro _ _ (⟨s, k, hc⟩ | ⟨e⟩)
  · refine .lift (stats_of c s k) (.bind (hobserve s none) ?_)
    rintro control _ rfl
    cases control with
    | cancel => exact .pure rfl
    | proceed => exact solveFrom_sim hsys hobserve hc c.maxIterations s k
  · exact .pure rfl

omit [SingularValues α] hobserve in
theorem evaluate_sim (point : List α) :
    Sim T (fun b r => b = r.map Vector.toList) (evaluate sys point) (eqs.evaluate point) := by
  by_cases hlength : point.length = n
  · obtain ⟨x, rfl⟩ := exists_vec hlength
    have hzeros : List.replicate n (0 : α) = (Vec.zeros n).toList :=
      Vector.toList_replicate.symm
    rw [evaluate, hsys.dimension, hzeros, Equations.evaluate, Vec.ofList?_toList]
    refine .finish (hsys.evaluateInto x (Vec.zeros n)) ?_
    rintro _ _ (f | ⟨e, left⟩)
    · exact ⟨_, rfl, rfl⟩
    · exact ⟨_, rfl, rfl⟩
  · rw [evaluate, evaluateInto, hsys.dimension, if_pos hlength, Equations.evaluate,
      Vec.ofList?_eq_none_iff.mpr hlength]
    exact .pure rfl

end InPlace

end RootFinder
