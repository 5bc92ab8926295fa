import RootFinder.Proofs.Reachability
import RootFinder.Search

/-! The courses a search can take, each with the snapshots it shows. System and observer share the
hidden state, so that an observer may look at anything and decide in any way. -/

namespace RootFinder

variable {σ α : Type} [Scalar α] {n : Nat}

def State.conclusion? (c : Settings α) (s : State α n) : Option (Outcome α n) :=
  match s.status with
  | .running => none
  | .success => some (s.root .residual)
  | .jacobianSingular => some (s.failure .jacobianSingular)
  | .noProgress => some (s.failure .noProgress)
  | .iterationLimit => some (s.failure (.iterationLimit c.maxIterations))

omit [Scalar α] in
theorem State.conclusion?_eq_none_iff {c : Settings α} {s : State α n} :
    s.conclusion? c = none ↔ s.status = .running := by
  unfold conclusion?
  cases s.status <;> simp

/-- The outcome tells the point, the residuals and the counts of the state. -/
inductive State.Yields (s : State α n) : Outcome α n → Prop
  | root (criterion : Criterion) : s.Yields (s.root criterion)
  | failure (error : SolveError) : s.Yields (s.failure error)
  | brokenDown (b : Breakdown α n) : s.Yields (s.brokenDown b)

omit [Scalar α] in
theorem State.yields_of_conclusion? {c : Settings α} {s : State α n} {o : Outcome α n}
    (h : s.conclusion? c = some o) : s.Yields o := by
  unfold conclusion? at h
  cases hs : s.status with
  | running =>
    rw [hs] at h
    cases h
  | success =>
    rw [hs] at h
    cases h
    exact .root _
  | _ =>
    rw [hs] at h
    cases h
    exact .failure _

/-- The test on the last step is wanted and passed. -/
def State.passesStepTest (c : Settings α) (s : State α n) : Bool :=
  c.hasStepTest && decide (stepTest s.step s.x c.stepToleranceAbs c.stepToleranceRel = .success)

variable [SingularValues α]

theorem searchFrom_passed {m : Type → Type} [Monad m] (sys : Equations m α n)
    (observe : Snapshot α n → m Control) {c : Settings α} (k : Nat) {s : State α n}
    (h : residualTest s.f c.tolerance = .success) :
    searchFrom sys observe c k s = pure (s.root .residual) := by
  unfold searchFrom
  rw [if_pos h]

theorem searchFrom_succ {m : Type → Type} [Monad m] (sys : Equations m α n)
    (observe : Snapshot α n → m Control) {c : Settings α} (k : Nat) {s : State α n}
    (h : residualTest s.f c.tolerance ≠ .success) :
    searchFrom sys observe c (k + 1) s = (do
      let a ← s.iterate sys c
      match a.result with
      | .error b => pure (a.state.brokenDown b)
      | .ok report =>
        match ← observe ⟨a.state, some report⟩ with
        | .cancel => pure (a.state.failure .cancelled)
        | .proceed =>
          match a.state.conclusion? c with
          | some o => pure o
          | none =>
            if a.state.passesStepTest c then pure (a.state.root .stepSize)
            else searchFrom sys observe c k a.state) := by
  rw [searchFrom, if_neg h]
  refine congrArg (s.iterate sys c >>= ·) (funext fun a => ?_)
  cases a.result with
  | error b => rfl
  | ok report =>
    refine congrArg (observe ⟨a.state, some report⟩ >>= ·) (funext fun control => ?_)
    cases control with
    | cancel => rfl
    | proceed => cases hs : a.state.status <;> simp [State.conclusion?, State.passesStepTest, hs]

inductive SearchesFrom (sys : Equations (StateM σ) α n)
    (observe : Snapshot α n → StateM σ Control) (c : Settings α) :
    Nat → State α n → σ → List (Snapshot α n) → Outcome α n → σ → Prop
  | passed {k : Nat} {s : State α n} {w : σ} (h : residualTest s.f c.tolerance = .success) :
      SearchesFrom sys observe c k s w [] (s.root .residual) w
  | exhausted {s : State α n} {w : σ} (h : residualTest s.f c.tolerance ≠ .success) :
      SearchesFrom sys observe c 0 s w [] (s.failure (.iterationLimit c.maxIterations)) w
  | brokenDown {k : Nat} {s : State α n} {w w' : σ} {a : Attempt α n} {b : Breakdown α n}
      (h : residualTest s.f c.tolerance ≠ .success) (ha : (s.iterate sys c).run w = (a, w'))
      (hb : a.result = .error b) :
      SearchesFrom sys observe c (k + 1) s w [] (a.state.brokenDown b) w'
  | cancelled {k : Nat} {s : State α n} {w v w' : σ} {a : Attempt α n} {report : Report α n}
      (h : residualTest s.f c.tolerance ≠ .success) (ha : (s.iterate sys c).run w = (a, v))
      (hr : a.result = .ok report)
      (ho : (observe ⟨a.state, some report⟩).run v = (.cancel, w')) :
      SearchesFrom sys observe c (k + 1) s w [⟨a.state, some report⟩]
        (a.state.failure .cancelled) w'
  | concluded {k : Nat} {s : State α n} {w v w' : σ} {a : Attempt α n} {report : Report α n}
      {o : Outcome α n} (h : residualTest s.f c.tolerance ≠ .success)
      (ha : (s.iterate sys c).run w = (a, v)) (hr : a.result = .ok report)
      (ho : (observe ⟨a.state, some report⟩).run v = (.proceed, w'))
      (hs : a.state.conclusion? c = some o) :
      SearchesFrom sys observe c (k + 1) s w [⟨a.state, some report⟩] o w'
  | stepped {k : Nat} {s : State α n} {w v w' : σ} {a : Attempt α n} {report : Report α n}
      (h : residualTest s.f c.tolerance ≠ .success) (ha : (s.iterate sys c).run w = (a, v))
      (hr : a.result = .ok report)
      (ho : (observe ⟨a.state, some report⟩).run v = (.proceed, w'))
      (hs : a.state.conclusion? c = none) (ht : a.state.passesStepTest c = true) :
      SearchesFrom sys observe c (k + 1) s w [⟨a.state, some report⟩]
        (a.state.root .stepSize) w'
  | next {k : Nat} {s : State α n} {w v v' w' : σ} {a : Attempt α n} {report : Report α n}
      {shots : List (Snapshot α n)} {o : Outcome α n}
      (h : residualTest s.f c.tolerance ≠ .success) (ha : (s.iterate sys c).run w = (a, v))
      (hr : a.result = .ok report)
      (ho : (observe ⟨a.state, some report⟩).run v = (.proceed, v'))
      (hs : a.state.conclusion? c = none) (ht : a.state.passesStepTest c = false)
      (rest : SearchesFrom sys observe c k a.state v' shots o w') :
      SearchesFrom sys observe c (k + 1) s w (⟨a.state, some report⟩ :: shots) o w'

theorem searchFrom_searchesFrom {sys : Equations (StateM σ) α n}
    {observe : Snapshot α n → StateM σ Control} {c : Settings α} {k : Nat} {s : State α n}
    {w w' : σ} {o : Outcome α n} (h : (searchFrom sys observe c k s).run w = (o, w')) :
    ∃ shots, SearchesFrom sys observe c k s w shots o w' := by
  induction k generalizing s w with
  | zero =>
    by_cases hp : residualTest s.f c.tolerance = .success
    · rw [searchFrom_passed _ _ _ hp] at h
      cases h
      exact ⟨_, .passed hp⟩
    · rw [searchFrom, if_neg hp] at h
      cases h
      exact ⟨_, .exhausted hp⟩
  | succ k ih =>
    by_cases hp : residualTest s.f c.tolerance = .success
    · rw [searchFrom_passed _ _ _ hp] at h
      cases h
      exact ⟨_, .passed hp⟩
    · obtain ⟨a, v, ha⟩ := exists_run (s.iterate sys c) w
      rw [searchFrom_succ _ _ _ hp, run_bind_of_eq ha] at h
      cases hr : a.result with
      | error b =>
        simp only [hr] at h
        cases h
        exact ⟨_, .brokenDown hp ha hr⟩
      | ok report =>
        simp only [hr] at h
        obtain ⟨control, u, ho⟩ := exists_run (observe ⟨a.state, some report⟩) v
        rw [run_bind_of_eq ho] at h
        cases control with
        | cancel =>
          cases h
          exact ⟨_, .cancelled hp ha hr ho⟩
        | proceed =>
          cases hs : a.state.conclusion? c with
          | some o =>
            simp only [hs] at h
            cases h
            exact ⟨_, .concluded hp ha hr ho hs⟩
          | none =>
            simp only [hs] at h
            cases ht : a.state.passesStepTest c with
            | true =>
              simp only [ht, if_true] at h
              cases h
              exact ⟨_, .stepped hp ha hr ho hs ht⟩
            | false =>
              simp only [ht] at h
              obtain ⟨shots, rest⟩ := ih h
              exact ⟨_, .next hp ha hr ho hs ht rest⟩

theorem SearchesFrom.of_passed {sys : Equations (StateM σ) α n}
    {observe : Snapshot α n → StateM σ Control} {c : Settings α} {k : Nat} {s : State α n}
    {w w' : σ} {shots : List (Snapshot α n)} {o : Outcome α n}
    (h : SearchesFrom sys observe c k s w shots o w')
    (hs : residualTest s.f c.tolerance = .success) : o = s.root .residual ∧ w' = w := by
  cases h with
  | passed => exact ⟨rfl, rfl⟩
  | exhausted h => exact absurd hs h
  | brokenDown h => exact absurd hs h
  | cancelled h => exact absurd hs h
  | concluded h => exact absurd hs h
  | stepped h => exact absurd hs h
  | next h => exact absurd hs h

theorem SearchesFrom.reachable {sys : Equations (StateM σ) α n}
    {observe : Snapshot α n → StateM σ Control} {c : Settings α} {k : Nat} {s : State α n}
    {w w' : σ} {shots : List (Snapshot α n)} {o : Outcome α n}
    (h : SearchesFrom sys observe c k s w shots o w') (hs : s.Reachable sys c) :
    (∀ shot ∈ shots, shot.state.Reachable sys c) ∧ ∃ t, State.Reachable sys c t ∧ t.Yields o := by
  induction h with
  | @passed _ s => exact ⟨by simp, s, hs, .root _⟩
  | @exhausted s => exact ⟨by simp, s, hs, .failure _⟩
  | brokenDown _ ha => exact ⟨by simp, _, hs.iterate ha, .brokenDown _⟩
  | cancelled _ ha => exact ⟨by simpa using hs.iterate ha, _, hs.iterate ha, .failure _⟩
  | concluded _ ha _ _ ho =>
    exact ⟨by simpa using hs.iterate ha, _, hs.iterate ha, State.yields_of_conclusion? ho⟩
  | stepped _ ha => exact ⟨by simpa using hs.iterate ha, _, hs.iterate ha, .root _⟩
  | next _ ha _ _ _ _ _ ih =>
    obtain ⟨hshots, hend⟩ := ih (hs.iterate ha)
    refine ⟨?_, hend⟩
    intro shot hshot
    rcases List.mem_cons.mp hshot with rfl | hshot
    · exact hs.iterate ha
    · exact hshots shot hshot

inductive Searches (sys : Equations (StateM σ) α n) (observe : Snapshot α n → StateM σ Control)
    (c : Settings α) (point : List α) (w : σ) : List (Snapshot α n) → Outcome α n → σ → Prop
  | refused {e : SolveError} {w' : σ} (h : (State.create sys c point).run w = (.error e, w')) :
      Searches sys observe c point w [] (.error ⟨e, point, none, 0, 0, none⟩) w'
  | cancelled {s : State α n} {v w' : σ} (h : (State.create sys c point).run w = (.ok s, v))
      (ho : (observe ⟨s, none⟩).run v = (.cancel, w')) :
      Searches sys observe c point w [⟨s, none⟩] (s.failure .cancelled) w'
  | started {s : State α n} {u v w' : σ} {shots : List (Snapshot α n)} {o : Outcome α n}
      (h : (State.create sys c point).run w = (.ok s, u))
      (ho : (observe ⟨s, none⟩).run u = (.proceed, v))
      (rest : SearchesFrom sys observe c c.maxIterations s v shots o w') :
      Searches sys observe c point w (⟨s, none⟩ :: shots) o w'

theorem search_searches {sys : Equations (StateM σ) α n}
    {observe : Snapshot α n → StateM σ Control} {c : Settings α} {point : List α} {w w' : σ}
    {o : Outcome α n} (h : (search sys observe c point).run w = (o, w')) :
    ∃ shots, Searches sys observe c point w shots o w' := by
  obtain ⟨answer, u, hc⟩ := exists_run (State.create sys c point) w
  rw [search, run_bind_of_eq hc] at h
  cases answer with
  | error e =>
    cases h
    exact ⟨_, .refused hc⟩
  | ok s =>
    obtain ⟨control, v, ho⟩ := exists_run (observe ⟨s, none⟩) u
    change (observe ⟨s, none⟩ >>= _).run u = _ at h
    rw [run_bind_of_eq ho] at h
    cases control with
    | cancel =>
      cases h
      exact ⟨_, .cancelled hc ho⟩
    | proceed =>
      obtain ⟨shots, rest⟩ := searchFrom_searchesFrom h
      exact ⟨_, .started hc ho rest⟩

theorem Searches.reachable {sys : Equations (StateM σ) α n}
    {observe : Snapshot α n → StateM σ Control} {c : Settings α} {point : List α} {w w' : σ}
    {shots : List (Snapshot α n)} {o : Outcome α n}
    (h : Searches sys observe c point w shots o w') :
    (∀ shot ∈ shots, shot.state.Reachable sys c) ∧
      ((∃ e, o = .error ⟨e, point, none, 0, 0, none⟩) ∨
        ∃ t, State.Reachable sys c t ∧ t.Yields o) := by
  cases h with
  | refused => exact ⟨by simp, .inl ⟨_, rfl⟩⟩
  | cancelled h => exact ⟨by simpa using State.Reachable.create h, .inr ⟨_, .create h, .failure _⟩⟩
  | started h _ rest =>
    obtain ⟨hshots, hend⟩ := rest.reachable (.create h)
    refine ⟨?_, .inr hend⟩
    intro shot hshot
    rcases List.mem_cons.mp hshot with rfl | hshot
    · exact .create h
    · exact hshots shot hshot

end RootFinder
