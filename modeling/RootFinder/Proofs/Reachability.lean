import RootFinder.Proofs.Course

/-! Reachable states: those of a run that was started and then iterated and restarted in any order,
with any of these failing. Every call may find the system in another hidden state, so the calls
fail in any pattern. -/

namespace RootFinder

variable {σ α : Type} [Scalar α] {n : Nat}

namespace State

inductive Starts (sys : Equations (StateM σ) α n) (c : Settings α) (point : List α) (w : σ) :
    Except SolveError (State α n) → σ → Prop
  | wrongLength (h : point.length ≠ n) :
      Starts sys c point w (.error (.dimensionMismatch n point.length)) w
  | unevaluable {x : Vec α n} {e : EvalError} {w' : σ} (hx : Vec.ofList? n point = some x)
      (hf : (sys x).run w = (.error e, w')) : Starts sys c point w (.error (.eval e)) w'
  | nonFinite {x f : Vec α n} {i : Fin n} {w' : σ} (hx : Vec.ofList? n point = some x)
      (hf : (sys x).run w = (.ok f, w')) (hi : f.firstNonFinite? = some i) :
      Starts sys c point w (.error (.eval (.nonFinite i))) w'
  | undifferenced {x f : Vec α n} {j : Fin n} {e : EvalError} {v u w' : σ}
      (hx : Vec.ofList? n point = some x) (hf : (sys x).run w = (.ok f, v))
      (hn : f.firstNonFinite? = none)
      (hj : (sys (Jacobian.neighbour c.differenceStep x j)).run u = (.error e, w')) :
      Starts sys c point w (.error (.eval e)) w'
  | differenced {x f : Vec α n} {d : Differencing α n} {v w' : σ}
      (hx : Vec.ofList? n point = some x) (hf : (sys x).run w = (.ok f, v))
      (hn : f.firstNonFinite? = none)
      (hd : ((Jacobian.unknown n).difference sys c.differenceStep x f).run v = (d, w'))
      (hfail : d.failure = none) : Starts sys c point w (.ok (initial c x f d)) w'

theorem start_starts {sys : Equations (StateM σ) α n} {c : Settings α} {point : List α} {w w' : σ}
    {result : Except SolveError (State α n)} (h : (start sys c point).run w = (result, w')) :
    Starts sys c point w result w' := by
  unfold start at h
  cases hx : Vec.ofList? n point with
  | none =>
    simp only [hx] at h
    cases h
    exact .wrongLength (Vec.ofList?_eq_none_iff.mp hx)
  | some x =>
    simp only [hx] at h
    obtain ⟨answer, v, hf⟩ := exists_run (sys x) w
    rw [run_bind_of_eq hf] at h
    cases answer with
    | error e =>
      cases h
      exact .unevaluable hx hf
    | ok f =>
      cases hn : f.firstNonFinite? with
      | some i =>
        simp only [hn] at h
        cases h
        exact .nonFinite hx hf hn
      | none =>
        simp only [hn] at h
        obtain ⟨d, u, hd⟩ :=
          exists_run ((Jacobian.unknown n).difference sys c.differenceStep x f) v
        rw [run_bind_of_eq hd] at h
        cases hfail : d.failure with
        | some e =>
          simp only [hfail] at h
          cases h
          obtain ⟨j, u', hj⟩ := Jacobian.difference_eq_error hd hfail
          exact .undifferenced hx hf hn hj
        | none =>
          simp only [hfail] at h
          cases h
          exact .differenced hx hf hn hd hfail

theorem start_eq_ok {sys : Equations (StateM σ) α n} {c : Settings α} {point : List α} {w w' : σ}
    {s : State α n} (h : (start sys c point).run w = (.ok s, w')) :
    ∃ x f d v, Vec.ofList? n point = some x ∧ (sys x).run w = (.ok f, v) ∧
      f.firstNonFinite? = none ∧
      ((Jacobian.unknown n).difference sys c.differenceStep x f).run v = (d, w') ∧
      d.failure = none ∧ s = initial c x f d := by
  cases start_starts h with
  | differenced hx hf hn hd hfail => exact ⟨_, _, _, _, hx, hf, hn, hd, hfail, rfl⟩

theorem create_eq_ok {sys : Equations (StateM σ) α n} {c : Settings α} {point : List α}
    {w w' : σ} {s : State α n} (h : (create sys c point).run w = (.ok s, w')) :
    c.Valid ∧ n ≠ 0 ∧ (start sys c point).run w = (.ok s, w') := by
  unfold create at h
  cases hc : c.fault? with
  | some fault =>
    simp only [hc] at h
    cases h
  | none =>
    simp only [hc] at h
    by_cases hn : n = 0
    · rw [if_pos hn] at h
      cases h
    · rw [if_neg hn] at h
      exact ⟨hc, hn, h⟩

theorem create_eq_error {sys : Equations (StateM σ) α n} {c : Settings α} {point : List α}
    {w w' : σ} {e : SolveError} (h : (create sys c point).run w = (.error e, w')) :
    w' = w ∨ (start sys c point).run w = (.error e, w') := by
  unfold create at h
  cases hc : c.fault? with
  | some fault =>
    simp only [hc] at h
    cases h
    exact .inl rfl
  | none =>
    simp only [hc] at h
    by_cases hn : n = 0
    · rw [if_pos hn] at h
      cases h
      exact .inl rfl
    · rw [if_neg hn] at h
      exact .inr h

theorem create_running {sys : Equations (StateM σ) α n} {c : Settings α} {point : List α}
    {w w' : σ} {s : State α n} (h : (create sys c point).run w = (.ok s, w')) :
    s.status = .running ∧ s.iterations = 0 ∧ s.slow = 0 := by
  obtain ⟨x, f, d, v, -, -, -, -, -, rfl⟩ := start_eq_ok (create_eq_ok h).2.2
  exact ⟨rfl, rfl, rfl⟩

theorem create_eq_start {m : Type → Type} [Monad m] (sys : Equations m α n) {c : Settings α}
    (hc : c.Valid) (hn : n ≠ 0) (point : List α) : create sys c point = start sys c point := by
  have hfault : c.fault? = none := hc
  simp only [create, hfault, if_neg hn]

theorem restart_eq_ok {sys : Equations (StateM σ) α n} {c : Settings α} {point : List α}
    {w w' : σ} {s t : State α n} (h : (s.restart sys c point).run w = ((t, .ok ()), w')) :
    (start sys c point).run w = (.ok t, w') := by
  obtain ⟨answer, v, hs⟩ := exists_run (start sys c point) w
  rw [restart, run_bind_of_eq hs] at h
  cases answer with
  | error e => cases h
  | ok t =>
    cases h
    exact hs

theorem restart_eq_error {sys : Equations (StateM σ) α n} {c : Settings α} {point : List α}
    {w w' : σ} {s t : State α n} {e : SolveError}
    (h : (s.restart sys c point).run w = ((t, .error e), w')) :
    t = s ∧ (start sys c point).run w = (.error e, w') := by
  obtain ⟨answer, v, hs⟩ := exists_run (start sys c point) w
  rw [restart, run_bind_of_eq hs] at h
  cases answer with
  | error e =>
    cases h
    exact ⟨rfl, hs⟩
  | ok t => cases h

theorem restart_cases {sys : Equations (StateM σ) α n} {c : Settings α} {point : List α}
    {w w' : σ} {s t : State α n} {result : Except SolveError Unit}
    (h : (s.restart sys c point).run w = ((t, result), w')) :
    t = s ∨ (start sys c point).run w = (.ok t, w') := by
  cases result with
  | error e => exact .inl (restart_eq_error h).1
  | ok answer => exact .inr (restart_eq_ok h)

variable [SingularValues α]

inductive Reachable (sys : Equations (StateM σ) α n) (c : Settings α) : State α n → Prop
  | create {point : List α} {w w' : σ} {s : State α n}
      (h : (create sys c point).run w = (.ok s, w')) : Reachable sys c s
  | iterate {w w' : σ} {s : State α n} {a : Attempt α n} (hs : Reachable sys c s)
      (h : (s.iterate sys c).run w = (a, w')) : Reachable sys c a.state
  | restart {point : List α} {w w' : σ} {s t : State α n} {result : Except SolveError Unit}
      (hs : Reachable sys c s) (h : (s.restart sys c point).run w = ((t, result), w')) :
      Reachable sys c t

/-- Settings that are not valid are refused before the system is called. -/
theorem Reachable.valid {sys : Equations (StateM σ) α n} {c : Settings α} {s : State α n}
    (h : Reachable sys c s) : c.Valid := by
  induction h with
  | create h => exact (create_eq_ok h).1
  | iterate _ _ ih => exact ih
  | restart _ _ ih => exact ih

theorem Reachable.dimension_ne_zero {sys : Equations (StateM σ) α n} {c : Settings α}
    {s : State α n} (h : Reachable sys c s) : n ≠ 0 := by
  induction h with
  | create h => exact (create_eq_ok h).2.1
  | iterate _ _ ih => exact ih
  | restart _ _ ih => exact ih

/-- What holds of every started run and is kept by every iteration holds of every reachable
state. -/
theorem Reachable.invariant {sys : Equations (StateM σ) α n} {c : Settings α}
    {P : State α n → Prop}
    (hstart : ∀ point w s w', (start sys c point).run w = (.ok s, w') → P s)
    (hiterate : ∀ s w a w', P s → (s.iterate sys c).run w = (a, w') → P a.state)
    {s : State α n} (h : Reachable sys c s) : P s := by
  induction h with
  | create h => exact hstart _ _ _ _ (create_eq_ok h).2.2
  | iterate _ h ih => exact hiterate _ _ _ _ ih h
  | restart _ h ih =>
    rcases restart_cases h with rfl | h
    · exact ih
    · exact hstart _ _ _ _ h

/-- Iterations lead from one state to the other, without a new start between them. -/
inductive Continues (sys : Equations (StateM σ) α n) (c : Settings α) (s : State α n) :
    State α n → Prop
  | here : Continues sys c s s
  | iterate {t : State α n} {w w' : σ} {a : Attempt α n} (h : Continues sys c s t)
      (ha : (t.iterate sys c).run w = (a, w')) : Continues sys c s a.state

theorem Reachable.iterateUpTo {sys : Equations (StateM σ) α n} {c : Settings α} {s : State α n}
    (h : Reachable sys c s) (k : Nat) (w : σ) :
    Reachable sys c ((s.iterateUpTo sys c k).run w).1.1 := by
  induction k generalizing s w with
  | zero => exact h
  | succ k ih =>
    obtain ⟨a, v, ha⟩ := exists_run (s.iterate sys c) w
    have hs : Reachable sys c a.state := h.iterate ha
    rw [State.iterateUpTo, run_bind_of_eq ha]
    cases hr : a.result with
    | error b => exact hs
    | ok report =>
      by_cases hk : k = 0 ∨ a.state.status.isTerminal = true
      · simp only [if_pos hk]
        exact hs
      · simp only [if_neg hk]
        exact ih hs v

def runFrom (sys : Equations (StateM σ) α n) (c : Settings α) (point : List α) (k : Nat) :
    StateM σ (Except SolveError (State α n)) := do
  match ← create sys c point with
  | .error e => pure (.error e)
  | .ok s =>
    let (t, _) ← s.iterateUpTo sys c k
    pure (.ok t)

theorem runFrom_reachable {sys : Equations (StateM σ) α n} {c : Settings α} {point : List α}
    {k : Nat} {w w' : σ} {s : State α n} (h : (runFrom sys c point k).run w = (.ok s, w')) :
    Reachable sys c s := by
  obtain ⟨answer, v, hc⟩ := exists_run (State.create sys c point) w
  rw [runFrom, run_bind_of_eq hc] at h
  cases answer with
  | error e => cases h
  | ok t =>
    have ht := (Reachable.create hc).iterateUpTo k v
    cases h
    exact ht

/-- What is checked of a closed run holds of a reachable state. -/
theorem exists_reachable (sys : Equations (StateM σ) α n) (c : Settings α) (point : List α)
    (k : Nat) (w : σ) (P : State α n → σ → Bool)
    (h : (match (runFrom sys c point k).run w with
      | (.ok s, v) => P s v
      | (.error _, _) => false) = true) :
    ∃ s v, Reachable sys c s ∧ P s v = true := by
  obtain ⟨answer, v, hr⟩ := exists_run (runFrom sys c point k) w
  rw [hr] at h
  cases answer with
  | error e => cases h
  | ok s => exact ⟨s, v, runFrom_reachable hr, h⟩

end State

end RootFinder
