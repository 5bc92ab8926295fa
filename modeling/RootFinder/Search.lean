import RootFinder.Iteration

/-! The search for a root: iterations from a starting point until a test is passed, the run gives
up, or the observer that sees each iteration cancels it. -/

namespace RootFinder

/-- What an observer sees of a run, at its start and after each iteration. -/
structure Snapshot (α : Type) (n : Nat) where
  state : State α n
  /-- What the iteration did; nothing at the start. -/
  report : Option (Report α n)

inductive Control
  | proceed
  | cancel
  deriving DecidableEq

inductive Criterion
  | residual
  | stepSize
  deriving DecidableEq

structure Root (α : Type) (n : Nat) where
  x : Vec α n
  f : Vec α n
  iterations : Nat
  evaluations : Nat
  criterion : Criterion

/-- Where a search ended that found no root. Without a first state there is only the starting
point, of whatever length. -/
structure SearchFailure (α : Type) (n : Nat) where
  error : SolveError
  x : List α
  f : Option (List α)
  iterations : Nat
  evaluations : Nat
  /-- The breakdown of the last iteration, if it came to no end. -/
  breakdown : Option (Breakdown α n)

abbrev Outcome (α : Type) (n : Nat) :=
  Except (SearchFailure α n) (Root α n)

namespace State

variable {α : Type} {n : Nat}

def root (s : State α n) (criterion : Criterion) : Outcome α n :=
  .ok ⟨s.x, s.f, s.iterations, s.evaluations, criterion⟩

def failure (s : State α n) (error : SolveError) : Outcome α n :=
  .error ⟨error, s.x.toList, some s.f.toList, s.iterations, s.evaluations, none⟩

/-- The failure of a search whose last iteration broke down and left this state. -/
def brokenDown (s : State α n) (b : Breakdown α n) : Outcome α n :=
  .error ⟨b.error, s.x.toList, some s.f.toList, s.iterations, s.evaluations, some b⟩

end State

variable {m : Type → Type} [Monad m] {α : Type} [Scalar α] [SingularValues α] {n : Nat}

/-- Goes on from a state with a budget of iterations. -/
def searchFrom (sys : Equations m α n) (observe : Snapshot α n → m Control) (c : Settings α) :
    Nat → State α n → m (Outcome α n)
  | budget, s =>
    if residualTest s.f c.tolerance = .success then pure (s.root .residual)
    else
      match budget with
      | 0 => pure (s.failure (.iterationLimit c.maxIterations))
      | budget + 1 => do
        let a ← s.iterate sys c
        let s := a.state
        match a.result with
        | .error b => pure (s.brokenDown b)
        | .ok report =>
          match ← observe ⟨s, some report⟩ with
          | .cancel => pure (s.failure .cancelled)
          | .proceed =>
            match s.status with
            | .success => pure (s.root .residual)
            | .jacobianSingular => pure (s.failure .jacobianSingular)
            | .noProgress => pure (s.failure .noProgress)
            | .iterationLimit => pure (s.failure (.iterationLimit c.maxIterations))
            | .running =>
              if c.hasStepTest ∧
                  stepTest s.step s.x c.stepToleranceAbs c.stepToleranceRel = .success then
                pure (s.root .stepSize)
              else searchFrom sys observe c budget s

/-- Searches for a root from a starting point, showing the run to an observer. -/
def search (sys : Equations m α n) (observe : Snapshot α n → m Control) (c : Settings α)
    (point : List α) : m (Outcome α n) := do
  match ← State.create sys c point with
  | .error e => pure (.error ⟨e, point, none, 0, 0, none⟩)
  | .ok s =>
    match ← observe ⟨s, none⟩ with
    | .cancel => pure (s.failure .cancelled)
    | .proceed => searchFrom sys observe c c.maxIterations s

def solve (sys : Equations m α n) (c : Settings α) (point : List α) : m (Outcome α n) :=
  search sys (fun _ => pure .proceed) c point

end RootFinder
