import RootFinder.State
import RootFinder.Stopping

/-! One iteration of a run. It factors the Jacobian, proposes a step within the trust region,
evaluates the point the step leads to, and compares the decrease of the residual norm with the one
that the linear model predicted. The comparison decides whether the step is taken, how the radius
changes and whether the run goes on. -/

namespace RootFinder

/-- How a step did: relative decreases of the squared residual norm, found and predicted, and
their ratio. -/
structure Gain (α : Type) where
  actual : α
  predicted : α
  ratio : α

/-- The refresh of a Jacobian that could not be factored, and the refusal of the new one. -/
structure Recomputation (α : Type) where
  wasStale : Bool
  refusal : Option (Refusal α)

/-- The state in which a step can be looked for, and how it was reached. -/
structure Preparation (α : Type) (n : Nat) where
  state : State α n
  linear : LinearSolver α n
  refusal : Option (Refusal α)
  recomputation : Option (Recomputation α)

/-- The refusal of the Jacobian that a step would be looked for with. -/
def Preparation.finalRefusal? {α : Type} {n : Nat} (p : Preparation α n) : Option (Refusal α) :=
  match p.recomputation with
  | none => p.refusal
  | some r => r.refusal

def Preparation.isUndetermined {α : Type} {n : Nat} (p : Preparation α n) : Bool :=
  decide (p.finalRefusal?.map Refusal.error = some .decomposition)

def Preparation.step? {α : Type} [Scalar α] {n : Nat} (p : Preparation α n) :
    Option (Step α n) :=
  Step.choose? p.linear p.state.jacobian.matrix p.state.f p.state.scaling p.state.radius

/-- A proposed step and its judgement. -/
structure Trial (α : Type) (n : Nat) where
  step : Step α n
  stepNorm : α
  /-- The radius before the judgement: a first step that is shorter bounds it. -/
  radius : α
  value : Vec α n
  gain : Gain α
  accepted : Bool
  /-- The Jacobian was differenced anew because the step was rejected. -/
  refreshed : Bool

inductive Report (α : Type) (n : Nat)
  | settled
  | singular (preparation : Preparation α n)
  | tried (preparation : Preparation α n) (trial : Trial α n)

/-- Why an iteration came to no end: a call failed, or the condition of the Jacobian could not be
found. -/
inductive Breakdown (α : Type) (n : Nat)
  | eval (cause : EvalError)
  | undetermined (preparation : Preparation α n)

def Breakdown.error {α : Type} {n : Nat} : Breakdown α n → SolveError
  | eval cause => .eval cause
  | undetermined _ => .decomposition

/-- An iteration's state, also after a breakdown. -/
structure Attempt (α : Type) (n : Nat) where
  state : State α n
  result : Except (Breakdown α n) (Report α n)

/-- What the caller of the iteration is told. -/
def Attempt.answer {α : Type} {n : Nat} (a : Attempt α n) : Except SolveError Status :=
  match a.result with
  | .error b => .error b.error
  | .ok _ => .ok a.state.status

/-- The relative decrease of the squared norm, if the norm decreases. -/
def decrease? {α : Type} [Scalar α] (before after : α) : Option α :=
  if after < before then
    let quotient := after / before
    some (1 - quotient * quotient)
  else none

namespace Gain

variable {α : Type} [Scalar α] {n : Nat}

/-- A point where a residual is not finite, and a step from which nothing was to be gained, have
ratio zero. -/
def ofTrial (J : Mat α n) (f step value : Vec α n) : Gain α :=
  let norm := f.norm
  let actual := if value.isFinite then (decrease? norm value.norm).getD (-1) else -1
  let predicted := (decrease? norm ((J.mulVec step).addScaled 1 f).norm).getD 0
  ⟨actual, predicted, if 0 < predicted ∧ value.isFinite then actual / predicted else 0⟩

end Gain

namespace State

variable {m : Type → Type} [Monad m] {α : Type} [Scalar α] {n : Nat}

def boundedRadius (c : Settings α) (s : State α n) (stepNorm : α) : α :=
  if s.iterations = 0 ∧ stepNorm < s.radius then clampRadius c stepNorm else s.radius

/-- The radius and the count of agreements after a step with this gain ratio. A ratio close to one
lets the region reach as far as the model was found right. -/
def judgedRadius (c : Settings α) (agreements : Nat) (radius ratio stepNorm : α) : α × Nat :=
  if ratio < c.shrinkThreshold then (clampRadius c (radius * c.shrinkFactor), 0)
  else
    let grown :=
      if c.expandThreshold ≤ ratio ∨ 1 < agreements + 1 then
        Scalar.maxNum radius (c.expandFactor * stepNorm)
      else radius
    let reached :=
      if Scalar.abs (ratio - 1) ≤ c.shrinkThreshold then c.expandFactor * stepNorm else grown
    (clampRadius c reached, agreements + 1)

def advance (c : Settings α) (s : State α n) (value : Vec α n) : State α n :=
  let df := (s.f.addScaled (-1) value).neg
  let jacobian := s.jacobian.update s.step df
  { s with
    x := s.x.addScaled 1 s.step
    f := value
    jacobian
    scaling := grownScaling c s.scaling jacobian.matrix
    rejections := 0 }

def stay (s : State α n) (refreshed : Bool) : State α n :=
  { s with rejections := if refreshed then 0 else s.rejections + 1 }

def verdict (c : Settings α) (s : State α n) (accepted : Bool) : Status :=
  if accepted ∧ residualTest s.f c.tolerance = .success then .success
  else if (¬ accepted ∧ s.radius ≤ c.minRadius) ∨ c.slowLimit ≤ s.slow then .noProgress
  else .running

def commit (c : Settings α) (s : State α n) (t : Trial α n) : State α n :=
  let moved := if t.accepted then s.advance c t.value else s.stay t.refreshed
  let (radius, agreements) := judgedRadius c s.agreements t.radius t.gain.ratio t.stepNorm
  let judged := { moved with
    radius, agreements
    slow := if 1e-3 ≤ t.gain.actual then 0 else s.slow + 1
    iterations := s.iterations + 1 }
  { judged with status := judged.verdict c t.accepted }

def propose (s : State α n) (step : Step α n) : State α n :=
  { s with step := step.move, stepKind := some step.kind }

/-- The state after one more call of the system that succeeded. -/
def counted (s : State α n) : State α n :=
  { s with evaluations := s.evaluations + 1 }

def judge (c : Settings α) (s : State α n) (step : Step α n) (value : Vec α n) : Trial α n :=
  let stepNorm := step.move.scaledNorm s.scaling
  let gain := Gain.ofTrial s.jacobian.matrix s.f step.move value
  let accepted := decide (c.acceptThreshold ≤ gain.ratio)
  let refreshed := !accepted && s.jacobian.isOutdated (s.rejections + 1) c.refreshLimit
  { step, stepNorm, radius := s.boundedRadius c stepNorm, value, gain, accepted, refreshed }

/-- Evaluates the point that the step leads to and judges the step. Nothing but the step is kept
if a call fails. -/
def tryStep (sys : Equations m α n) (c : Settings α) (p : Preparation α n) (step : Step α n) :
    m (Attempt α n) := do
  let s := p.state.propose step
  match ← sys (s.x.addScaled 1 step.move) with
  | .error e => pure ⟨s, .error (.eval e)⟩
  | .ok value =>
    let s := s.counted
    let trial := s.judge c step value
    if trial.refreshed then
      match ← s.refresh sys c with
      | .error e => pure ⟨s, .error (.eval e)⟩
      | .ok r => pure ⟨r.commit c trial, .ok (.tried p trial)⟩
    else pure ⟨s.commit c trial, .ok (.tried p trial)⟩

variable [SingularValues α]

/-- Factors the Jacobian. One that counts as singular and carries updates is differenced anew
first. -/
def prepare (sys : Equations m α n) (c : Settings α) (s : State α n) :
    m (Except EvalError (Preparation α n)) :=
  let linear : LinearSolver α n := { tolerance := c.singularTolerance }
  match linear.factor s.jacobian.matrix with
  | (linear, none) => pure (.ok ⟨s, linear, none, none⟩)
  | (linear, some refusal) =>
    if s.jacobian.fresh ∨ refusal.error = .decomposition then
      pure (.ok ⟨s, linear, some refusal, none⟩)
    else do
      match ← s.refresh sys c with
      | .error e => pure (.error e)
      | .ok r =>
        let (linear, again) := linear.factor r.jacobian.matrix
        pure (.ok ⟨r, linear, some refusal, some ⟨s.jacobian.stale, again⟩⟩)

/-- One iteration. After a terminal status, with no budget left or at a root it does nothing but
say so. -/
def iterate (sys : Equations m α n) (c : Settings α) (s : State α n) : m (Attempt α n) :=
  if s.status.isTerminal then pure ⟨s, .ok .settled⟩
  else if c.maxIterations ≤ s.iterations then
    pure ⟨{ s with status := .iterationLimit }, .ok .settled⟩
  else if s.f.norm == 0 then pure ⟨{ s with status := .success }, .ok .settled⟩
  else do
    match ← s.prepare sys c with
    | .error e => pure ⟨s, .error (.eval e)⟩
    | .ok p =>
      if p.isUndetermined then pure ⟨p.state, .error (.undetermined p)⟩
      else
        match p.step? with
        | none => pure ⟨{ p.state with status := .jacobianSingular }, .ok (.singular p)⟩
        | some step => tryStep sys c p step

/-- At most `k` iterations, up to the first that ends the run or breaks down. -/
def iterateUpTo (sys : Equations m α n) (c : Settings α) :
    Nat → State α n → m (State α n × Option (Except (Breakdown α n) (Report α n)))
  | 0, s => pure (s, none)
  | k + 1, s => do
    let a ← s.iterate sys c
    match a.result with
    | .error _ => pure (a.state, some a.result)
    | .ok _ =>
      if k = 0 ∨ a.state.status.isTerminal then pure (a.state, some a.result)
      else iterateUpTo sys c k a.state

end State

end RootFinder
