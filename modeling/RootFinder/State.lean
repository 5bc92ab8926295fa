import RootFinder.Jacobian
import RootFinder.Settings
import RootFinder.TrustStep

/-! The state of a run: the point, its residuals and Jacobian, the trust region, the last step and
the counts. A run starts from a point, or is started again from another one. -/

namespace RootFinder

structure State (α : Type) (n : Nat) where
  x : Vec α n
  f : Vec α n
  jacobian : Jacobian α n
  /-- The units in which the trust region is measured. -/
  scaling : Vec α n
  radius : α
  /-- The step proposed last, whether or not it was taken. -/
  step : Vec α n
  stepKind : Option StepKind
  iterations : Nat
  /-- The answered calls of the start, the trials and the refreshes since. A refresh or another
  start that fails counts none of its calls. -/
  evaluations : Nat
  /-- Rejections in a row, since the last taken step or the last refresh after a rejection. -/
  rejections : Nat
  /-- Iterations in a row in which the radius had no reason to shrink. -/
  agreements : Nat
  /-- Iterations in a row with too little progress. -/
  slow : Nat
  status : Status

namespace State

variable {m : Type → Type} [Monad m] {α : Type} [Scalar α] {n : Nat}

/-- The first units: the lengths of the columns, or one where a column is zero. -/
def firstScaling (c : Settings α) (a : Mat α n) : Vec α n :=
  if c.scaled then a.columnNorms.map fun length => if length == 0 then 1 else length
  else Vec.ones n

/-- Units never become smaller. -/
def grownScaling (c : Settings α) (scaling : Vec α n) (a : Mat α n) : Vec α n :=
  if c.scaled then Vector.zipWith Scalar.maxNum scaling a.columnNorms else scaling

def clampRadius (c : Settings α) (radius : α) : α :=
  Scalar.clamp c.minRadius c.maxRadius radius

def firstRadius (c : Settings α) (x scaling : Vec α n) : α :=
  clampRadius c <|
    match c.initialRadius with
    | .estimated factor =>
      let length := x.scaledNorm scaling
      if 0 < length then factor * length else factor
    | .fixed radius => radius

/-- The state of a run that has done nothing but evaluate and difference at `x`. -/
def initial (c : Settings α) (x f : Vec α n) (d : Differencing α n) : State α n :=
  let scaling := firstScaling c d.jacobian.matrix
  { x, f, jacobian := d.jacobian, scaling
    radius := firstRadius c x scaling
    step := Vec.zeros n
    stepKind := none
    iterations := 0
    evaluations := 1 + d.evaluations
    rejections := 0
    agreements := 0
    slow := 0
    status := .running }

/-- Starts a run from a point: it must have the right length, finite residuals, and neighbours in
every direction at which the system can be evaluated. -/
def start (sys : Equations m α n) (c : Settings α) (point : List α) :
    m (Except SolveError (State α n)) :=
  match Vec.ofList? n point with
  | none => pure (.error (.dimensionMismatch n point.length))
  | some x => do
    match ← sys x with
    | .error e => pure (.error (.eval e))
    | .ok f =>
      match f.firstNonFinite? with
      | some i => pure (.error (.eval (.nonFinite i)))
      | none =>
        let d ← (Jacobian.unknown n).difference sys c.differenceStep x f
        match d.failure with
        | some e => pure (.error (.eval e))
        | none => pure (.ok (initial c x f d))

/-- The first run of a system, with settings that are checked before the system is. -/
def create (sys : Equations m α n) (c : Settings α) (point : List α) :
    m (Except SolveError (State α n)) :=
  match c.fault? with
  | some fault => pure (.error (.invalidSettings fault))
  | none => if n = 0 then pure (.error .emptySystem) else start sys c point

/-- Starts again from another point. A start that fails leaves the run as it was. -/
def restart (sys : Equations m α n) (c : Settings α) (s : State α n) (point : List α) :
    m (State α n × Except SolveError Unit) := do
  match ← start sys c point with
  | .error e => pure (s, .error e)
  | .ok t => pure (t, .ok ())

def renewed (c : Settings α) (s : State α n) (d : Differencing α n) : State α n :=
  { s with
    jacobian := d.jacobian
    evaluations := s.evaluations + d.evaluations
    scaling := grownScaling c s.scaling d.jacobian.matrix }

/-- Differences the Jacobian anew at the point; a failure changes nothing. -/
def refresh (sys : Equations m α n) (c : Settings α) (s : State α n) :
    m (Except EvalError (State α n)) := do
  let d ← s.jacobian.difference sys c.differenceStep s.x s.f
  match d.failure with
  | some e => pure (.error e)
  | none => pure (.ok (s.renewed c d))

end State

end RootFinder
