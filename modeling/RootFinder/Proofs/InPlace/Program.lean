import RootFinder.Proofs.InPlace.Buffers
import RootFinder.Search

/-! The method in place. The solver owns its buffers, all of one length when it is made, and
overwrites, swaps and reuses them from then on; the system writes its residuals into a buffer, too.
Wherever buffers meet, an element is picked or a scalar is brought between bounds, there may be a
fault. -/

namespace RootFinder

namespace InPlace

variable {σ α : Type}

/-- A computation of the program. A fault ends it for good. -/
abbrev Run (σ : Type) := StateT σ (Except Fault)

structure Residuals (σ α : Type) where
  dimension : Nat
  /-- Whether the point has residuals, and what the buffer holds afterwards. -/
  write : (point buffer : List α) → StateM σ (Except EvalError Unit × List α)

def outside {β : Type} (x : StateM σ β) : Run σ β :=
  fun w => .ok (x.run w)

def evaluateInto (sys : Residuals σ α) (x out : List α) :
    Run σ (Except EvalError Unit × List α) :=
  if x.length ≠ sys.dimension then
    pure (.error (.wrongDimension sys.dimension x.length), out)
  else if out.length ≠ sys.dimension then throw .length
  else outside (sys.write x out)

structure Estimator (α : Type) where
  differenceStep : α
  fresh : Bool
  stale : Bool
  neighbour : List α
  residuals : List α
  scratch : List α

structure Dogleg (α : Type) where
  newton : List α
  gradient : List α
  cauchy : List α
  image : List α

structure Solver (α : Type) where
  settings : Settings α
  x : List α
  f : List α
  jac : Square α
  factors : Factors α
  scaling : List α
  radius : α
  step : List α
  iterations : Nat
  evaluations : Nat
  rejections : Nat
  agreements : Nat
  slow : Nat
  status : Status
  stepKind : Option StepKind
  estimator : Estimator α
  dogleg : Dogleg α
  trialX : List α
  trialF : List α
  /-- Differences land here before they replace the Jacobian. -/
  trialJac : Square α
  model : List α

variable [Scalar α]

namespace Estimator

/-- Differences the listed columns in order. The neighbour's buffer holds the point between the
calls. -/
def columns (sys : Residuals σ α) (x f : List α) :
    List Nat → Estimator α → Square α → Nat →
      Run σ (Estimator α × Square α × Nat × Option EvalError)
  | [], e, jac, count => pure (e, jac, count, none)
  | j :: js, e, jac, count => do
    let c ← read x j
    let h := Jacobian.increment e.differenceStep c
    let moved ← write e.neighbour j (c + h)
    let (answer, residuals) ← evaluateInto sys moved e.residuals
    let neighbour ← write moved j c
    match answer with
    | .error failure => pure ({ e with neighbour, residuals }, jac, count, some failure)
    | .ok () =>
      let slopes ← both (fun f g => (Jacobian.slopes h f g).toList) f residuals
      let scratch ← copyFrom e.scratch slopes
      let jac ← jac.setColumn j scratch
      columns sys x f js { e with neighbour, residuals, scratch } jac (count + 1)

def estimate (sys : Residuals σ α) (x f : List α) (e : Estimator α) (jac : Square α)
    (count : Nat) : Run σ (Estimator α × Square α × Nat × Option EvalError) := do
  let neighbour ← copyFrom e.neighbour x
  let (e, jac, count, failure) ←
    columns sys x f (List.range x.length) { e with neighbour } jac count
  match failure with
  | some failure => pure (e, jac, count, some failure)
  | none => pure ({ e with fresh := true, stale := false }, jac, count, none)

def update (e : Estimator α) (jac : Square α) (step df : List α) :
    Except Fault (Estimator α × Square α) := do
  let squared ← alone Vec.normSquared step
  if Scalar.isNaN squared || decide (squared ≤ Scalar.leastNormal) then
    pure ({ e with stale := true }, jac)
  else do
    let predicted ← jac.times Mat.mulVec step e.scratch
    let scratch ← both (fun df p => (Vector.ofFn fun i => df.get i - p.get i).toList) df predicted
    let jac ← jac.addRankOne (1 / squared) scratch step
    pure ({ e with scratch, fresh := false }, jac)

def isOutdated (e : Estimator α) (rejections limit : Nat) : Bool :=
  !e.fresh && (e.stale || decide (limit ≤ rejections))

end Estimator

/-- Where the way from `p` to the end of `p + w` leaves the region. -/
def boundaryFraction (p w d : List α) (radius : α) : Except Fault α := do
  let a ← asVec p.length p
  let b ← asVec p.length w
  let c ← asVec p.length d
  pure (Step.boundaryFraction a b c radius)

namespace Dogleg

/-- Shortens the steepest descent to the Cauchy point, and goes on towards the Newton step if there
is room left. -/
def bend (scaling : List α) (radius curvature : α) (d : Dogleg α) (step : List α) :
    Except Fault (Dogleg α × List α × StepKind) := do
  let descent ← both Vec.dot d.gradient d.cauchy
  let cauchy := scale d.cauchy (descent / curvature)
  let d := { d with cauchy }
  let length ← both Vec.scaledNorm cauchy scaling
  if radius ≤ length then do
    let step ← copyFrom step cauchy
    pure (d, scale step (radius / length), .steepestDescent)
  else do
    let way ← addScaled (-1) d.newton cauchy
    let d := { d with newton := way }
    let t ← boundaryFraction cauchy way scaling radius
    let start ← copyFrom step cauchy
    let step ← addScaled t start way
    pure (d, step, .dogleg)

def within (jac : Square α) (f scaling : List α) (radius length : α) (d : Dogleg α)
    (step : List α) : Except Fault (Dogleg α × List α × StepKind) := do
  let product ← jac.times Mat.transposeMulVec f d.gradient
  let gradient := scale product (-1)
  let d := { d with gradient }
  let largest ← alone Vec.normMax gradient
  if largest == 0 then do
    let step ← copyFrom step d.newton
    pure (d, scale step (radius / length), .scaledNewton)
  else do
    let direction ← both (fun g d => (Step.unscale g d).toList) gradient scaling
    let cauchy ← copyFrom d.cauchy direction
    let image ← jac.times Mat.mulVec cauchy d.image
    let d := { d with cauchy, image }
    let curvature ← alone Vec.normSquared image
    if Scalar.isNormal curvature then d.bend scaling radius curvature step
    else do
      let step ← copyFrom step d.newton
      pure (d, scale step (radius / length), .scaledNewton)

/-- Computes a step into the last buffer. Without a kind there was no solution. -/
def compute (factors : Factors α) (jac : Square α) (f scaling : List α) (radius : α)
    (d : Dogleg α) (step : List α) : Except Fault (Dogleg α × List α × Option StepKind) := do
  let right ← copyFrom d.newton f
  let (newton, solved) ← factors.solve (scale right (-1))
  let d := { d with newton }
  if !solved then pure (d, step, none)
  else do
    let length ← both Vec.scaledNorm newton scaling
    if length ≤ radius then do
      let step ← copyFrom step newton
      pure (d, step, some .newton)
    else do
      let (d, step, kind) ← d.within jac f scaling radius length step
      pure (d, step, some kind)

end Dogleg

def clampRadius (c : Settings α) (radius : α) : Except Fault α :=
  clamp c.minRadius c.maxRadius radius

/-- The radius, before it is brought between its bounds, and the count of agreements after a step
with this gain ratio. -/
def reachedRadius (c : Settings α) (agreements : Nat) (radius ratio stepNorm : α) : α × Nat :=
  if ratio < c.shrinkThreshold then (radius * c.shrinkFactor, 0)
  else
    let grown :=
      if c.expandThreshold ≤ ratio ∨ 1 < agreements + 1 then
        Scalar.maxNum radius (c.expandFactor * stepNorm)
      else radius
    (if Scalar.abs (ratio - 1) ≤ c.shrinkThreshold then c.expandFactor * stepNorm else grown,
      agreements + 1)

namespace Solver

/-- All buffers have their length from here. -/
def blank (n : Nat) (c : Settings α) : Solver α :=
  let zeros := List.replicate n 0
  { settings := c
    x := zeros
    f := zeros
    jac := .zeros n
    factors := ⟨c.singularTolerance, none⟩
    scaling := zeros
    radius := 0
    step := zeros
    iterations := 0
    evaluations := 0
    rejections := 0
    agreements := 0
    slow := 0
    status := .running
    stepKind := none
    estimator := ⟨c.differenceStep, false, false, zeros, zeros, zeros⟩
    dogleg := ⟨zeros, zeros, zeros, zeros⟩
    trialX := zeros
    trialF := zeros
    trialJac := .zeros n
    model := zeros }

/-- The solver at its new point: what was on trial takes the place of what was there. -/
def begin (s : Solver α) (evaluations : Nat) : Except Fault (Solver α) := do
  let c := s.settings
  let jac := s.trialJac
  let x := s.trialX
  let scaling :=
    if c.scaled then jac.columnNorms.map fun length => if length == 0 then 1 else length
    else s.scaling.map fun _ => 1
  let first ← match c.initialRadius with
    | .estimated factor => do
      let length ← both Vec.scaledNorm x scaling
      pure (if 0 < length then factor * length else factor)
    | .fixed radius => pure radius
  let radius ← clampRadius c first
  pure { s with
    x
    trialX := s.x
    f := s.trialF
    trialF := s.f
    jac
    trialJac := s.jac
    scaling
    radius
    step := s.step.map fun _ => 0
    iterations := 0
    evaluations
    rejections := 0
    agreements := 0
    slow := 0
    status := .running
    stepKind := none }

def set (sys : Residuals σ α) (s : Solver α) (point : List α) :
    Run σ (Solver α × Except SolveError Unit) :=
  if point.length ≠ s.x.length then
    pure (s, .error (.dimensionMismatch s.x.length point.length))
  else do
    let trialX ← copyFrom s.trialX point
    let (answer, trialF) ← evaluateInto sys trialX s.trialF
    let s := { s with trialX, trialF }
    match answer with
    | .error e => pure (s, .error (.eval e))
    | .ok () =>
      match ← alone (fun f => f.firstNonFinite?.map Fin.val) s.trialF with
      | some i => pure (s, .error (.eval (.nonFinite i)))
      | none =>
        let (estimator, trialJac, evaluations, failure) ←
          s.estimator.estimate sys s.trialX s.trialF s.trialJac 1
        let s := { s with estimator, trialJac }
        match failure with
        | some e => pure (s, .error (.eval e))
        | none =>
          let s ← s.begin evaluations
          pure (s, .ok ())

def create (sys : Residuals σ α) (c : Settings α) (point : List α) :
    Run σ (Except SolveError (Solver α)) :=
  match c.fault? with
  | some fault => pure (.error (.invalidSettings fault))
  | none =>
    if sys.dimension = 0 then pure (.error .emptySystem)
    else if point.length ≠ sys.dimension then
      pure (.error (.dimensionMismatch sys.dimension point.length))
    else do
      let (s, answer) ← (blank sys.dimension c).set sys point
      match answer with
      | .error e => pure (.error e)
      | .ok () => pure (.ok s)

def grow (s : Solver α) : Except Fault (Solver α) :=
  if s.settings.scaled then do
    let scaling ← both (fun d lengths => (Vector.zipWith Scalar.maxNum d lengths).toList)
      s.scaling s.jac.columnNorms
    pure { s with scaling }
  else pure s

def refresh (sys : Residuals σ α) (s : Solver α) : Run σ (Solver α × Option EvalError) := do
  let (estimator, trialJac, evaluations, failure) ←
    s.estimator.estimate sys s.x s.f s.trialJac s.evaluations
  let s := { s with estimator, trialJac }
  match failure with
  | some e => pure (s, some e)
  | none =>
    let s ← { s with jac := s.trialJac, trialJac := s.jac, evaluations }.grow
    pure (s, none)

/-- Factors the Jacobian as it is, and tells whether it is fit for a step. -/
def factorOnce [SingularValues α] (s : Solver α) : Solver α × Except SolveError Bool :=
  match s.factors.factor s.jac with
  | (factors, none) => ({ s with factors }, .ok true)
  | (factors, some error) =>
    ({ s with factors }, if error = .jacobianSingular then .ok false else .error error)

def factor [SingularValues α] (sys : Residuals σ α) (s : Solver α) :
    Run σ (Solver α × Except SolveError Bool) :=
  match s.factorOnce with
  | (s, .error e) => pure (s, .error e)
  | (s, .ok true) => pure (s, .ok true)
  | (s, .ok false) =>
    if s.estimator.fresh then pure (s, .ok false)
    else do
      let (s, failure) ← s.refresh sys
      match failure with
      | some e => pure (s, .error (.eval e))
      | none => pure s.factorOnce

/-- Takes the step: the buffers of the point and the residuals change places with those on trial,
and the change of the residuals is computed where the old ones are. -/
def accept (s : Solver α) : Except Fault (Solver α) := do
  let f := s.trialF
  let difference ← addScaled (-1) s.f f
  let df := scale difference (-1)
  let (estimator, jac) ← s.estimator.update s.jac s.step df
  { s with rejections := 0, x := s.trialX, trialX := s.x, f, trialF := df, estimator, jac }.grow

def move (s : Solver α) (accepted refreshed : Bool) : Except Fault (Solver α) :=
  if accepted then s.accept
  else pure { s with rejections := if refreshed then 0 else s.rejections + 1 }

def conclude (s : Solver α) (gain : Gain α) (stepNorm radius : α) (accepted refreshed : Bool) :
    Except Fault (Solver α) := do
  let c := s.settings
  let (reached, agreements) := reachedRadius c s.agreements radius gain.ratio stepNorm
  let radius ← clampRadius c reached
  let s := { s with radius, agreements }
  let s ← s.move accepted refreshed
  let slow := if 1e-3 ≤ gain.actual then 0 else s.slow + 1
  let size ← alone Vec.normOne s.f
  let status : Status :=
    if accepted && decide (size ≤ c.tolerance) then .success
    else if (!accepted && decide (s.radius ≤ c.minRadius)) || decide (c.slowLimit ≤ slow) then
      .noProgress
    else .running
  pure { s with slow, iterations := s.iterations + 1, status }

def boundedRadius (s : Solver α) (stepNorm : α) : Except Fault α :=
  if s.iterations = 0 ∧ stepNorm < s.radius then clampRadius s.settings stepNorm
  else pure s.radius

def tryStep (sys : Residuals σ α) (s : Solver α) (norm : α) :
    Run σ (Solver α × Except SolveError Status) := do
  let c := s.settings
  let stepNorm ← both Vec.scaledNorm s.step s.scaling
  let radius ← s.boundedRadius stepNorm
  let start ← copyFrom s.trialX s.x
  let trialX ← addScaled 1 start s.step
  let (answer, trialF) ← evaluateInto sys trialX s.trialF
  let s := { s with trialX, trialF }
  match answer with
  | .error e => pure (s, .error (.eval e))
  | .ok () => do
    let finite ← alone Vec.isFinite s.trialF
    let trialNorm ← alone Vec.norm s.trialF
    let product ← s.jac.times Mat.mulVec s.step s.model
    let model ← addScaled 1 product s.f
    let modelNorm ← alone Vec.norm model
    let actual := if finite then (decrease? norm trialNorm).getD (-1) else -1
    let predicted := (decrease? norm modelNorm).getD 0
    let gain : Gain α :=
      ⟨actual, predicted, if 0 < predicted ∧ finite then actual / predicted else 0⟩
    let accepted := decide (c.acceptThreshold ≤ gain.ratio)
    let refreshed := !accepted && s.estimator.isOutdated (s.rejections + 1) c.refreshLimit
    let s := { s with model, evaluations := s.evaluations + 1 }
    if refreshed then do
      let (s, failure) ← s.refresh sys
      match failure with
      | some e => pure (s, .error (.eval e))
      | none =>
        let s ← s.conclude gain stepNorm radius accepted refreshed
        pure (s, .ok s.status)
    else do
      let s ← s.conclude gain stepNorm radius accepted refreshed
      pure (s, .ok s.status)

def iterate [SingularValues α] (sys : Residuals σ α) (s : Solver α) :
    Run σ (Solver α × Except SolveError Status) :=
  let singular (s : Solver α) : Solver α × Except SolveError Status :=
    ({ s with status := .jacobianSingular }, .ok .jacobianSingular)
  if s.status.isTerminal then pure (s, .ok s.status)
  else if s.settings.maxIterations ≤ s.iterations then
    pure ({ s with status := .iterationLimit }, .ok .iterationLimit)
  else do
    let norm ← alone Vec.norm s.f
    if norm == 0 then pure ({ s with status := .success }, .ok .success)
    else do
      let (s, factored) ← s.factor sys
      match factored with
      | .error e => pure (s, .error e)
      | .ok false => pure (singular s)
      | .ok true => do
        let (dogleg, step, kind) ←
          s.dogleg.compute s.factors s.jac s.f s.scaling s.radius s.step
        let s := { s with dogleg, step }
        match kind with
        | none => pure (singular s)
        | some kind => tryStep sys { s with stepKind := some kind } norm

end Solver

structure Stats (α : Type) where
  iterations : Nat
  x : List α
  f : List α
  residual : α
  radius : α
  stepKind : Option StepKind
  status : Status

structure Found (α : Type) where
  x : List α
  f : List α
  iterations : Nat
  evaluations : Nat
  criterion : Criterion

structure Failed (α : Type) where
  error : SolveError
  x : List α
  f : Option (List α)
  iterations : Nat
  evaluations : Nat

namespace Solver

def stats (s : Solver α) : Except Fault (Stats α) := do
  let residual ← alone Vec.normOne s.f
  pure ⟨s.iterations, s.x, s.f, residual, s.radius, s.stepKind, s.status⟩

omit [Scalar α]

def found (s : Solver α) (criterion : Criterion) : Except (Failed α) (Found α) :=
  .ok ⟨s.x, s.f, s.iterations, s.evaluations, criterion⟩

def failed (s : Solver α) (error : SolveError) : Except (Failed α) (Found α) :=
  .error ⟨error, s.x, some s.f, s.iterations, s.evaluations⟩

end Solver

variable [SingularValues α]

def solveFrom (sys : Residuals σ α) (observe : Stats α → StateM σ Control) :
    Nat → Solver α → Run σ (Except (Failed α) (Found α))
  | budget, s => do
    let size ← alone Vec.normOne s.f
    if size ≤ s.settings.tolerance then pure (s.found .residual)
    else
      match budget with
      | 0 => pure (s.failed (.iterationLimit s.settings.maxIterations))
      | budget + 1 => do
        let (s, answer) ← s.iterate sys
        match answer with
        | .error e => pure (s.failed e)
        | .ok status =>
          let stats ← s.stats
          match ← outside (observe stats) with
          | .cancel => pure (s.failed .cancelled)
          | .proceed =>
            match status with
            | .success => pure (s.found .residual)
            | .jacobianSingular => pure (s.failed .jacobianSingular)
            | .noProgress => pure (s.failed .noProgress)
            | .iterationLimit => pure (s.failed (.iterationLimit s.settings.maxIterations))
            | .running =>
              let c := s.settings
              let verdict ← both
                (fun step x => stepTest step x c.stepToleranceAbs c.stepToleranceRel) s.step s.x
              if c.hasStepTest ∧ verdict = .success then pure (s.found .stepSize)
              else solveFrom sys observe budget s

def solve (sys : Residuals σ α) (observe : Stats α → StateM σ Control) (c : Settings α)
    (point : List α) : Run σ (Except (Failed α) (Found α)) := do
  match ← Solver.create sys c point with
  | .error e => pure (.error ⟨e, point, none, 0, 0⟩)
  | .ok s =>
    let stats ← s.stats
    match ← outside (observe stats) with
    | .cancel => pure (s.failed .cancelled)
    | .proceed => solveFrom sys observe c.maxIterations s

omit [SingularValues α] in
/-- Evaluates the system at a point of any length, into a buffer of its own. -/
def evaluate (sys : Residuals σ α) (point : List α) : Run σ (Except EvalError (List α)) := do
  let (answer, out) ← evaluateInto sys point (List.replicate sys.dimension 0)
  pure (answer.map fun _ => out)

end InPlace

end RootFinder
