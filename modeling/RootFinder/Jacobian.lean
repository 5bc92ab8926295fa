import RootFinder.Mat
import RootFinder.Equations

/-! Jacobian matrices from forward differences, kept up to date by secant updates. -/

namespace RootFinder

/-- An approximate Jacobian and how it came about. -/
structure Jacobian (α : Type) (n : Nat) where
  matrix : Mat α n
  /-- Set by differencing, cleared by an update that was carried out. -/
  fresh : Bool
  /-- Set by an update that was left out, cleared by differencing. -/
  stale : Bool

/-- What became of a differencing: the Jacobian, the evaluations that succeeded, and the error
that ended it early. -/
structure Differencing (α : Type) (n : Nat) where
  jacobian : Jacobian α n
  evaluations : Nat
  failure : Option EvalError

namespace Jacobian

variable {m : Type → Type} [Monad m] {α : Type} [Scalar α] {n : Nat}

def unknown (n : Nat) : Jacobian α n :=
  ⟨Mat.zeros n, false, false⟩

/-- The distance to the neighbour at which a component is differenced: relative to the component
if that is large, and taken back from the rounded neighbour, so that it is exact. -/
def increment (relative c : α) : α :=
  (c + relative * Scalar.maxNum (Scalar.abs c) 1) - c

def neighbour (relative : α) (x : Vec α n) (j : Fin n) : Vec α n :=
  x.setAt j (x.get j + increment relative (x.get j))

/-- The slopes from a point with residuals `f` to a neighbour at distance `h` with residuals
`g`. -/
def slopes (h : α) (f g : Vec α n) : Vec α n :=
  Vector.ofFn fun i => (g.get i - f.get i) / h

/-- Replaces the listed columns by differences, in order, until a call fails. -/
def differenceColumns (sys : Equations m α n) (relative : α) (x f : Vec α n) :
    List (Fin n) → Mat α n → m (Mat α n × Nat × Option EvalError)
  | [], a => pure (a, 0, none)
  | j :: js, a => do
    match ← sys (neighbour relative x j) with
    | .error e => pure (a, 0, some e)
    | .ok g =>
      let (b, count, failure) ← differenceColumns sys relative x f js
        (a.setColumn j (slopes (increment relative (x.get j)) f g))
      pure (b, count + 1, failure)

/-- Differences all columns at `x`, where the residuals are `f`. A failure leaves the columns not
yet reached, and what is known of the Jacobian, as they were. -/
def difference (sys : Equations m α n) (relative : α) (jac : Jacobian α n) (x f : Vec α n) :
    m (Differencing α n) := do
  let (a, count, failure) ← differenceColumns sys relative x f (List.finRange n) jac.matrix
  match failure with
  | none => pure ⟨⟨a, true, false⟩, count, none⟩
  | some e => pure ⟨{ jac with matrix := a }, count, some e⟩

/-- A step too short to divide by the square of its length. -/
def isNegligible (step : Vec α n) : Bool :=
  Scalar.isNaN step.normSquared || decide (step.normSquared ≤ Scalar.leastNormal)

/-- What the matrix lacks to take the step to the change `df` of the residuals. -/
def secantDefect (a : Mat α n) (step df : Vec α n) : Vec α n :=
  let predicted := a.mulVec step
  Vector.ofFn fun i => df.get i - predicted.get i

/-- The least change of the matrix that takes the step to the change of the residuals; it is left
out for a negligible step. -/
def update (jac : Jacobian α n) (step df : Vec α n) : Jacobian α n :=
  if isNegligible step then { jac with stale := true }
  else
    { jac with
      matrix := jac.matrix.addRankOne (1 / step.normSquared) (secantDefect jac.matrix step df) step
      fresh := false }

/-- Whether to difference anew after so many rejections in a row. A fresh Jacobian cannot become
better. -/
def isOutdated (jac : Jacobian α n) (rejections limit : Nat) : Bool :=
  !jac.fresh && (jac.stale || decide (limit ≤ rejections))

end Jacobian

end RootFinder
