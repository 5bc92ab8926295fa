import RootFinder.Vec

/-! The tests that end a run. An undefined value passes neither. -/

namespace RootFinder

inductive Verdict
  | unfinished
  | success
  deriving DecidableEq

namespace Verdict

def ofBool (passed : Bool) : Verdict :=
  if passed then success else unfinished

def isSuccess (v : Verdict) : Bool :=
  v == success

end Verdict

variable {α : Type} [Scalar α] {n : Nat}

/-- Passed when the magnitudes of the residuals sum up to the tolerance at most. -/
def residualTest (f : Vec α n) (tolerance : α) : Verdict :=
  .ofBool (decide (f.normOne ≤ tolerance))

/-- Passed when each component of the step is below the absolute tolerance plus the relative one
times the component of the point. -/
def stepTest (step x : Vec α n) (absolute relative : α) : Verdict :=
  .ofBool ((List.finRange n).all fun i =>
    decide (Scalar.abs (step.get i) < absolute + relative * Scalar.abs (x.get i)))

end RootFinder
