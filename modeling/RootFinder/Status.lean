/-! Where a run stands. -/

namespace RootFinder

inductive Status
  | running
  | success
  | jacobianSingular
  | noProgress
  | iterationLimit
  deriving DecidableEq

namespace Status

/-- A run ends in every status but `running`. -/
def isTerminal (s : Status) : Bool :=
  s != running

def text : Status → String
  | running => "the iteration has not converged yet"
  | success => "success"
  | jacobianSingular => "the Jacobian is singular"
  | noProgress => "the iteration is not making progress towards a solution"
  | iterationLimit => "exceeded the maximum number of iterations"

end Status

end RootFinder
