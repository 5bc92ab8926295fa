import RootFinder.Status

/-! The causes for which an evaluation, a setting or a solve is refused, and their wording. -/

namespace RootFinder

/-- Why a system has no residuals to offer at a point. Components are counted from zero. -/
inductive EvalError
  | domain (reason : String)
  | wrongDimension (expected got : Nat)
  | nonFinite (component : Nat)
  deriving DecidableEq

def EvalError.message : EvalError → String
  | domain reason => s!"The function cannot be evaluated here: {reason}"
  | wrongDimension expected got => s!"Expected a point with {expected} components but got {got}"
  | nonFinite component => s!"Residual component {component} is not finite"

inductive SettingsFault
  | tolerance
  | stepTolerance
  | minRadius
  | maxRadius
  | radiusFactor
  | initialRadius
  | acceptThreshold
  | shrinkThreshold
  | expandThreshold
  | shrinkFactor
  | expandFactor
  | refreshLimit
  | slowLimit
  | differenceStep
  | singularTolerance
  deriving DecidableEq

def SettingsFault.message : SettingsFault → String
  | tolerance => "tol_residual must be finite and non-negative"
  | stepTolerance => "step tolerances must be finite and non-negative"
  | minRadius => "delta_min must be positive"
  | maxRadius => "delta_max must be finite and at least delta_min"
  | radiusFactor => "delta_init factor must be positive"
  | initialRadius => "delta_init must be positive"
  | acceptThreshold => "accept_threshold must be in (0, 1)"
  | shrinkThreshold => "shrink_threshold must be in (0, 1)"
  | expandThreshold => "expand_threshold must be in [shrink_threshold, 1)"
  | shrinkFactor => "shrink_factor must be in (0, 1)"
  | expandFactor => "expand_factor must be greater than 1"
  | refreshLimit => "refresh_after_failures must be at least 1"
  | slowLimit => "slow_progress_limit must be at least 1"
  | differenceStep => "fd_step must be positive"
  | singularTolerance => "singular_tolerance must be in [0, 1)"

inductive SolveError
  | eval (cause : EvalError)
  | dimensionMismatch (expected got : Nat)
  | emptySystem
  | invalidSettings (fault : SettingsFault)
  | jacobianSingular
  | noProgress
  | iterationLimit (limit : Nat)
  | cancelled
  | decomposition
  deriving DecidableEq

namespace SolveError

def message : SolveError → String
  | eval cause => cause.message
  | dimensionMismatch expected got =>
    s!"The system has {expected} equations but the initial guess has {got} components"
  | emptySystem => "Cannot solve an empty system"
  | invalidSettings fault => s!"Invalid configuration: {fault.message}"
  | jacobianSingular => "The Jacobian is singular"
  | noProgress => "The iteration is not making progress towards a solution"
  | iterationLimit limit => s!"Could not find a root within {limit} iterations"
  | cancelled => "Solve cancelled"
  | decomposition => "Something went wrong doing SVD in faer"

/-- The status of the run that ended with this error, if the run itself gave up. -/
def status? : SolveError → Option Status
  | jacobianSingular => some .jacobianSingular
  | noProgress => some .noProgress
  | iterationLimit _ => some .iterationLimit
  | _ => none

end SolveError

end RootFinder
