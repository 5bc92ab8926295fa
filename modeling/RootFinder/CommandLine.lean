import RootFinder.Arguments
import RootFinder.Journal
import RootFinder.Sweep
import RootFinder.Trace

/-! The command line: it reads its arguments, searches for the root of the Rosenbrock system they
describe, and prints a line for each iteration and the outcome. A search that finds no root is a
result like any other; only settings out of range and failing writes are errors. -/

namespace RootFinder

/-- Where lines go. Writing to the output may fail, for the reason given. -/
structure Console (m : Type → Type) where
  output : String → m (Except String Unit)
  errors : String → m Unit

inductive RunError
  | settings (fault : SettingsFault)
  | trace (reason : String)
  | outcome (reason : String)
  deriving DecidableEq

def RunError.message : RunError → String
  | settings fault =>
    s!"Error: Invalid solver settings: {(SolveError.invalidSettings fault).message}"
  | trace reason => s!"Error: Could not write the iteration trace: {reason}"
  | outcome reason => s!"Error: {reason}"

namespace CommandLine

variable {m : Type → Type} [Monad m]

def writeLines (console : Console m) : List String → m (Except String Unit)
  | [] => pure (.ok ())
  | text :: rest => do
    match ← console.output text with
    | .error reason => pure (.error reason)
    | .ok () => writeLines console rest

def writeNotes (console : Console m) : List String → m Unit
  | [] => pure ()
  | text :: rest => do
    console.errors text
    writeNotes console rest

/-- Writes the line of a snapshot. The search is cancelled when that fails, and the reason is
kept. -/
def showLine (console : Console m) (shot : Snapshot Float 2) :
    StateT (Option String) m Control := do
  match ← console.output (Trace.line shot.state) with
  | .ok () => pure .proceed
  | .error reason =>
    set (some reason)
    pure .cancel

/-- Shows a snapshot: its journal if it is asked for, and a line of the trace. -/
def showSnapshot (console : Console m) (verbose : Bool) (c : Settings Float)
    (shot : Snapshot Float 2) : StateT (Option String) m Control := do
  if verbose then
    liftM (writeNotes console (Journal.ofSnapshot c shot))
  showLine console shot

def system {m : Type → Type} [Monad m] (o : Options) : Equations m Float 2 :=
  Equations.ofFunction fun x =>
    .ok (rosenbrock (o.weightA.getD Rosenbrock.standardA) (o.weightB.getD Rosenbrock.standardB) x)

/-- Searches for the root of `sys` and writes a line for each snapshot. -/
def traceSystem (sys : Equations m Float 2) (console : Console m) (o : Options) :
    m (Except RunError (Outcome Float 2)) := do
  let c := o.settings
  match c.fault? with
  | some fault => pure (.error (.settings fault))
  | none =>
    let called (x : Vec Float 2) : StateT (Option String) m _ := liftM (sys x)
    let (outcome, failed) ← (search called (showSnapshot console o.verbose c) c o.point).run none
    match failed with
    | some reason => pure (.error (.trace reason))
    | none => pure (.ok outcome)

def trace (console : Console m) (o : Options) : m (Except RunError (Outcome Float 2)) :=
  traceSystem (system o) console o

def report (console : Console m) (o : Options) : m (Except RunError Unit) := do
  match ← trace console o with
  | .error e => pure (.error e)
  | .ok outcome =>
    if o.verbose then
      writeNotes console (Journal.ofOutcome outcome)
    match ← writeLines console outcome.lines with
    | .error reason => pure (.error (.outcome reason))
    | .ok () => pure (.ok ())

def versionText : String :=
  "multiroot 0.1.0"

def helpLines : List String :=
  ["Derivative-free root finding for square nonlinear systems",
    "",
    "Usage: multiroot [OPTIONS]",
    "",
    "Options:",
    "  -a <A>                     Weight a in f0 = a (1 - x0) [default: 1]",
    "  -b <B>                     Weight b in f1 = b (x1 - x0^2) [default: 10]",
    "      --guess <X0> <X1>      Initial guess [default: -10 -5]",
    "      --tol <TOL>            Stop once the sum of absolute residuals is at most this " ++
      "[default: 0.0000001]",
    "      --max-iter <MAX_ITER>  Give up after this many iterations [default: 1000]",
    "      --unscaled             Measure the trust region in the variables as they are",
    "      --step-tol <STEP_TOL>  Also stop once every step component is below this, absolutely " ++
      "or relative to the current point",
    "  -v, --verbose              Print the solver's debug log to stderr",
    "  -h, --help                 Print help",
    "  -V, --version              Print version"]

def run (console : Console m) (arguments : List String) : m UInt32 := do
  match Arguments.parse arguments with
  | .error .help =>
    let _ ← writeLines console helpLines
    pure 0
  | .error .version =>
    let _ ← writeLines console [versionText]
    pure 0
  | .error (.usage e) =>
    console.errors s!"error: {e.message}"
    pure 2
  | .ok o =>
    match ← report console o with
    | .ok () => pure 0
    | .error e =>
      console.errors e.message
      pure 1

end CommandLine

end RootFinder
