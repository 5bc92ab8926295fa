import RootFinder.Search
import RootFinder.Decimal.Text

/-! The debug journal of a run: what each iteration decided, told from its report. -/

namespace RootFinder

namespace Journal

inductive Topic
  | run
  | step
  | jacobian
  | factors
  | search

def Topic.text : Topic → String
  | run => "solver"
  | step => "dogleg"
  | jacobian => "jacobian"
  | factors => "linalg"
  | search => "driver"

def entry (topic : Topic) (message : String) : String :=
  s!"[DEBUG multiroot::{topic.text}] {message}"

def number (v : Float) : String :=
  String.ofList (Decimal.scientificText 6 v)

def vector {n : Nat} (v : Vec Float n) : String :=
  "[" ++ ", ".intercalate (v.toList.map number) ++ "]"

variable {n : Nat}

def initialized (c : Settings Float) (s : State Float n) : String :=
  entry .run
    s!"initialized: |f| = {number s.f.norm}, delta = {number s.radius}, scaled = {c.scaled}"

def refusal : Refusal Float → List String
  | .notFinite => []
  | .undetermined => []
  | .illConditioned r =>
    [entry .factors s!"Jacobian rejected, reciprocal condition = {number r}"]

def refresh (wasStale : Bool) : String :=
  entry .run s!"recomputing the Jacobian by finite differences (stale = {wasStale})"

def recomputation (r : Recomputation Float) : List String :=
  entry .run "updated Jacobian is singular, recomputing it" :: refresh r.wasStale ::
    r.refusal.toList.flatMap refusal

def preparation (p : Preparation Float n) : List String :=
  p.refusal.toList.flatMap refusal ++ p.recomputation.toList.flatMap recomputation

def step (s : Step Float n) : String :=
  let move := vector s.move
  entry .step <|
    match s.rule with
    | .newtonFits => s!"take full Newton: {move}"
    | .noGradient => s!"gradient vanished, take scaled Newton: {move}"
    | .noCurvature => "no curvature along the gradient, take scaled Newton"
    | .cauchyOutside => s!"Cauchy point outside the region, take steepest descent: {move}"
    | .between fraction => s!"take dogleg (factor = {number fraction}): {move}"

def gain (value : Vec Float n) (g : Gain Float) : List String :=
  (if value.isFinite then []
    else [entry .run "trial point is not evaluable, gain ratio = 0"]) ++
  [entry .run
    s!"gain ratio = {number g.actual} / {number g.predicted} = {number g.ratio}"]

def radius (before after : Float) : List String :=
  if after < before then [entry .run s!"shrink delta from {number before} to {number after}"]
  else if before < after then
    [entry .run s!"expand delta from {number before} to {number after}"]
  else []

def acceptance (s : State Float n) (t : Trial Float n) : List String :=
  let move := t.step.move
  (if Jacobian.isNegligible move then
    [entry .jacobian s!"Broyden update skipped, |dx|^2 = {number (Vec.normSquared move)}"]
  else []) ++
  [entry .run s!"step accepted, |f| = {number s.f.norm}"]

def rejection (c : Settings Float) : String :=
  entry .run s!"step rejected, threshold for accepting = {number c.acceptThreshold}"

def trial (c : Settings Float) (p : Preparation Float n) (t : Trial Float n)
    (s : State Float n) : List String :=
  step t.step :: gain t.value t.gain ++
  (if t.refreshed then [refresh p.state.jacobian.stale] else []) ++
  radius t.radius s.radius ++
  (if t.accepted then acceptance s t else [rejection c]) ++
  (if s.status = .noProgress then
    [entry .run s!"no progress: delta = {number s.radius}, slow iterations = {s.slow}"]
  else [])

/-- The entries up to a snapshot, since the one before it. -/
def ofSnapshot (c : Settings Float) (shot : Snapshot Float n) : List String :=
  match shot.report with
  | none => [initialized c shot.state]
  | some .settled => []
  | some (.singular p) => preparation p
  | some (.tried p t) => preparation p ++ trial c p t shot.state

/-- The entries of an iteration that came to no end; one with a failing call has none. -/
def breakdown : Breakdown Float n → List String
  | .eval _ => []
  | .undetermined p => preparation p

/-- The entries behind the last snapshot: those of an iteration that came to no end, or the one
that tells that the run gave up. -/
def ofOutcome : Outcome Float n → List String
  | .ok _ => []
  | .error failure =>
    failure.breakdown.toList.flatMap breakdown ++
    if failure.error = .jacobianSingular ∨ failure.error = .noProgress then
      [entry .search
        s!"solve stopped after {failure.iterations} iterations: {failure.error.message}"]
    else []

end Journal

end RootFinder
