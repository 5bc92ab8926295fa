import RootFinder.LinearSolver

/-! The step from a point with residuals `f` and Jacobian `J`: it makes the linear model
`‖f + J p‖` small among the steps of scaled length at most the radius of the trust region. -/

namespace RootFinder

inductive StepKind
  | newton
  | scaledNewton
  | steepestDescent
  | dogleg
  deriving DecidableEq

def StepKind.text : StepKind → String
  | newton => "newton"
  | scaledNewton => "scaled newton"
  | steepestDescent => "steepest descent"
  | dogleg => "dogleg"

inductive StepRule (α : Type)
  | newtonFits
  | noGradient
  | noCurvature
  | cauchyOutside
  /-- The step ends on the way from the Cauchy point to the Newton step, after this part of it. -/
  | between (fraction : α)

def StepRule.kind {α : Type} : StepRule α → StepKind
  | newtonFits => .newton
  | noGradient => .scaledNewton
  | noCurvature => .scaledNewton
  | cauchyOutside => .steepestDescent
  | between _ => .dogleg

structure Step (α : Type) (n : Nat) where
  rule : StepRule α
  move : Vec α n

def Step.kind {α : Type} {n : Nat} (s : Step α n) : StepKind :=
  s.rule.kind

namespace Step

variable {α : Type} [Scalar α] {n : Nat}

/-- The direction in which the model falls fastest. -/
def steepest (J : Mat α n) (f : Vec α n) : Vec α n :=
  (J.transposeMulVec f).neg

/-- `D⁻² g`, the direction `g` when lengths are measured with the scales `d`. -/
def unscale (g d : Vec α n) : Vec α n :=
  Vector.ofFn fun i => g.get i / (d.get i * d.get i)

/-- The part of the way from `p` along `w` at which the scaled length of `p + t w` reaches the
radius. Of two equal expressions it takes the one that subtracts no nearly equal values. -/
def boundaryFraction (p w d : Vec α n) (radius : α) : α :=
  let length := p.scaledNorm d
  let a := w.scaledNormSquared d
  let b := Scalar.sum fun i : Fin n => d.get i * d.get i * p.get i * w.get i
  let room := (radius - length) * (radius + length)
  let root := Scalar.sqrt (b * b + a * room)
  if b ≤ 0 then (root - b) / a else room / (b + root)

/-- The step when the Newton step `p` lies outside the region. -/
def within (J : Mat α n) (f d p : Vec α n) (radius : α) : Step α n :=
  let g := steepest J f
  let shortened := p.scale (radius / p.scaledNorm d)
  if g.normMax == 0 then ⟨.noGradient, shortened⟩
  else
    let direction := unscale g d
    let curvature := (J.mulVec direction).normSquared
    if Scalar.isNormal curvature then
      let cauchy := direction.scale (g.dot direction / curvature)
      if radius ≤ cauchy.scaledNorm d then
        ⟨.cauchyOutside, cauchy.scale (radius / cauchy.scaledNorm d)⟩
      else
        let way := p.addScaled (-1) cauchy
        let t := boundaryFraction cauchy way d radius
        ⟨.between t, cauchy.addScaled t way⟩
    else ⟨.noCurvature, shortened⟩

/-- The step for the matrix `J` that the linear solver has factored. -/
def choose? (linear : LinearSolver α n) (J : Mat α n) (f d : Vec α n) (radius : α) :
    Option (Step α n) := do
  let p ← linear.solve? f.neg
  if p.scaledNorm d ≤ radius then some ⟨.newtonFits, p⟩ else some (within J f d p radius)

end Step

end RootFinder
