import RootFinder.Scalar
import RootFinder.Failure

/-! What a caller may choose about a run, the usual choices, and which choices are refused. -/

namespace RootFinder

/-- The radius a run starts with: a multiple of the scaled length of the starting point, or a
given one. -/
inductive InitialRadius (α : Type)
  | estimated (factor : α)
  | fixed (radius : α)

structure Settings (α : Type) where
  /-- A point is a root when the magnitudes of its residuals sum up to this at most. -/
  tolerance : α
  maxIterations : Nat
  stepToleranceAbs : α
  stepToleranceRel : α
  /-- Whether the trust region is measured in units taken from the columns of the Jacobian. -/
  scaled : Bool
  initialRadius : InitialRadius α
  minRadius : α
  maxRadius : α
  /-- Below this gain ratio the radius shrinks. -/
  shrinkThreshold : α
  /-- From this gain ratio on the radius may grow. -/
  expandThreshold : α
  /-- From this gain ratio on a step is taken. -/
  acceptThreshold : α
  shrinkFactor : α
  expandFactor : α
  /-- After so many rejections in a row an updated Jacobian is differenced anew. -/
  refreshLimit : Nat
  /-- After so many slow iterations in a row a run gives up. -/
  slowLimit : Nat
  differenceStep : α
  /-- A matrix with at most this reciprocal condition counts as singular. -/
  singularTolerance : α

namespace Settings

/-- Two to the power -26, the square root of the spacing of doubles at one. -/
def defaultDifferenceStep : Float :=
  Float.ofBits 0x3e50000000000000

def standard : Settings Float where
  tolerance := 1e-7
  maxIterations := 1000
  stepToleranceAbs := 0
  stepToleranceRel := 0
  scaled := false
  initialRadius := .estimated 100
  minRadius := defaultDifferenceStep
  maxRadius := 1e10
  shrinkThreshold := 0.1
  expandThreshold := 0.5
  acceptThreshold := 1e-4
  shrinkFactor := 0.5
  expandFactor := 2
  refreshLimit := 1
  slowLimit := 10
  differenceStep := defaultDifferenceStep
  singularTolerance := 1e-12

variable {α : Type} [Scalar α]

/-- Whether a run may also end because its steps have become small. -/
def hasStepTest (c : Settings α) : Bool :=
  decide (0 < c.stepToleranceAbs) || decide (0 < c.stepToleranceRel)

/-- What must hold of the settings, each with the fault that is reported if it does not. -/
def requirements (c : Settings α) : List (Bool × SettingsFault) :=
  [(Scalar.isNonNegative c.tolerance, .tolerance),
    (Scalar.isNonNegative c.stepToleranceAbs && Scalar.isNonNegative c.stepToleranceRel,
      .stepTolerance),
    (Scalar.isPositive c.minRadius, .minRadius),
    (Scalar.isPositive c.maxRadius && decide (c.minRadius ≤ c.maxRadius), .maxRadius),
    (match c.initialRadius with
      | .estimated factor => (Scalar.isPositive factor, .radiusFactor)
      | .fixed radius => (Scalar.isPositive radius, .initialRadius)),
    (Scalar.isPositive c.acceptThreshold && decide (c.acceptThreshold < 1), .acceptThreshold),
    (Scalar.isPositive c.shrinkThreshold && decide (c.shrinkThreshold < 1), .shrinkThreshold),
    (Scalar.isFinite c.expandThreshold && decide (c.shrinkThreshold ≤ c.expandThreshold) &&
      decide (c.expandThreshold < 1), .expandThreshold),
    (Scalar.isPositive c.shrinkFactor && decide (c.shrinkFactor < 1), .shrinkFactor),
    (Scalar.isFinite c.expandFactor && decide (1 < c.expandFactor), .expandFactor),
    (decide (1 ≤ c.refreshLimit), .refreshLimit),
    (decide (1 ≤ c.slowLimit), .slowLimit),
    (Scalar.isPositive c.differenceStep, .differenceStep),
    (Scalar.isNonNegative c.singularTolerance && decide (c.singularTolerance < 1),
      .singularTolerance)]

def fault? (c : Settings α) : Option SettingsFault :=
  (c.requirements.find? fun r => !r.1).map (·.2)

def Valid (c : Settings α) : Prop :=
  c.fault? = none

instance (c : Settings α) : Decidable c.Valid :=
  inferInstanceAs (Decidable (c.fault? = none))

theorem valid_iff {c : Settings α} : c.Valid ↔ ∀ r ∈ c.requirements, r.1 = true := by
  simp [Valid, fault?]

theorem Valid.acceptThreshold_pos {c : Settings α} (h : c.Valid) : 0 < c.acceptThreshold := by
  have hr := valid_iff.mp h
    (Scalar.isPositive c.acceptThreshold && decide (c.acceptThreshold < 1), .acceptThreshold)
    (by simp [requirements])
  simp only [Bool.and_eq_true, Scalar.isPositive, decide_eq_true_iff] at hr
  exact hr.1.2

theorem Valid.minRadius_le {c : Settings α} (h : c.Valid) : c.minRadius ≤ c.maxRadius := by
  have hr := valid_iff.mp h
    (Scalar.isPositive c.maxRadius && decide (c.minRadius ≤ c.maxRadius), .maxRadius)
    (by simp [requirements])
  simp only [Bool.and_eq_true, decide_eq_true_iff] at hr
  exact hr.2

theorem Valid.refreshLimit_pos {c : Settings α} (h : c.Valid) : 0 < c.refreshLimit := by
  have hr := valid_iff.mp h (decide (1 ≤ c.refreshLimit), .refreshLimit) (by simp [requirements])
  exact of_decide_eq_true hr

end Settings

end RootFinder
