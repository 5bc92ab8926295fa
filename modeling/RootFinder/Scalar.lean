/-! The scalars the method computes with. All numerical definitions of this library are written
over a scalar type, so that one definition has a floating-point and an exact meaning. -/

namespace RootFinder

/-- Arithmetic, comparisons and classification of scalars. Comparisons with an undefined value
(NaN) are false, also of the value with itself. -/
class Scalar (α : Type) extends Zero α, One α, Add α, Sub α, Mul α, Div α, Neg α, LE α, LT α,
    BEq α, OfScientific α where
  decidableLE : DecidableLE α
  decidableLT : DecidableLT α
  sqrt : α → α
  abs : α → α
  isFinite : α → Bool
  isNaN : α → Bool
  /-- Finite, not zero, and not so small that digits have been lost. -/
  isNormal : α → Bool
  /-- The least positive scalar that carries all its digits. -/
  leastNormal : α

attribute [reducible, instance] Scalar.decidableLE Scalar.decidableLT

namespace Scalar

variable {α : Type} [Scalar α]

/-- The sum from left to right. It starts from negative zero, the only start that keeps the sign
of a sum of zeros. -/
def sum {n : Nat} (f : Fin n → α) : α :=
  Fin.foldl n (fun s i => s + f i) (-0)

/-- The larger of two scalars, ignoring an undefined one. -/
def maxNum (a b : α) : α :=
  if isNaN a ∨ a < b then b else a

/-- The smaller of two scalars, ignoring an undefined one. -/
def minNum (a b : α) : α :=
  if isNaN b ∨ a < b then a else b

/-- The nearest scalar between two bounds; an undefined scalar stays. -/
def clamp (lo hi a : α) : α :=
  let raised := if a < lo then lo else a
  if hi < raised then hi else raised

/-- Zero, or so small that digits have been lost. -/
def isVanishing (a : α) : Bool :=
  isFinite a && !isNormal a

/-- Finite and greater than zero. -/
def isPositive (a : α) : Bool :=
  isFinite a && decide (0 < a)

/-- Finite and at least zero. -/
def isNonNegative (a : α) : Bool :=
  isFinite a && decide (0 ≤ a)

end Scalar

/-- The least positive double with a full significand, two to the power -1022. -/
def leastNormalFloat : Float :=
  Float.ofBits 0x0010000000000000

instance : Scalar Float where
  zero := 0.0
  one := 1.0
  decidableLE := inferInstance
  decidableLT := inferInstance
  sqrt := Float.sqrt
  abs := Float.abs
  isFinite := Float.isFinite
  isNaN := Float.isNaN
  isNormal v := v.isFinite && decide (leastNormalFloat ≤ v.abs)
  leastNormal := leastNormalFloat

end RootFinder
