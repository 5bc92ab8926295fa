import RootFinder.Mat

/-! Singular values and the reciprocal condition of a matrix. -/

namespace RootFinder

/-- Scalars over which the singular values of a square matrix can be computed, in any order. There
is no answer where the computation does not come to an end. -/
class SingularValues (α : Type) [Scalar α] where
  singularValues? : {n : Nat} → Mat α n → Option (List α)

namespace Mat

variable {α : Type} [Scalar α] [SingularValues α] {n : Nat}

/-- The smallest singular value divided by the largest, and zero for a matrix without a positive
singular value. -/
def reciprocalCondition? (a : Mat α n) : Option α := do
  let values ← SingularValues.singularValues? a
  let largest := values.foldl Scalar.maxNum 0
  if 0 < largest then some (values.foldl Scalar.minNum largest / largest) else some 0

end Mat

end RootFinder
