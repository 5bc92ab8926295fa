import RootFinder.Equations

/-! Systems by name. The one of Rosenbrock has two equations and the root (1, 1), in a curved
valley. The tridiagonal one has any size: each equation has its own unknown and its two
neighbours. -/

namespace RootFinder

/-- The residuals `a (1 - x₀)` and `b (x₁ - x₀²)`. -/
def rosenbrock {α : Type} [Scalar α] (a b : α) (x : Vec α 2) : Vec α 2 :=
  let u := x[0]
  let v := x[1]
  Vector.mk #[a * (1 - u), b * (v - u * u)] rfl

namespace Rosenbrock

def standardA : Float := 1

def standardB : Float := 10

def standardGuess : List Float :=
  [-10, -5]

end Rosenbrock

variable {α : Type} [Scalar α] {n : Nat}

/-- A component of the vector, and zero beyond its end. -/
def Vec.getOrZero (x : Vec α n) (i : Nat) : α :=
  x.toList.getD i 0

/-- The residuals `(3 - 2 xᵢ) xᵢ - xᵢ₋₁ - 2 xᵢ₊₁ + 1`. -/
def tridiagonal (x : Vec α n) : Vec α n :=
  Vector.ofFn fun i =>
    let left := if i.val = 0 then 0 else x.getOrZero (i.val - 1)
    (3.0 - 2.0 * x.get i) * x.get i - left - 2.0 * x.getOrZero (i.val + 1) + 1

end RootFinder
