import RootFinder.Elimination
import RootFinder.Failure
import RootFinder.SingularValues

/-! Linear equations with the matrix factored last, unless that matrix was close to singular. -/

namespace RootFinder

inductive Refusal (α : Type)
  | notFinite
  /-- Its singular values were not found. -/
  | undetermined
  | illConditioned (reciprocalCondition : α)

/-- A matrix of unknown condition is an error of its own; any other refused one counts as
singular. -/
def Refusal.error {α : Type} : Refusal α → SolveError
  | undetermined => .decomposition
  | _ => .jacobianSingular

structure LinearSolver (α : Type) (n : Nat) where
  /-- A reciprocal condition up to this is refused. -/
  tolerance : α
  factors : Option (Elimination α n) := none

namespace LinearSolver

variable {α : Type} [Scalar α] [SingularValues α] {n : Nat}

def refusal? (tolerance : α) (a : Mat α n) : Option (Refusal α) :=
  if a.isFinite then
    match a.reciprocalCondition? with
    | none => some .undetermined
    | some r => if Scalar.isNaN r ∨ r ≤ tolerance then some (.illConditioned r) else none
  else some .notFinite

/-- Forgets the matrix factored before and takes this one in its place, unless it is refused. -/
def factor (s : LinearSolver α n) (a : Mat α n) : LinearSolver α n × Option (Refusal α) :=
  match refusal? s.tolerance a with
  | none => ({ s with factors := some a.eliminate }, none)
  | some r => ({ s with factors := none }, some r)

omit [SingularValues α] in
/-- The solution for the matrix factored last, if there is one and it is finite. -/
def solve? (s : LinearSolver α n) (b : Vec α n) : Option (Vec α n) := do
  let x := (← s.factors).solve b
  if x.isFinite then some x else none

end LinearSolver

end RootFinder
