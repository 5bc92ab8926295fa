import RootFinder.Vec
import RootFinder.Failure

/-! Systems of equations. A system answers a point with its residuals or refuses it; it may keep
records of its own while it does so, in the monad it runs in. -/

namespace RootFinder

abbrev Equations (m : Type → Type) (α : Type) (n : Nat) :=
  Vec α n → m (Except EvalError (Vec α n))

namespace Equations

variable {m : Type → Type} [Monad m] {α : Type} {n : Nat}

def ofFunction (F : Vec α n → Except EvalError (Vec α n)) : Equations m α n :=
  fun x => pure (F x)

/-- The residuals at a point of any length; a point of the wrong length is refused without a
call of the system. -/
def evaluate (sys : Equations m α n) (point : List α) : m (Except EvalError (Vec α n)) :=
  match Vec.ofList? n point with
  | some x => sys x
  | none => pure (.error (.wrongDimension n point.length))

end Equations

end RootFinder
