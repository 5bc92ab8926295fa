import RootFinder.Equations

/-! Systems written as formulas in the unknowns, and systems that refuse some points or some
calls. -/

namespace RootFinder

inductive Formula (n : Nat)
  | const (c : Float)
  | unknown (i : Fin n)
  | add (p q : Formula n)
  | sub (p q : Formula n)
  | mul (p q : Formula n)
  | div (p q : Formula n)
  | neg (p : Formula n)
  | sqrt (p : Formula n)
  | abs (p : Formula n)
  | exp (p : Formula n)
  | ln (p : Formula n)
  | sin (p : Formula n)
  | cos (p : Formula n)
  /-- `p` where the condition is at least zero, `q` elsewhere. -/
  | choose (condition p q : Formula n)

namespace Formula

variable {n : Nat}

def eval (x : Vec Float n) : Formula n → Float
  | const c => c
  | unknown i => x.get i
  | add p q => p.eval x + q.eval x
  | sub p q => p.eval x - q.eval x
  | mul p q => p.eval x * q.eval x
  | div p q => p.eval x / q.eval x
  | neg p => -p.eval x
  | sqrt p => (p.eval x).sqrt
  | abs p => (p.eval x).abs
  | exp p => (p.eval x).exp
  | ln p => (p.eval x).log
  | sin p => (p.eval x).sin
  | cos p => (p.eval x).cos
  | choose c p q => if 0 ≤ c.eval x then p.eval x else q.eval x

def residuals (equations : Vec (Formula n) n) (x : Vec Float n) : Vec Float n :=
  equations.map (eval x)

end Formula

variable {n : Nat}

/-- A condition on the points of a system: where the formula is positive, the point is refused for
the reason given. -/
structure Barrier (n : Nat) where
  formula : Formula n
  reason : String

def Barrier.violated? (barriers : List (Barrier n)) (x : Vec Float n) : Option (Barrier n) :=
  barriers.find? fun b => decide (0 < b.formula.eval x)

def restricted (barriers : List (Barrier n)) (F : Vec Float n → Vec Float n) (x : Vec Float n) :
    Except EvalError (Vec Float n) :=
  match Barrier.violated? barriers x with
  | some b => .error (.domain b.reason)
  | none => .ok (F x)

/-- The system that counts its calls from one and fails in the calls listed. -/
def interrupted {α : Type} (failing : List Nat) (F : Vec α n → Except EvalError (Vec α n)) :
    Equations (StateM Nat) α n := fun x => do
  let call := (← get) + 1
  set call
  if call ∈ failing then pure (.error (.domain s!"call {call} fails")) else pure (F x)

end RootFinder
