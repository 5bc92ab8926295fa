import RootFinder.Proofs.Correspondence
import RootFinder.Systems.Restricted

/-! Pure systems answer each point in one way, whatever their hidden state. What is computed from
their calls is then what the function they answer with gives on its own. -/

namespace RootFinder

variable {σ α : Type} {n : Nat}

def Equations.IsPure (sys : Equations (StateM σ) α n)
    (F : Vec α n → Except EvalError (Vec α n)) : Prop :=
  ∀ x w, ((sys x).run w).1 = F x

theorem interrupted_isPure (F : Vec α n → Except EvalError (Vec α n)) :
    (interrupted [] F).IsPure F := by
  intro x w
  rfl

/-- The stateful computation ends with the value of the other, from every hidden state. -/
def settled (σ : Type) : Correspondence (StateM σ) Id where
  Holds x y := ∀ w, (x.run w).1 = y.run
  holds_pure _ _ := rfl
  holds_bind {_ _ x y f g} h hf w := by
    obtain ⟨a, v, hx⟩ := exists_run x w
    have ha : a = y.run := by
      rw [← h w, hx]
    rw [run_bind_of_eq hx, hf a v, ha]
    rfl

namespace Equations.IsPure

variable {sys : Equations (StateM σ) α n} {F : Vec α n → Except EvalError (Vec α n)}

theorem settles (h : sys.IsPure F) (x : Vec α n) :
    (settled σ).Holds (sys x) (Equations.ofFunction F x) :=
  h x

theorem of_run (h : sys.IsPure F) {x : Vec α n} {w w' : σ} {answer : Except EvalError (Vec α n)}
    (hx : (sys x).run w = (answer, w')) : F x = answer := by
  rw [← h x w, hx]

theorem run (h : sys.IsPure F) {x : Vec α n} {answer : Except EvalError (Vec α n)}
    (hx : F x = answer) (w : σ) : ∃ w', (sys x).run w = (answer, w') :=
  ⟨((sys x).run w).2, Prod.ext ((h x w).trans hx) rfl⟩

end Equations.IsPure

end RootFinder
