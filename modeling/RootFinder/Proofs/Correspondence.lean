import RootFinder.Proofs.Course
import RootFinder.Search

/-! One computation in two monads. Where each call of a system corresponds to a call of another,
so does all that is computed from the calls: differences, starts, iterations and, where the
observers correspond too, searches. -/

namespace RootFinder

structure Correspondence (m m' : Type → Type) [Monad m] [Monad m'] where
  Holds : {β : Type} → m β → m' β → Prop
  holds_pure : ∀ {β : Type} (a : β), Holds (pure a) (pure a)
  holds_bind : ∀ {β γ : Type} {x : m β} {y : m' β} {f : β → m γ} {g : β → m' γ},
    Holds x y → (∀ a, Holds (f a) (g a)) → Holds (x >>= f) (y >>= g)

namespace Correspondence

variable {m m' : Type → Type} [Monad m] [Monad m'] {α : Type} [Scalar α] {n : Nat}
  (R : Correspondence m m') {sys : Equations m α n} {sys' : Equations m' α n}
  (hsys : ∀ x, R.Holds (sys x) (sys' x))
include hsys

theorem holds_differenceColumns (relative : α) (x f : Vec α n) (js : List (Fin n)) (a : Mat α n) :
    R.Holds (Jacobian.differenceColumns sys relative x f js a)
      (Jacobian.differenceColumns sys' relative x f js a) := by
  induction js generalizing a with
  | nil => exact R.holds_pure _
  | cons j js ih =>
    refine R.holds_bind (hsys _) fun answer => ?_
    cases answer with
    | error e => exact R.holds_pure _
    | ok g => exact R.holds_bind (ih _) fun _ => R.holds_pure _

theorem holds_difference (relative : α) (jac : Jacobian α n) (x f : Vec α n) :
    R.Holds (jac.difference sys relative x f) (jac.difference sys' relative x f) := by
  refine R.holds_bind (R.holds_differenceColumns hsys relative x f _ _)
    fun ⟨a, count, failure⟩ => ?_
  cases failure with
  | none => exact R.holds_pure _
  | some e => exact R.holds_pure _

variable (c : Settings α)

theorem holds_start (point : List α) :
    R.Holds (State.start sys c point) (State.start sys' c point) := by
  unfold State.start
  cases Vec.ofList? n point with
  | none => exact R.holds_pure _
  | some x =>
    refine R.holds_bind (hsys x) fun answer => ?_
    cases answer with
    | error e => exact R.holds_pure _
    | ok f =>
      simp only []
      cases f.firstNonFinite? with
      | some i => exact R.holds_pure _
      | none =>
        refine R.holds_bind (R.holds_difference hsys _ _ _ _) fun d => ?_
        cases d.failure with
        | some e => exact R.holds_pure _
        | none => exact R.holds_pure _

theorem holds_create (point : List α) :
    R.Holds (State.create sys c point) (State.create sys' c point) := by
  unfold State.create
  cases c.fault? with
  | some fault => exact R.holds_pure _
  | none =>
    by_cases hn : n = 0
    · simp only [if_pos hn]
      exact R.holds_pure _
    · simp only [if_neg hn]
      exact R.holds_start hsys c point

theorem holds_restart (s : State α n) (point : List α) :
    R.Holds (s.restart sys c point) (s.restart sys' c point) := by
  refine R.holds_bind (R.holds_start hsys c point) fun answer => ?_
  cases answer with
  | error e => exact R.holds_pure _
  | ok t => exact R.holds_pure _

theorem holds_refresh (s : State α n) : R.Holds (s.refresh sys c) (s.refresh sys' c) := by
  refine R.holds_bind (R.holds_difference hsys _ _ _ _) fun d => ?_
  cases d.failure with
  | some e => exact R.holds_pure _
  | none => exact R.holds_pure _

theorem holds_tryStep (p : Preparation α n) (step : Step α n) :
    R.Holds (State.tryStep sys c p step) (State.tryStep sys' c p step) := by
  refine R.holds_bind (hsys _) fun answer => ?_
  cases answer with
  | error e => exact R.holds_pure _
  | ok value =>
    simp only []
    cases ((p.state.propose step).counted.judge c step value).refreshed with
    | false => exact R.holds_pure _
    | true =>
      simp only [if_true]
      refine R.holds_bind (R.holds_refresh hsys c _) fun answer => ?_
      cases answer with
      | error e => exact R.holds_pure _
      | ok r => exact R.holds_pure _

variable [SingularValues α]

theorem holds_prepare (s : State α n) : R.Holds (s.prepare sys c) (s.prepare sys' c) := by
  rw [State.prepare_eq, State.prepare_eq]
  cases s.mustRecompute c with
  | false => exact R.holds_pure _
  | true =>
    simp only [if_true]
    refine R.holds_bind (R.holds_refresh hsys c s) fun answer => ?_
    cases answer with
    | error e => exact R.holds_pure _
    | ok r => exact R.holds_pure _

theorem holds_iterate (s : State α n) : R.Holds (s.iterate sys c) (s.iterate sys' c) := by
  unfold State.iterate
  by_cases ht : s.status.isTerminal = true
  · simp only [if_pos ht]
    exact R.holds_pure _
  · simp only [if_neg ht]
    by_cases hi : c.maxIterations ≤ s.iterations
    · simp only [if_pos hi]
      exact R.holds_pure _
    · simp only [if_neg hi]
      cases s.f.norm == 0 with
      | true => exact R.holds_pure _
      | false =>
        refine R.holds_bind (R.holds_prepare hsys c s) fun answer => ?_
        cases answer with
        | error e => exact R.holds_pure _
        | ok p =>
          simp only []
          cases p.isUndetermined with
          | true => exact R.holds_pure _
          | false =>
            cases p.step? with
            | none => exact R.holds_pure _
            | some step => exact R.holds_tryStep hsys c p step

section

variable {observe : Snapshot α n → m Control} {observe' : Snapshot α n → m' Control}
  (hobserve : ∀ shot, R.Holds (observe shot) (observe' shot))
include hobserve

theorem holds_searchFrom (k : Nat) (s : State α n) :
    R.Holds (searchFrom sys observe c k s) (searchFrom sys' observe' c k s) := by
  induction k generalizing s with
  | zero =>
    unfold searchFrom
    by_cases hp : residualTest s.f c.tolerance = .success
    · simp only [if_pos hp]
      exact R.holds_pure _
    · simp only [if_neg hp]
      exact R.holds_pure _
  | succ k ih =>
    unfold searchFrom
    by_cases hp : residualTest s.f c.tolerance = .success
    · simp only [if_pos hp]
      exact R.holds_pure _
    · simp only [if_neg hp]
      refine R.holds_bind (R.holds_iterate hsys c s) fun a => ?_
      cases a.result with
      | error b => exact R.holds_pure _
      | ok report =>
        refine R.holds_bind (hobserve _) fun control => ?_
        cases control with
        | cancel => exact R.holds_pure _
        | proceed =>
          simp only []
          cases a.state.status with
          | running =>
            by_cases ht : c.hasStepTest = true ∧ stepTest a.state.step a.state.x c.stepToleranceAbs
                c.stepToleranceRel = .success
            · simp only [if_pos ht]
              exact R.holds_pure _
            · simp only [if_neg ht]
              exact ih _
          | _ => exact R.holds_pure _

theorem holds_search (point : List α) :
    R.Holds (search sys observe c point) (search sys' observe' c point) := by
  refine R.holds_bind (R.holds_create hsys c point) fun answer => ?_
  cases answer with
  | error e => exact R.holds_pure _
  | ok s =>
    refine R.holds_bind (hobserve _) fun control => ?_
    cases control with
    | cancel => exact R.holds_pure _
    | proceed => exact R.holds_searchFrom hsys c hobserve _ s

end

end Correspondence

end RootFinder
