import RootFinder.Proofs.Exact.Boundary
import RootFinder.Proofs.InPlace.Simulation

/-! The linear solver by itself. It is asked to factor matrices and to solve for right sides, in any
order. A matrix is taken if its condition is above the tolerance, and can then be inverted; a right
side gets the one solution for the matrix that was given last, and stays as it is if that one was
refused or there was none. -/

namespace RootFinder

open Matrix

variable {α : Type} {n : Nat}

namespace LinearSolver

/-- What the linear solver is asked for. -/
inductive Request (α : Type) (n : Nat)
  | factor (a : Mat α n)
  | solve (right : Vec α n)

/-- What it tells, and what the buffer of a right side holds then. -/
inductive Reply (α : Type)
  | factored (answer : Except SolveError Unit)
  | solved (answer : Except SolveError Unit) (right : List α)

/-- The matrix given last, from the one given before. -/
def Request.lastMatrix (before : Option (Mat α n)) : List (Request α n) → Option (Mat α n)
  | [] => before
  | .factor a :: requests => lastMatrix (some a) requests
  | .solve _ :: requests => lastMatrix before requests

variable [Scalar α] [SingularValues α]

def serve (s : LinearSolver α n) : Request α n → LinearSolver α n × Reply α
  | .factor a =>
    match s.factor a with
    | (s, none) => (s, .factored (.ok ()))
    | (s, some refusal) => (s, .factored (.error refusal.error))
  | .solve right =>
    match s.solve? right with
    | some x => (s, .solved (.ok ()) x.toList)
    | none => (s, .solved (.error .jacobianSingular) right.toList)

def serveAll (s : LinearSolver α n) : List (Request α n) → LinearSolver α n × List (Reply α)
  | [] => (s, [])
  | request :: requests =>
    let (s, reply) := s.serve request
    let (s, replies) := s.serveAll requests
    (s, reply :: replies)

end LinearSolver

namespace InPlace.Factors

variable [Scalar α] [SingularValues α]

def serve (s : Factors α) :
    LinearSolver.Request α n → Except Fault (Factors α × LinearSolver.Reply α)
  | .factor a =>
    match s.factor ⟨n, a⟩ with
    | (s, none) => pure (s, .factored (.ok ()))
    | (s, some e) => pure (s, .factored (.error e))
  | .solve right => do
    let (right, found) ← s.solve right.toList
    pure (s, .solved (if found then .ok () else .error .jacobianSingular) right)

def serveAll (s : Factors α) :
    List (LinearSolver.Request α n) → Except Fault (Factors α × List (LinearSolver.Reply α))
  | [] => pure (s, [])
  | request :: requests => do
    let (s, reply) ← s.serve request
    let (s, replies) ← s.serveAll requests
    pure (s, reply :: replies)

end InPlace.Factors

namespace LinearSolver

/-- The reply that is due to a request after a matrix was given last. -/
inductive Due (tolerance : ℝ) (last : Option (Mat ℝ n)) : Request ℝ n → Reply ℝ → Prop
  | factored {a : Mat ℝ n} (h : tolerance < a.condition) (hunit : IsUnit a.toMatrix) :
      Due tolerance last (.factor a) (.factored (.ok ()))
  | refused {a : Mat ℝ n} (h : ¬ tolerance < a.condition) :
      Due tolerance last (.factor a) (.factored (.error .jacobianSingular))
  | solved {a : Mat ℝ n} {right x : Vec ℝ n} (hlast : last = some a)
      (h : tolerance < a.condition)
      (hx : ∀ y : Vec ℝ n, a.toMatrix *ᵥ y.get = right.get ↔ y = x) :
      Due tolerance last (.solve right) (.solved (.ok ()) x.toList)
  | unsolved {right : Vec ℝ n} (h : ∀ a, last = some a → ¬ tolerance < a.condition) :
      Due tolerance last (.solve right) (.solved (.error .jacobianSingular) right.toList)

/-- A solver holds the factors of the matrix given last, if that one was taken. -/
inductive Keeps (tolerance : ℝ) : Option (Mat ℝ n) → LinearSolver ℝ n → Prop
  | taken {a : Mat ℝ n} (h : tolerance < a.condition) :
      Keeps tolerance (some a) ⟨tolerance, some a.eliminate⟩
  | nothing {last : Option (Mat ℝ n)} (h : ∀ a, last = some a → ¬ tolerance < a.condition) :
      Keeps tolerance last ⟨tolerance, none⟩

/-- A request turns one solver into another, over states and in place. -/
structure Serves [Scalar α] [SingularValues α] (s : LinearSolver α n) (request : Request α n)
    (t : LinearSolver α n) (reply : Reply α) : Prop where
  serve : s.serve request = (t, reply)
  inPlace : InPlace.Factors.serve (.of s.tolerance s.factors) request =
    .ok (.of t.tolerance t.factors, reply)

variable {tolerance : ℝ} {a : Mat ℝ n} {last : Option (Mat ℝ n)} {s : LinearSolver ℝ n}

theorem serves_factor_taken (h : tolerance < a.condition) (factors : Option (Elimination ℝ n)) :
    Serves ⟨tolerance, factors⟩ (.factor a) ⟨tolerance, some a.eliminate⟩ (.factored (.ok ())) := by
  have htaken := real_refusal?_eq_none_iff.mpr h
  constructor
  · simp only [serve, LinearSolver.factor, htaken]
  · simp only [InPlace.Factors.serve, InPlace.Factors.factor, InPlace.Factors.of, htaken]
    rfl

theorem serves_factor_refused (h : ¬ tolerance < a.condition)
    (factors : Option (Elimination ℝ n)) :
    Serves ⟨tolerance, factors⟩ (.factor a) ⟨tolerance, none⟩
      (.factored (.error .jacobianSingular)) := by
  have hrefused : refusal? tolerance a = some (.illConditioned a.condition) := by
    rw [refusal?, if_pos a.real_isFinite, Mat.real_reciprocalCondition?]
    simp [not_lt.mp h]
  constructor
  · simp only [serve, LinearSolver.factor, hrefused]
    rfl
  · simp only [InPlace.Factors.serve, InPlace.Factors.factor, InPlace.Factors.of, hrefused]
    rfl

theorem serves_solve_taken (a : Mat ℝ n) (right : Vec ℝ n) :
    Serves ⟨tolerance, some a.eliminate⟩ (.solve right) ⟨tolerance, some a.eliminate⟩
      (.solved (.ok ()) (a.eliminate.solve right).toList) := by
  have hsolve := real_solve? (s := ⟨tolerance, some a.eliminate⟩) rfl right
  have hfinite : (a.eliminate.solve right).isFinite = true := Vec.real_isFinite _
  constructor
  · simp only [serve, hsolve]
  · have hinPlace : (InPlace.Factors.of tolerance (some a.eliminate)).solve right.toList =
        .ok ((a.eliminate.solve right).toList, true) := by
      rw [← hfinite]
      exact congrArg (· >>= _) (InPlace.asVec_toList right)
    rw [InPlace.Factors.serve, hinPlace]
    rfl

theorem serves_solve_nothing (right : Vec ℝ n) :
    Serves ⟨tolerance, none⟩ (.solve right) ⟨tolerance, none⟩
      (.solved (.error .jacobianSingular) right.toList) :=
  ⟨rfl, rfl⟩

/-- The one solution for a matrix that was taken. -/
theorem due_solved (htolerance : 0 ≤ tolerance) (h : tolerance < a.condition) (right : Vec ℝ n) :
    Due tolerance (some a) (.solve right) (.solved (.ok ()) (a.eliminate.solve right).toList) := by
  have hnonsingular := nonsingular_of_not_refused htolerance (real_refusal?_eq_none_iff.mpr h)
  refine .solved rfl h fun y => ⟨fun hy => (hnonsingular.solve_eq hy).symm, fun hy => ?_⟩
  rw [hy]
  exact hnonsingular.mulVec_solve right

theorem Keeps.tolerance_eq (h : Keeps tolerance last s) : s.tolerance = tolerance := by
  cases h <;> rfl

/-- One request, whatever was asked before. -/
theorem Keeps.serves (htolerance : 0 ≤ tolerance) (h : Keeps tolerance last s)
    (request : Request ℝ n) :
    ∃ t reply, Serves s request t reply ∧ Keeps tolerance (Request.lastMatrix last [request]) t ∧
      Due tolerance last request reply := by
  cases request with
  | factor a =>
    have hs : s = ⟨tolerance, s.factors⟩ := by rw [← h.tolerance_eq]
    by_cases ha : tolerance < a.condition
    · have hnonsingular := nonsingular_of_not_refused htolerance
        (real_refusal?_eq_none_iff.mpr ha)
      rw [hs]
      exact ⟨_, _, serves_factor_taken ha s.factors, .taken ha,
        .factored ha (Mat.nonsingular_iff_isUnit.mp hnonsingular)⟩
    · rw [hs]
      exact ⟨_, _, serves_factor_refused ha s.factors,
        .nothing fun _ hlast => Option.some.inj hlast ▸ ha, .refused ha⟩
  | solve right =>
    cases h with
    | taken ha =>
      exact ⟨_, _, serves_solve_taken _ right, .taken ha, due_solved htolerance ha right⟩
    | nothing hnone => exact ⟨_, _, serves_solve_nothing right, .nothing hnone, .unsolved hnone⟩

theorem Keeps.serves_all (htolerance : 0 ≤ tolerance) (h : Keeps tolerance last s)
    (requests : List (Request ℝ n)) :
    ∃ t replies, s.serveAll requests = (t, replies) ∧
      InPlace.Factors.serveAll (.of s.tolerance s.factors) requests =
        .ok (.of t.tolerance t.factors, replies) ∧
      Keeps tolerance (Request.lastMatrix last requests) t ∧
      replies.length = requests.length ∧
      ∀ i request, requests[i]? = some request → ∃ reply, replies[i]? = some reply ∧
        Due tolerance (Request.lastMatrix last (requests.take i)) request reply := by
  induction requests generalizing last s with
  | nil => exact ⟨s, [], rfl, rfl, h, rfl, fun i request hi => by simp at hi⟩
  | cons request requests ih =>
    obtain ⟨t, reply, hserves, hkeeps, hdue⟩ := h.serves htolerance request
    obtain ⟨u, replies, hall, hinPlace, hkeeps', hlength, hdues⟩ := ih hkeeps
    have hlast (later : List (Request ℝ n)) : Request.lastMatrix last (request :: later) =
        Request.lastMatrix (Request.lastMatrix last [request]) later := by
      cases request <;> rfl
    refine ⟨u, reply :: replies, ?_, ?_, ?_, ?_, fun i next hi => ?_⟩
    · rw [serveAll, hserves.serve]
      simp only [hall]
    · rw [InPlace.Factors.serveAll, hserves.inPlace]
      change (InPlace.Factors.serveAll _ requests >>= _) = _
      rw [hinPlace]
      rfl
    · rw [hlast]
      exact hkeeps'
    · rw [List.length_cons, List.length_cons, hlength]
    · cases i with
      | zero =>
        cases hi
        exact ⟨reply, rfl, hdue⟩
      | succ i =>
        obtain ⟨reply', hreply, hdue'⟩ := hdues i next hi
        refine ⟨reply', hreply, ?_⟩
        rw [List.take_succ_cons, hlast]
        exact hdue'

/-- A new solver replies to every request as is due after those before it, and meets no fault in
place. -/
theorem new_solver_replies {tolerance : ℝ} (htolerance : 0 ≤ tolerance)
    (requests : List (Request ℝ n)) :
    ∃ t replies, serveAll ⟨tolerance, none⟩ requests = (t, replies) ∧
      InPlace.Factors.serveAll ⟨tolerance, none⟩ requests =
        .ok (.of tolerance t.factors, replies) ∧
      replies.length = requests.length ∧
      ∀ i request, requests[i]? = some request → ∃ reply, replies[i]? = some reply ∧
        Due tolerance (Request.lastMatrix none (requests.take i)) request reply := by
  have hempty : Keeps tolerance (none : Option (Mat ℝ n)) ⟨tolerance, none⟩ :=
    .nothing fun _ hlast => by cases hlast
  obtain ⟨t, replies, hall, hinPlace, hkeeps, hlength, hdues⟩ :=
    hempty.serves_all htolerance requests
  rw [hkeeps.tolerance_eq] at hinPlace
  exact ⟨t, replies, hall, hinPlace, hlength, hdues⟩

theorem new_solver_replies_sheared :
    (0 : ℝ) ≤ 0 ∧ ∃ x : Vec ℝ 2,
      (serveAll ⟨0, none⟩ [.solve (Vec.ones 2), .factor sheared, .solve (Vec.ones 2)]).2 =
        [.solved (.error .jacobianSingular) (Vec.ones 2 : Vec ℝ 2).toList, .factored (.ok ()),
          .solved (.ok ()) x.toList] ∧
      sheared.toMatrix *ᵥ x.get = (Vec.ones 2 : Vec ℝ 2).get := by
  obtain ⟨t, replies, hall, -, hlength, hdue⟩ := new_solver_replies le_rfl
    [.solve (Vec.ones 2), .factor sheared, .solve (Vec.ones 2)]
  obtain ⟨first, hfirst, hdue₀⟩ := hdue 0 _ rfl
  obtain ⟨second, hsecond, hdue₁⟩ := hdue 1 _ rfl
  obtain ⟨third, hthird, hdue₂⟩ := hdue 2 _ rfl
  have hreplies : replies = [first, second, third] := by
    obtain ⟨r₀, r₁, r₂, rfl⟩ := List.length_eq_three.mp hlength
    cases hfirst
    cases hsecond
    cases hthird
    rfl
  rw [hall, hreplies]
  cases hdue₁ with
  | refused h => exact absurd sheared_condition h
  | factored h hunit =>
    cases hdue₀ with
    | solved hlast => cases hlast
    | unsolved =>
      cases hdue₂ with
      | unsolved h => exact absurd sheared_condition (h sheared rfl)
      | @solved a right x hlast h hx =>
        cases hlast
        exact ⟨le_rfl, x, rfl, (hx x).mpr rfl⟩

end LinearSolver

end RootFinder
