import RootFinder.Proofs.Purity
import RootFinder.Proofs.Reachability
import RootFinder.Sweep

/-! Starting again. A run that was started again goes on as a new run from the same point does,
whatever happened to it before; one whose new start failed goes on as if nobody had tried. Both
are said of all that can be asked of a run afterwards. -/

namespace RootFinder

inductive Request (α : Type)
  | iterate
  | restart (point : List α)

inductive Reply
  | iterated (answer : Except SolveError Status)
  | restarted (answer : Except SolveError Unit)

/-- One equation with the root 2 and a pole at 0. There are no values past 5. -/
def reciprocal (x : Vec Float 1) : Except EvalError (Vec Float 1) :=
  let u := Vec.first x
  if 5 < u then .error (.domain "past five") else .ok (Vector.mk #[1 / u - 0.5] rfl)

namespace State

section

variable {m : Type → Type} [Monad m] {α : Type} [Scalar α] [SingularValues α] {n : Nat}

def serve (sys : Equations m α n) (c : Settings α) (s : State α n) :
    Request α → m (State α n × Reply)
  | .iterate => do
    let a ← s.iterate sys c
    pure (a.state, .iterated a.answer)
  | .restart point => do
    let (t, answer) ← s.restart sys c point
    pure (t, .restarted answer)

/-- The state after each request, and what the caller was told. -/
def serveAll (sys : Equations m α n) (c : Settings α) :
    List (Request α) → State α n → m (List (State α n × Reply))
  | [], _ => pure []
  | request :: requests, s => do
    let (t, reply) ← s.serve sys c request
    let later ← serveAll sys c requests t
    pure ((t, reply) :: later)

variable {m' : Type → Type} [Monad m'] (R : Correspondence m m') {sys : Equations m α n}
  {sys' : Equations m' α n} (hsys : ∀ x, R.Holds (sys x) (sys' x)) (c : Settings α)
include hsys

theorem holds_serve (s : State α n) (request : Request α) :
    R.Holds (s.serve sys c request) (s.serve sys' c request) := by
  cases request with
  | iterate => exact R.holds_bind (R.holds_iterate hsys c s) fun _ => R.holds_pure _
  | restart point => exact R.holds_bind (R.holds_restart hsys c s point) fun _ => R.holds_pure _

theorem holds_serveAll (requests : List (Request α)) (s : State α n) :
    R.Holds (serveAll sys c requests s) (serveAll sys' c requests s) := by
  induction requests generalizing s with
  | nil => exact R.holds_pure _
  | cons request requests ih =>
    refine R.holds_bind (holds_serve R hsys c s request) fun ⟨t, reply⟩ => ?_
    exact R.holds_bind (ih t) fun _ => R.holds_pure _

end

variable {σ α : Type} [Scalar α] {n : Nat} {sys : Equations (StateM σ) α n}
  {F : Vec α n → Except EvalError (Vec α n)} {c : Settings α}

/-- A pure system lets a run start again exactly where it lets a new run start. -/
theorem create_of_restart (hsys : sys.IsPure F) (hc : c.Valid) (hn : n ≠ 0) {s t : State α n}
    {point : List α} {w w' : σ} (h : (s.restart sys c point).run w = ((t, .ok ()), w')) (v : σ) :
    ((create sys c point).run v).1 = .ok t := by
  have hstart : (start (Equations.ofFunction F : Equations Id α n) c point).run = .ok t := by
    rw [← (settled σ).holds_start hsys.settles c point w, restart_eq_ok h]
  rw [create_eq_start sys hc hn, (settled σ).holds_start hsys.settles c point v, hstart]

variable [SingularValues α]

theorem serveAll_of_pure {τ : Type} {sys' : Equations (StateM τ) α n} (hsys : sys.IsPure F)
    (hsys' : sys'.IsPure F) (s : State α n) (requests : List (Request α)) (v : σ) (v' : τ) :
    ((serveAll sys c requests s).run v).1 = ((serveAll sys' c requests s).run v').1 := by
  rw [holds_serveAll (settled σ) hsys.settles c requests s v,
    holds_serveAll (settled τ) hsys'.settles c requests s v']

/-- After a new start a run cannot be told from a new run: it is in the same state, and whatever is
asked of both, they answer alike and pass through the same states. -/
theorem restarted_like_created (hsys : sys.IsPure F) {s t : State α n} (hs : s.Reachable sys c)
    {point : List α} {w w' : σ} (h : (s.restart sys c point).run w = ((t, .ok ()), w')) (v : σ) :
    ∃ t' v', (create sys c point).run v = (.ok t', v') ∧ t' = t ∧
      ∀ requests,
        ((serveAll sys c requests t').run v').1 = ((serveAll sys c requests t).run w').1 := by
  obtain ⟨answer, v', hcreate⟩ := exists_run (create sys c point) v
  have hanswer : answer = .ok t := by
    rw [← create_of_restart hsys hs.valid hs.dimension_ne_zero h v, hcreate]
  subst hanswer
  refine ⟨t, v', hcreate, rfl, ?_⟩
  intro requests
  exact serveAll_of_pure hsys hsys t requests v' w'

theorem restarted_like_created_reciprocal :
    ∃ (s t : State Float 1) (w w' : Nat),
      s.Reachable (interrupted [] reciprocal) .standard ∧
      (s.restart (interrupted [] reciprocal) .standard [4]).run w = ((t, .ok ()), w') ∧
      ∃ t' v', (create (interrupted [] reciprocal) .standard [4]).run 0 = (.ok t', v') ∧
        t' = t ∧
        ∀ requests,
          ((serveAll (interrupted [] reciprocal) .standard requests t').run v').1 =
            ((serveAll (interrupted [] reciprocal) .standard requests t).run w').1 := by
  obtain ⟨s, w, hs, h⟩ := exists_reachable (interrupted [] reciprocal) .standard [1] 2 0
    (fun s w =>
      match (s.restart (interrupted [] reciprocal) .standard [4]).run w with
      | ((_, .ok ()), _) => true
      | ((_, .error _), _) => false)
    (by decide +kernel)
  split at h
  · next t w' hr =>
    have hlike := restarted_like_created (interrupted_isPure reciprocal) hs hr 0
    exact ⟨s, t, w, w', hs, hr, hlike⟩
  · cases h

/-- A new start that fails changes nothing. It fails for the length of the point, for its residuals
or for a neighbour that cannot be evaluated; afterwards a pure system, which need not be the one
that failed, is met as if it had not been tried. -/
theorem failed_restart_unnoticed {s t : State α n} {point : List α} {w w' : σ}
    {e : SolveError} (h : (s.restart sys c point).run w = ((t, .error e), w')) :
    t = s ∧ Starts sys c point w (.error e) w' ∧
      ∀ (τ : Type) (sys' : Equations (StateM τ) α n) (F : Vec α n → Except EvalError (Vec α n)),
        sys'.IsPure F → ∀ requests v v',
          ((serveAll sys' c requests t).run v).1 = ((serveAll sys' c requests s).run v').1 := by
  obtain ⟨rfl, hstart⟩ := restart_eq_error h
  refine ⟨rfl, start_starts hstart, ?_⟩
  intro τ sys' F hsys' requests v v'
  exact serveAll_of_pure hsys' hsys' t requests v v'

/-- At 5 itself there is a value, but none at the neighbour. -/
theorem failed_restart_unnoticed_reciprocal :
    ∃ (s t : State Float 1) (w w' : Nat) (e : SolveError),
      s.Reachable (interrupted [] reciprocal) .standard ∧
      (s.restart (interrupted [] reciprocal) .standard [5]).run w = ((t, .error e), w') ∧ t = s ∧
      ∀ requests v v',
        ((serveAll (interrupted [] reciprocal) .standard requests t).run v).1 =
          ((serveAll (interrupted [] reciprocal) .standard requests s).run v').1 := by
  obtain ⟨s, w, hs, h⟩ := exists_reachable (interrupted [] reciprocal) .standard [1] 2 0
    (fun s w =>
      match (s.restart (interrupted [] reciprocal) .standard [5]).run w with
      | ((_, .error _), v) => decide (v = w + 2)
      | ((_, .ok ()), _) => false)
    (by decide +kernel)
  split at h
  · next t e w' hr =>
    obtain ⟨hsame, -, hlater⟩ := failed_restart_unnoticed hr
    exact ⟨s, t, w, w', e, hs, hr, hsame, hlater _ _ _ (interrupted_isPure reciprocal)⟩
  · cases h

end State

end RootFinder
