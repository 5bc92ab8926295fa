import RootFinder.Proofs.InPlace.Safety

/-! Starting again in place. A start overwrites scratch buffers, also one that fails later, and the
buffers of a solver with a past are not those of a new one. Nothing that a solver can be asked for
depends on them, now or after any requests. -/

namespace RootFinder

namespace InPlace

variable {σ α : Type} [Scalar α]

namespace Solver

/-- The solver without its scratch buffers. -/
def face (s : Solver α) : Solver α :=
  { s with
    factors := ⟨s.factors.tolerance, none⟩
    estimator := { s.estimator with neighbour := [], residuals := [], scratch := [] }
    dogleg := ⟨[], [], [], []⟩
    trialX := []
    trialF := []
    trialJac := .zeros 0
    model := [] }

theorem face_of {n : Nat} (c : Settings α) (s : State α n) (k k' : Workspace α n) :
    (of c s k).face = (of c s k').face :=
  rfl

variable [SingularValues α]

def serve (sys : Residuals σ α) (s : Solver α) : Request α → Run σ (Solver α × Reply)
  | .iterate => do
    let (s, answer) ← s.iterate sys
    pure (s, .iterated answer)
  | .restart point => do
    let (s, answer) ← s.set sys point
    pure (s, .restarted answer)

/-- The solver after each request, and what the caller was told. -/
def serveAll (sys : Residuals σ α) : List (Request α) → Solver α → Run σ (List (Solver α × Reply))
  | [], _ => pure []
  | request :: requests, s => do
    let (t, reply) ← s.serve sys request
    let later ← serveAll sys requests t
    pure ((t, reply) :: later)

/-- All that can be seen of the solver while it serves requests. -/
def course (sys : Residuals σ α) (requests : List (Request α)) (s : Solver α) (w : σ) :
    Except Fault (List (Solver α × Reply)) :=
  ((s.serveAll sys requests).run w).map fun served => served.1.map fun r => (r.1.face, r.2)

end Solver

variable [SingularValues α] {n : Nat}

/-- The solver shows the state after the request, and the caller is told the same. -/
def Served (c : Settings α) (b : Solver α × Reply) (r : State α n × Reply) : Prop :=
  (∃ k, b.1 = .of c r.1 k) ∧ b.2 = r.2

omit [SingularValues α] in
theorem Served.face_eq {c : Settings α} {served served' : List (Solver α × Reply)}
    {shown : List (State α n × Reply)} (h : List.Forall₂ (Served c) served shown)
    (h' : List.Forall₂ (Served c) served' shown) :
    served.map (fun r => (r.1.face, r.2)) = served'.map fun r => (r.1.face, r.2) := by
  induction h generalizing served' with
  | nil =>
    cases h'
    rfl
  | @cons _ r _ _ hb _ ih =>
    cases h' with
    | cons hb' hlater =>
      obtain ⟨⟨k, hk⟩, hreply⟩ := hb
      obtain ⟨⟨k', hk'⟩, hreply'⟩ := hb'
      rw [List.map_cons, List.map_cons, ih hlater, hk, hk', hreply, hreply',
        Solver.face_of c r.1 k k']

section

variable {m : Type → Type} [Monad m] {T : Tracking σ m} {sys : Residuals σ α}
  {eqs : Equations m α n} (hsys : Writes T sys eqs) {c : Settings α}
  (hc : c.minRadius ≤ c.maxRadius)
include hsys hc

theorem serve_sim (s : State α n) (k : Workspace α n) (request : Request α) :
    Sim T (Served c) (Solver.serve sys (.of c s k) request) (State.serve eqs c s request) := by
  cases request with
  | iterate =>
    refine .bind (iterate_sim hsys hc s k) ?_
    rintro ⟨b, answer⟩ a ⟨⟨k', hb⟩, hanswer⟩
    dsimp only at hb hanswer
    subst hb hanswer
    exact .pure ⟨⟨k', rfl⟩, rfl⟩
  | restart point =>
    refine .bind (restart_sim hsys hc s k point) ?_
    rintro ⟨b, answer⟩ ⟨t, answer'⟩ ⟨⟨k', hb⟩, hanswer⟩
    dsimp only at hb hanswer
    subst hb hanswer
    exact .pure ⟨⟨k', rfl⟩, rfl⟩

theorem serveAll_sim (requests : List (Request α)) (s : State α n) (k : Workspace α n) :
    Sim T (List.Forall₂ (Served c)) (Solver.serveAll sys requests (.of c s k))
      (State.serveAll eqs c requests s) := by
  induction requests generalizing s k with
  | nil => exact .pure .nil
  | cons request requests ih =>
    refine .bind (serve_sim hsys hc s k request) ?_
    rintro ⟨b, reply⟩ ⟨t, reply'⟩ ⟨⟨k', hb⟩, hreply⟩
    dsimp only at hb hreply
    subst hb hreply
    refine .bind (ih t k') ?_
    intro later later' hlater
    exact .pure (.cons ⟨⟨k', rfl⟩, rfl⟩ hlater)

end

variable {sys : Residuals σ α} {eqs : Equations (StateM σ) α n}
  {F : Vec α n → Except EvalError (Vec α n)}

/-- With a pure system, two solvers that show one state serve all requests alike, from wherever the
system is and whatever their scratch buffers hold. -/
theorem course_of (hsys : Writes (.exact σ) sys eqs) (hpure : eqs.IsPure F) {c : Settings α}
    (hc : c.minRadius ≤ c.maxRadius) (s : State α n) (k k' : Workspace α n)
    (requests : List (Request α)) (w w' : σ) :
    ∃ shown, (Solver.of c s k).course sys requests w = .ok shown ∧
      (Solver.of c s k').course sys requests w' = .ok shown := by
  obtain ⟨served, shown, v, hrun, hgoes, hserved⟩ := serveAll_sim hsys hc requests s k w
  obtain ⟨served', shown', v', hrun', hgoes', hserved'⟩ := serveAll_sim hsys hc requests s k' w'
  have hshown : shown = shown' := by
    have hsame := State.serveAll_of_pure (c := c) hpure hpure s requests w w'
    rwa [hgoes, hgoes'] at hsame
  subst hshown
  refine ⟨served.map fun r => (r.1.face, r.2), ?_, ?_⟩
  · rw [Solver.course, hrun]
    rfl
  · rw [Solver.course, hrun', Served.face_eq hserved hserved']
    rfl

namespace Solver

/-- A solver shows a state that the method over states reaches. -/
theorem Reached.exists_of (hsys : Writes (.exact σ) sys eqs) {s : Solver α} (h : s.Reached sys) :
    ∃ (c : Settings α) (t : State α n) (k : Workspace α n), s = .of c t k ∧ t.Reachable eqs c := by
  induction h with
  | @create c point s w w' h =>
    obtain ⟨b, r, v, hrun, hgoes, hcreated⟩ := create_sim hsys c point w
    rw [h] at hrun
    cases hrun
    cases hcreated with
    | ok t k => exact ⟨c, t, k, rfl, .create hgoes⟩
  | @set s t point answer w w' _ h ih =>
    obtain ⟨c, u, k, rfl, hu⟩ := ih
    obtain ⟨b, r, v, hrun, hgoes, ⟨k', hb⟩, -⟩ := restart_sim hsys hu.valid.minRadius_le u k point w
    rw [h] at hrun
    cases hrun
    exact ⟨c, r.1, k', hb, hu.restart hgoes⟩
  | @iterate s t answer w w' _ h ih =>
    obtain ⟨c, u, k, rfl, hu⟩ := ih
    obtain ⟨b, a, v, hrun, hgoes, ⟨k', hb⟩, -⟩ := iterate_sim hsys hu.valid.minRadius_le u k w
    rw [h] at hrun
    cases hrun
    exact ⟨c, a.state, k', hb, hu.iterate hgoes⟩

/-- After a new start a solver looks like a new one, and serves all requests as that one does. -/
theorem set_like_create (hsys : Writes (.exact σ) sys eqs) (hpure : eqs.IsPure F) {s t : Solver α}
    (hs : s.Reached sys) {point : List α} {w w' : σ}
    (h : (s.set sys point).run w = .ok ((t, .ok ()), w')) (v : σ) :
    ∃ t' v', (create sys s.settings point).run v = .ok (.ok t', v') ∧ t'.face = t.face ∧
      ∀ requests, ∃ shown, t'.course sys requests v' = .ok shown ∧
        t.course sys requests w' = .ok shown := by
  obtain ⟨c, u, k, rfl, hu⟩ := hs.exists_of hsys
  have hc := hu.valid.minRadius_le
  obtain ⟨b, ⟨u', answer⟩, x, hrun, hgoes, ⟨k', hb⟩, hanswer⟩ := restart_sim hsys hc u k point w
  rw [h] at hrun
  cases hrun
  dsimp only at hb hanswer
  subst hb hanswer
  obtain ⟨b, r, v', hcreate, hgoes', hcreated⟩ := create_sim hsys c point v
  have hstate := State.create_of_restart hpure hu.valid hu.dimension_ne_zero hgoes v
  rw [hgoes'] at hstate
  dsimp only at hstate
  subst hstate
  cases hcreated with
  | ok _ k'' =>
    exact ⟨_, v', hcreate, face_of c u' k'' k',
      fun requests => course_of hsys hpure hc u' k'' k' requests v' w'⟩

/-- A new start that fails leaves the solver looking as it did, and with a pure system, which need
not be the one that failed, it serves all requests as if nobody had tried. -/
theorem failed_set_unnoticed (hsys : sys.KeepsLength) {s t : Solver α} (hs : s.Reached sys)
    {point : List α} {e : SolveError} {w w' : σ}
    (h : (s.set sys point).run w = .ok ((t, .error e), w')) :
    t.face = s.face ∧
      ∀ (τ : Type) (sys' : Residuals τ α) (eqs : Equations (StateM τ) α sys.dimension)
        (F : Vec α sys.dimension → Except EvalError (Vec α sys.dimension)),
        Writes (.exact τ) sys' eqs → eqs.IsPure F → ∀ requests v v', ∃ shown,
          t.course sys' requests v = .ok shown ∧ s.course sys' requests v' = .ok shown := by
  obtain ⟨⟨c, u⟩, hshows⟩ := hs.exists_shows hsys.writes
  cases hshows with
  | some c hc u k =>
    obtain ⟨b, r, x, hrun, -, hrestarted⟩ := start_sim hsys.writes hc u k point w
    rw [h] at hrun
    cases hrun
    cases hrestarted with
    | error _ k' =>
      refine ⟨face_of c u k' k, ?_⟩
      intro τ sys' eqs F hsys' hpure requests v v'
      exact course_of hsys' hpure hc u k' k requests v v'

end Solver

end InPlace

end RootFinder
