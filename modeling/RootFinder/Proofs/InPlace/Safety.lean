import RootFinder.Proofs.InPlace.Searches
import RootFinder.Proofs.Restart

/-! Programs that use the method in place. Whatever they ask for, in any order, with any settings
and from any points, no task meets a fault: a system that leaves its buffer as long as it was keeps
all buffers of a solver at their length. If it also writes all its residuals, the program is told
what the method over states tells. -/

namespace RootFinder

namespace InPlace

variable {σ α : Type}

inductive Task (σ α : Type)
  | create (c : Settings α) (point : List α)
  | set (point : List α)
  | iterate
  | evaluate (point : List α)
  | solve (c : Settings α) (point : List α)
  | solveShown (c : Settings α) (point : List α) (observe : Stats α → StateM σ Control)

inductive Answer (α : Type)
  | created (answer : Except SolveError Unit)
  | set (answer : Except SolveError Unit)
  | iterated (answer : Except SolveError Status)
  | evaluated (answer : Except EvalError (List α))
  | solved (answer : Except (Failed α) (Found α))
  | noSolver

section

variable [Scalar α] [SingularValues α]

/-- Carries out a task with the solver that was made last. -/
def perform (sys : Residuals σ α) (solver : Option (Solver α)) :
    Task σ α → Run σ (Option (Solver α) × Answer α)
  | .create c point => do
    match ← Solver.create sys c point with
    | .error e => pure (solver, .created (.error e))
    | .ok s => pure (some s, .created (.ok ()))
  | .set point =>
    match solver with
    | none => pure (none, .noSolver)
    | some s => do
      let (s, answer) ← s.set sys point
      pure (some s, .set answer)
  | .iterate =>
    match solver with
    | none => pure (none, .noSolver)
    | some s => do
      let (s, answer) ← s.iterate sys
      pure (some s, .iterated answer)
  | .evaluate point => do
    let answer ← evaluate sys point
    pure (solver, .evaluated answer)
  | .solve c point => do
    let answer ← solve sys (fun _ => pure .proceed) c point
    pure (solver, .solved answer)
  | .solveShown c point observe => do
    let answer ← solve sys observe c point
    pure (solver, .solved answer)

def performAll (sys : Residuals σ α) :
    Option (Solver α) → List (Task σ α) → Run σ (List (Option (Solver α) × Answer α))
  | _, [] => pure []
  | solver, task :: tasks => do
    let (solver, answer) ← perform sys solver task
    let later ← performAll sys solver tasks
    pure ((solver, answer) :: later)

variable {m : Type → Type} [Monad m] {n : Nat}

/-- Carries out a task with the run that was started last, over states. -/
def attend (eqs : Equations m α n) (watch : StateM σ Control → m Control)
    (run : Option (Settings α × State α n)) :
    Task σ α → m (Option (Settings α × State α n) × Answer α)
  | .create c point => do
    match ← State.create eqs c point with
    | .error e => pure (run, .created (.error e))
    | .ok s => pure (some (c, s), .created (.ok ()))
  | .set point =>
    match run with
    | none => pure (none, .noSolver)
    | some (c, s) => do
      let (t, answer) ← s.restart eqs c point
      pure (some (c, t), .set answer)
  | .iterate =>
    match run with
    | none => pure (none, .noSolver)
    | some (c, s) => do
      let a ← s.iterate eqs c
      pure (some (c, a.state), .iterated a.answer)
  | .evaluate point => do
    let answer ← eqs.evaluate point
    pure (run, .evaluated (answer.map Vector.toList))
  | .solve c point => do
    let outcome ← RootFinder.solve eqs c point
    pure (run, .solved (told outcome))
  | .solveShown c point observe => do
    let outcome ← search eqs (fun shown => watch (observe (.of shown.state))) c point
    pure (run, .solved (told outcome))

def attendAll (eqs : Equations m α n) (watch : StateM σ Control → m Control) :
    Option (Settings α × State α n) → List (Task σ α) →
      m (List (Option (Settings α × State α n) × Answer α))
  | _, [] => pure []
  | run, task :: tasks => do
    let (run, answer) ← attend eqs watch run task
    let later ← attendAll eqs watch run tasks
    pure ((run, answer) :: later)

/-- The solver shows the state of the run, and the bounds of its radius are in order. -/
inductive Shows : Option (Solver α) → Option (Settings α × State α n) → Prop
  | none : Shows none none
  | some (c : Settings α) (hc : c.minRadius ≤ c.maxRadius) (s : State α n) (k : Workspace α n) :
      Shows (some (.of c s k)) (some (c, s))

def Agree (b : Option (Solver α) × Answer α) (r : Option (Settings α × State α n) × Answer α) :
    Prop :=
  Shows b.1 r.1 ∧ b.2 = r.2

variable {T : Tracking σ m} {sys : Residuals σ α} {eqs : Equations m α n}
  {watch : StateM σ Control → m Control} (hsys : Writes T sys eqs)
  (hwatch : ∀ x, Sim T Eq (outside x) (watch x))
include hsys hwatch

theorem perform_sim {solver : Option (Solver α)} {run : Option (Settings α × State α n)}
    (h : Shows solver run) (task : Task σ α) :
    Sim T Agree (perform sys solver task) (attend eqs watch run task) := by
  cases task with
  | create c point =>
    refine .bind (create_sim hsys c point) ?_
    rintro _ _ (⟨s, k, hc⟩ | ⟨e⟩)
    · exact .pure ⟨.some c hc s k, rfl⟩
    · exact .pure ⟨h, rfl⟩
  | set point =>
    cases h with
    | none => exact .pure ⟨.none, rfl⟩
    | some c hc s k =>
      refine .bind (restart_sim hsys hc s k point) ?_
      rintro ⟨b, answer⟩ ⟨t, answer'⟩ ⟨⟨k', hb⟩, hanswer⟩
      dsimp only at hb hanswer
      subst hb hanswer
      exact .pure ⟨.some c hc t k', rfl⟩
  | iterate =>
    cases h with
    | none => exact .pure ⟨.none, rfl⟩
    | some c hc s k =>
      refine .bind (iterate_sim hsys hc s k) ?_
      rintro ⟨b, answer⟩ a ⟨⟨k', hb⟩, hanswer⟩
      dsimp only at hb hanswer
      subst hb hanswer
      exact .pure ⟨.some c hc a.state k', rfl⟩
  | evaluate point =>
    refine .bind (evaluate_sim hsys point) ?_
    rintro _ answer rfl
    exact .pure ⟨h, rfl⟩
  | solve c point =>
    refine .bind (solve_sim hsys (fun _ _ => .pure rfl) c point) ?_
    rintro _ outcome rfl
    exact .pure ⟨h, rfl⟩
  | solveShown c point observe =>
    refine .bind (solve_sim hsys (fun s _ => hwatch (observe (.of s))) c point) ?_
    rintro _ outcome rfl
    exact .pure ⟨h, rfl⟩

theorem performAll_sim {solver : Option (Solver α)} {run : Option (Settings α × State α n)}
    (h : Shows solver run) (tasks : List (Task σ α)) :
    Sim T (fun b r => b.length = tasks.length ∧ List.Forall₂ Agree b r)
      (performAll sys solver tasks) (attendAll eqs watch run tasks) := by
  induction tasks generalizing solver run with
  | nil => exact .pure ⟨rfl, .nil⟩
  | cons task tasks ih =>
    refine .bind (perform_sim hsys hwatch h task) ?_
    rintro ⟨solver', answer⟩ ⟨run', answer'⟩ hagree
    refine .bind (ih hagree.1) ?_
    rintro later later' ⟨hlength, hlater⟩
    exact .pure ⟨congrArg Nat.succ hlength, .cons hagree hlater⟩

end

theorem run_pure {β : Type} (b : β) (w : σ) : (pure b : StateM σ β).run w = (b, w) :=
  rfl

theorem run_bind {β γ : Type} {x : StateM σ β} {f : β → StateM σ γ} {b : β} {c : γ} {w v w' : σ}
    (h : x.run w = (b, v)) (h' : (f b).run v = (c, w')) : (x >>= f).run w = (c, w') :=
  (run_bind_of_eq h).trans h'

/-- The other computation is run from where the program is, and they end in the same place. -/
def Tracking.exact (σ : Type) : Tracking σ (StateM σ) where
  Goes y w c w' := y.run w = (c, w')
  goes_pure := run_pure
  goes_bind := run_bind

theorem outside_exact {β : Type} (x : StateM σ β) : Sim (.exact σ) Eq (outside x) (id x) :=
  fun w => ⟨(x.run w).1, (x.run w).1, (x.run w).2, rfl, rfl, rfl⟩

/-- Nothing is said about the other computation but what its results look like. -/
def Tracking.loose (σ : Type) : Tracking σ Id where
  Goes _ _ _ _ := True
  goes_pure _ _ := trivial
  goes_bind _ _ := trivial

theorem outside_loose {β : Type} (x : StateM σ β) (y : Id β) :
    Sim (.loose σ) Eq (outside x) y :=
  fun w => ⟨(x.run w).1, (x.run w).1, (x.run w).2, rfl, trivial, rfl⟩

/-- A buffer that has the length of the system is left with it. What is written, and whether all of
it is, may be anything. -/
def Residuals.KeepsLength (sys : Residuals σ α) : Prop :=
  ∀ x out w, x.length = sys.dimension → out.length = sys.dimension →
    ((sys.write x out).run w).1.2.length = sys.dimension

theorem Residuals.KeepsLength.writes {sys : Residuals σ α} (h : sys.KeepsLength) :
    Writes (.loose σ) sys (fun x : Vec α sys.dimension => (.ok x : Id _)) := by
  refine ⟨rfl, fun x out w => ?_⟩
  have hlength := h x.toList out.toList w x.length_toList out.length_toList
  obtain ⟨⟨answer, buffer⟩, w', hrun⟩ := exists_run (sys.write x.toList out.toList) w
  have hout : (outside (sys.write x.toList out.toList)).run w = .ok ((answer, buffer), w') :=
    congrArg Except.ok hrun
  rw [hrun] at hlength
  obtain ⟨f, hf⟩ := exists_vec hlength
  dsimp only at hf
  subst hf
  cases answer with
  | ok _ => exact ⟨_, .ok f, w', hout, trivial, .ok f⟩
  | error e => exact ⟨_, .error e, w', hout, trivial, .error e f⟩

theorem Writes.keepsLength {n : Nat} {sys : Residuals σ α} {eqs : Equations (StateM σ) α n}
    (h : Writes (.exact σ) sys eqs) : sys.KeepsLength := by
  intro x out w hx hout
  rw [h.dimension] at hx hout
  obtain ⟨x, rfl⟩ := exists_vec hx
  obtain ⟨out, rfl⟩ := exists_vec hout
  obtain ⟨b, c, w', hrun, -, hanswered⟩ := h.write x out w
  have hresult : (sys.write x.toList out.toList).run w = (b, w') := Except.ok.inj hrun
  rw [hresult, h.dimension]
  cases hanswered with
  | ok f => exact f.length_toList
  | error e left => exact left.length_toList

/-- The system that writes what another one answers. -/
def Residuals.ofEquations {n : Nat} (eqs : Equations (StateM σ) α n) : Residuals σ α where
  dimension := n
  write point buffer :=
    match Vec.ofList? n point with
    | none => pure (.error (.wrongDimension n point.length), buffer)
    | some x => do
      match ← eqs x with
      | .error e => pure (.error e, buffer)
      | .ok f => pure (.ok (), f.toList)

theorem ofEquations_writes {n : Nat} (eqs : Equations (StateM σ) α n) :
    Writes (.exact σ) (.ofEquations eqs) eqs := by
  refine ⟨rfl, fun x out w => ?_⟩
  obtain ⟨answer, w', hrun⟩ := exists_run (eqs x) w
  cases answer with
  | ok f =>
    refine ⟨_, .ok f, w', ?_, hrun, .ok f⟩
    dsimp only [Residuals.ofEquations]
    rw [Vec.ofList?_toList]
    exact congrArg Except.ok (run_bind_of_eq hrun)
  | error e =>
    refine ⟨_, .error e, w', ?_, hrun, .error e out⟩
    dsimp only [Residuals.ofEquations]
    rw [Vec.ofList?_toList]
    exact congrArg Except.ok (run_bind_of_eq hrun)

namespace Solver

def buffers (s : Solver α) : List (List α) :=
  [s.x, s.f, s.scaling, s.step, s.trialX, s.trialF, s.model,
    s.estimator.neighbour, s.estimator.residuals, s.estimator.scratch,
    s.dogleg.newton, s.dogleg.gradient, s.dogleg.cauchy, s.dogleg.image]

structure Shaped (n : Nat) (s : Solver α) : Prop where
  buffers : ∀ v ∈ s.buffers, v.length = n
  jac : s.jac.dim = n
  trialJac : s.trialJac.dim = n
  factored : ∀ e ∈ s.factors.factored, e.1 = n

theorem of_shaped {n : Nat} (c : Settings α) (s : State α n) (k : Workspace α n) :
    (of c s k).Shaped n where
  buffers := by simp [buffers, of, Estimator.of, Dogleg.of]
  jac := rfl
  trialJac := rfl
  factored := by
    cases hk : k.factored with
    | none => simp [of, Factors.of, hk]
    | some e => simp [of, Factors.of, hk]

end Solver

variable [Scalar α] [SingularValues α]

omit [SingularValues α] in
theorem Shows.shaped {n : Nat} {solver : Option (Solver α)} {run : Option (Settings α × State α n)}
    (h : Shows solver run) : ∀ s ∈ solver, s.Shaped n := by
  intro s hs
  cases h with
  | none => cases hs
  | some c hc t k =>
    cases hs
    exact Solver.of_shaped c t k

/-- The solvers that calls lead to, whatever happens to the system between the calls. -/
inductive Solver.Reached (sys : Residuals σ α) : Solver α → Prop
  | create {c : Settings α} {point : List α} {s : Solver α} {w w' : σ}
      (h : (Solver.create sys c point).run w = .ok (.ok s, w')) : Reached sys s
  | set {s t : Solver α} {point : List α} {answer : Except SolveError Unit} {w w' : σ}
      (hs : Reached sys s) (h : (s.set sys point).run w = .ok ((t, answer), w')) : Reached sys t
  | iterate {s t : Solver α} {answer : Except SolveError Status} {w w' : σ} (hs : Reached sys s)
      (h : (s.iterate sys).run w = .ok ((t, answer), w')) : Reached sys t

theorem Solver.Reached.exists_shows {n : Nat} {sys : Residuals σ α} {eqs : Equations Id α n}
    (hsys : Writes (.loose σ) sys eqs) {s : Solver α} (h : s.Reached sys) :
    ∃ run : Settings α × State α n, Shows (some s) (some run) := by
  induction h with
  | @create c point s w w' h =>
    obtain ⟨b, r, v, hrun, -, hcreated⟩ := create_sim hsys c point w
    rw [h] at hrun
    cases hrun
    cases hcreated with
    | ok t k hc => exact ⟨(c, t), .some c hc t k⟩
  | @set s t point answer w w' _ h ih =>
    obtain ⟨⟨c, u⟩, hshows⟩ := ih
    cases hshows with
    | some c hc u k =>
      obtain ⟨b, r, v, hrun, -, ⟨k', hb⟩, -⟩ := restart_sim hsys hc u k point w
      rw [h] at hrun
      cases hrun
      dsimp only at hb
      rw [hb]
      exact ⟨(c, r.1), .some c hc r.1 k'⟩
  | @iterate s t answer w w' _ h ih =>
    obtain ⟨⟨c, u⟩, hshows⟩ := ih
    cases hshows with
    | some c hc u k =>
      obtain ⟨b, a, v, hrun, -, ⟨k', hb⟩, -⟩ := iterate_sim hsys hc u k w
      rw [h] at hrun
      cases hrun
      dsimp only at hb
      rw [hb]
      exact ⟨(c, a.state), .some c hc a.state k'⟩

theorem Solver.Reached.goes_on {sys : Residuals σ α} (h : sys.KeepsLength) {s : Solver α}
    (hs : s.Reached sys) :
    (∀ point w, ∃ result, (s.set sys point).run w = .ok result) ∧
      ∀ w, ∃ result, (s.iterate sys).run w = .ok result := by
  obtain ⟨⟨c, t⟩, hshows⟩ := hs.exists_shows h.writes
  cases hshows with
  | some c hc t k =>
    constructor
    · intro point w
      obtain ⟨b, -, w', hrun, -⟩ := restart_sim h.writes hc t k point w
      exact ⟨(b, w'), hrun⟩
    · intro w
      obtain ⟨b, -, w', hrun, -⟩ := iterate_sim h.writes hc t k w
      exact ⟨(b, w'), hrun⟩

/-- No task meets a fault: each is answered, and the solvers have all their buffers and matrices in
the size of the system, after each task as after each call. A program with a system that answers as
equations do is told the same as over states, and shown the same states. -/
theorem no_task_meets_fault {sys : Residuals σ α} (h : sys.KeepsLength) :
    (∀ s : Solver α, s.Reached sys → s.Shaped sys.dimension ∧
      (∀ point w, ∃ result, (s.set sys point).run w = .ok result) ∧
      ∀ w, ∃ result, (s.iterate sys).run w = .ok result) ∧
    ∀ (tasks : List (Task σ α)) (w : σ),
      ∃ results w', (performAll sys none tasks).run w = .ok (results, w') ∧
        results.length = tasks.length ∧
        (∀ r ∈ results, ∀ s ∈ r.1, s.Shaped sys.dimension) ∧
        ∀ eqs : Equations (StateM σ) α sys.dimension, Writes (.exact σ) sys eqs →
          ∃ shown, (attendAll eqs id none tasks).run w = (shown, w') ∧
            List.Forall₂ Agree results shown := by
  refine ⟨fun s hs => ?_, fun tasks w => ?_⟩
  · obtain ⟨run, hshows⟩ := hs.exists_shows h.writes
    exact ⟨hshows.shaped s rfl, hs.goes_on h⟩
  obtain ⟨results, shown, w', hrun, -, hlength, hagree⟩ :=
    performAll_sim h.writes (fun x => outside_loose x Control.proceed) .none tasks w
  have hshaped :=
    (List.forall₂_and_left _ _).mp (hagree.imp fun _ _ hr => ⟨hr.1.shaped, hr⟩)
  refine ⟨results, w', hrun, hlength, hshaped.1, fun eqs hsys => ?_⟩
  -- The run is the same one, now seen beside that of the equations.
  obtain ⟨results', shown', v, hrun', hshown, -, hagree'⟩ :=
    performAll_sim hsys outside_exact .none tasks w
  rw [hrun] at hrun'
  cases hrun'
  exact ⟨shown', hshown, hagree'⟩

/-- No solver yet, a point of the wrong length, the pole and then a start that succeeds; later a
point without residuals, one of the wrong length, and a call that fails. -/
def reciprocalTasks : List (Task Nat Float) :=
  [.iterate, .create .standard [], .create .standard [0], .create .standard [1], .iterate,
    .set [6], .evaluate [1, 4], .solve .standard [1]]

theorem no_task_meets_fault_reciprocal :
    (Residuals.ofEquations (interrupted [6] reciprocal)).KeepsLength ∧
    ∃ results w',
      (performAll (.ofEquations (interrupted [6] reciprocal)) none reciprocalTasks).run 0 =
        .ok (results, w') ∧
      results.map (fun r => r.1.isSome) = [false, false, false, true, true, true, true, true] ∧
      (∀ r ∈ results, ∀ s ∈ r.1, s.Shaped 1) ∧
      ∃ shown, (attendAll (interrupted [6] reciprocal) id none reciprocalTasks).run 0 = (shown, w') ∧
        List.Forall₂ Agree results shown := by
  have hwrites := ofEquations_writes (interrupted [6] reciprocal)
  obtain ⟨results, w', hrun, -, hshaped, hagree⟩ :=
    (no_task_meets_fault hwrites.keepsLength).2 reciprocalTasks 0
  have hsolvers :
      (((performAll (.ofEquations (interrupted [6] reciprocal)) none reciprocalTasks).run
        0).toOption.map fun r => r.1.map fun b => b.1.isSome) =
      some [false, false, false, true, true, true, true, true] := by
    decide +kernel
  rw [hrun] at hsolvers
  exact ⟨hwrites.keepsLength, results, w', hrun, Option.some.inj hsolvers, hshaped,
    hagree _ hwrites⟩

/-- A system that takes its buffer away is met by a fault. -/
example :
    ((performAll (⟨1, fun _ _ => pure (.ok (), [])⟩ : Residuals Unit Float) none
      [.create .standard [1]]).run () matches .error .length) = true := by
  decide +kernel

end InPlace

end RootFinder
