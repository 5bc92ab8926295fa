import Mathlib.Data.List.FinRange
import RootFinder.Proofs.Course
import RootFinder.Proofs.InPlace.Program

/-! The method in place does what the method does. A solver whose buffers have one length shows a
state together with what is left over in its scratch buffers; each of its operations meets no fault
there, and ends with a solver that shows the state which the operation on states ends with. -/

namespace RootFinder

namespace InPlace

variable {σ : Type} {m : Type → Type} [Monad m]

/-- How computations of a system over states go, seen from the world in which the program runs. -/
structure Tracking (σ : Type) (m : Type → Type) [Monad m] where
  Goes : {γ : Type} → m γ → σ → γ → σ → Prop
  goes_pure : ∀ {γ : Type} (c : γ) (w : σ), Goes (pure c) w c w
  goes_bind : ∀ {γ δ : Type} {y : m γ} {g : γ → m δ} {c : γ} {d : δ} {w v w' : σ},
    Goes y w c v → Goes (g c) v d w' → Goes (y >>= g) w d w'

variable {T : Tracking σ m} {β β' γ γ' : Type}

/-- The program meets no fault, and its results are related to those of the other computation. -/
def Sim (T : Tracking σ m) (R : β → γ → Prop) (x : Run σ β) (y : m γ) : Prop :=
  ∀ w, ∃ b c w', x.run w = .ok (b, w') ∧ T.Goes y w c w' ∧ R b c

namespace Sim

variable {R : β → γ → Prop} {R' : β' → γ' → Prop} {x : Run σ β} {y : m γ}

theorem pure {b : β} {c : γ} (h : R b c) : Sim T R (Pure.pure b) (Pure.pure c) :=
  fun w => ⟨b, c, w, rfl, T.goes_pure c w, h⟩

theorem bind {f : β → Run σ β'} {g : γ → m γ'} (h : Sim T R x y)
    (hf : ∀ b c, R b c → Sim T R' (f b) (g c)) : Sim T R' (x >>= f) (y >>= g) := by
  intro w
  obtain ⟨b, c, v, hx, hy, hr⟩ := h w
  obtain ⟨b', c', w', hb, hc, hr'⟩ := hf b c hr v
  refine ⟨b', c', w', ?_, T.goes_bind hy hc, hr'⟩
  rw [StateT.run_bind, hx]
  exact hb

theorem lift {op : Except Fault β'} {b : β'} {f : β' → Run σ β} (h : op = .ok b)
    (hf : Sim T R (f b) y) : Sim T R (liftM op >>= f) y := by
  subst h
  exact hf

theorem mono {S : β → γ → Prop} (h : Sim T R x y) (hr : ∀ b c, R b c → S b c) : Sim T S x y := by
  intro w
  obtain ⟨b, c, w', hx, hy, hbc⟩ := h w
  exact ⟨b, c, w', hx, hy, hr b c hbc⟩

theorem follow {g : γ → m γ'} {S : β → γ' → Prop} (h : Sim T R x y)
    (hg : ∀ b c, R b c → Sim T S (Pure.pure b) (g c)) : Sim T S x (y >>= g) := by
  intro w
  obtain ⟨b, c, v, hx, hy, hr⟩ := h w
  obtain ⟨b', c', w', hb, hc, hr'⟩ := hg b c hr v
  cases hb
  exact ⟨b, c', v, hx, T.goes_bind hy hc, hr'⟩

theorem finish {f : β → Run σ β'} {S : β' → γ → Prop} (h : Sim T R x y)
    (hf : ∀ b c, R b c → ∃ b', f b = Pure.pure b' ∧ S b' c) : Sim T S (x >>= f) y := by
  intro w
  obtain ⟨b, c, w', hx, hy, hr⟩ := h w
  obtain ⟨b', hb, hr'⟩ := hf b c hr
  refine ⟨b', c, w', ?_, hy, hr'⟩
  rw [StateT.run_bind, hx]
  change (f b).run w' = _
  rw [hb]
  rfl

end Sim

variable {α : Type} {n : Nat}

/-- The answer of a system, and what it left in the buffer. -/
inductive Answered : Except EvalError Unit × List α → Except EvalError (Vec α n) → Prop
  | ok (f : Vec α n) : Answered (.ok (), f.toList) (.ok f)
  | error (e : EvalError) (left : Vec α n) : Answered (.error e, left.toList) (.error e)

/-- The system writes all its residuals into the buffer, or reports an error. -/
structure Writes (T : Tracking σ m) (sys : Residuals σ α) (eqs : Equations m α n) : Prop where
  dimension : sys.dimension = n
  write : ∀ x out : Vec α n,
    Sim T Answered (outside (sys.write x.toList out.toList)) (eqs x)

variable {sys : Residuals σ α} {eqs : Equations m α n}

theorem Writes.evaluateInto (h : Writes T sys eqs) (x out : Vec α n) :
    Sim T Answered (evaluateInto sys x.toList out.toList) (eqs x) := by
  have hlength (v : Vec α n) : v.toList.length = sys.dimension := by
    rw [Vector.length_toList, h.dimension]
  rw [InPlace.evaluateInto, if_neg (not_not.mpr (hlength x)), if_neg (not_not.mpr (hlength out))]
  exact h.write x out

/-- What is left over in the scratch buffers. -/
structure Workspace (α : Type) (n : Nat) where
  trialX : Vec α n
  trialF : Vec α n
  trialJac : Mat α n
  model : Vec α n
  neighbour : Vec α n
  residuals : Vec α n
  scratch : Vec α n
  newton : Vec α n
  gradient : Vec α n
  cauchy : Vec α n
  image : Vec α n
  factored : Option (Elimination α n)

def Factors.of (tolerance : α) (factored : Option (Elimination α n)) : Factors α :=
  ⟨tolerance, factored.map fun e => ⟨n, e⟩⟩

/-- The estimator with these flags and buffers. -/
def Estimator.holding (relative : α) (jac : Jacobian α n) (neighbour residuals scratch : Vec α n) :
    Estimator α :=
  ⟨relative, jac.fresh, jac.stale, neighbour.toList, residuals.toList, scratch.toList⟩

def Estimator.of (c : Settings α) (jac : Jacobian α n) (k : Workspace α n) : Estimator α :=
  ⟨c.differenceStep, jac.fresh, jac.stale, k.neighbour.toList, k.residuals.toList,
    k.scratch.toList⟩

def Dogleg.of (k : Workspace α n) : Dogleg α :=
  ⟨k.newton.toList, k.gradient.toList, k.cauchy.toList, k.image.toList⟩

/-- The solver that shows a state, with these leftovers. -/
def Solver.of (c : Settings α) (s : State α n) (k : Workspace α n) : Solver α where
  settings := c
  x := s.x.toList
  f := s.f.toList
  jac := ⟨n, s.jacobian.matrix⟩
  factors := .of c.singularTolerance k.factored
  scaling := s.scaling.toList
  radius := s.radius
  step := s.step.toList
  iterations := s.iterations
  evaluations := s.evaluations
  rejections := s.rejections
  agreements := s.agreements
  slow := s.slow
  status := s.status
  stepKind := s.stepKind
  estimator := .of c s.jacobian k
  dogleg := .of k
  trialX := k.trialX.toList
  trialF := k.trialF.toList
  trialJac := ⟨n, k.trialJac⟩
  model := k.model.toList

theorem setAt_setAt (x : Vec α n) (j : Fin n) (c : α) : (x.setAt j c).setAt j (x.get j) = x := by
  refine Vec.ext_get fun i => ?_
  rw [Vec.setAt, Vec.get_ofFn, Vec.setAt, Vec.get_ofFn]
  by_cases hij : i = j
  · rw [if_pos hij, hij]
  · rw [if_neg hij, if_neg hij]

variable [Scalar α]

theorem clampRadius_eq {c : Settings α} (h : c.minRadius ≤ c.maxRadius) (radius : α) :
    clampRadius c radius = .ok (State.clampRadius c radius) :=
  if_pos h

theorem firstScaling_toList (c : Settings α) (a : Mat α n) (scaling : Vec α n) :
    (if c.scaled then (Square.columnNorms ⟨n, a⟩).map fun length => if length == 0 then 1 else length
      else scaling.toList.map fun _ => 1) = (State.firstScaling c a).toList := by
  rw [State.firstScaling]
  split
  · rw [Vector.toList_map, Square.columnNorms]
  · rw [fill_toList, Vec.ones]

theorem begin_of {c : Settings α} (h : c.minRadius ≤ c.maxRadius) (s : State α n)
    (k : Workspace α n) (jac : Jacobian α n) (calls : Nat) :
    Solver.begin { Solver.of c s k with estimator := .of c jac k, trialJac := ⟨n, jac.matrix⟩ }
        (1 + calls) =
      .ok (.of c (State.initial c k.trialX k.trialF ⟨jac, calls, none⟩)
        { k with trialX := s.x, trialF := s.f, trialJac := s.jacobian.matrix }) := by
  have hscaling := firstScaling_toList c jac.matrix s.scaling
  have hstep := fill_toList s.step (0 : α)
  unfold Solver.begin Solver.of State.initial State.firstRadius
  simp only [hscaling, hstep]
  cases hr : c.initialRadius with
  | estimated factor =>
    simp only [both_toList, clampRadius_eq h]
    rfl
  | fixed radius =>
    simp only [clampRadius_eq h]
    rfl

theorem exists_blank (n : Nat) (c : Settings α) :
    ∃ (s : State α n) (k : Workspace α n), Solver.blank n c = .of c s k := by
  have hzeros : List.replicate n (0 : α) = (Vec.zeros n).toList :=
    Vector.toList_replicate.symm
  let zeros : Vec α n := Vec.zeros n
  refine ⟨⟨zeros, zeros, .unknown n, zeros, 0, zeros, none, 0, 0, 0, 0, 0, .running⟩,
    ⟨zeros, zeros, .zeros n, zeros, zeros, zeros, zeros, zeros, zeros, zeros, zeros, none⟩, ?_⟩
  rw [Solver.blank, hzeros]
  rfl

/-- The matrices that differences were put in. Columns that agreed still do, and after a success so
do all that were listed. -/
inductive Differenced (relative : α) (jac : Jacobian α n) (x : Vec α n) (js : List (Fin n))
    (a b : Mat α n) (count : Nat) :
    Estimator α × Square α × Nat × Option EvalError → Mat α n × Nat × Option EvalError → Prop
  | columns (residuals scratch : Vec α n) (a' b' : Mat α n) (calls : Nat)
      (failure : Option EvalError)
      (hkept : ∀ j, b.column j = a.column j → b'.column j = a'.column j)
      (hset : failure = none → ∀ j ∈ js, b'.column j = a'.column j) :
      Differenced relative jac x js a b count
        (.holding relative jac x residuals scratch, ⟨n, b'⟩, count + calls, failure)
        (a', calls, failure)

variable (hsys : Writes T sys eqs)

include hsys

theorem columns_sim (relative : α) (x f : Vec α n) (js : List (Fin n)) (jac : Jacobian α n)
    (residuals scratch : Vec α n) (a b : Mat α n) (count : Nat) :
    Sim T (Differenced relative jac x js a b count)
      (Estimator.columns sys x.toList f.toList (js.map Fin.val)
        (.holding relative jac x residuals scratch) ⟨n, b⟩ count)
      (Jacobian.differenceColumns eqs relative x f js a) := by
  induction js generalizing residuals scratch a b count with
  | nil =>
    exact .pure (.columns residuals scratch a b 0 none (fun _ h => h)
      (fun _ _ h => absurd h List.not_mem_nil))
  | cons j js ih =>
    have hmoved := write_toList x j (x.get j + Jacobian.increment relative (x.get j))
    have hback := write_toList (Jacobian.neighbour relative x j) j (x.get j)
    rw [Jacobian.neighbour, setAt_setAt] at hback
    rw [List.map_cons, Estimator.columns, Jacobian.differenceColumns]
    refine .lift (read_toList x j) (.lift hmoved ?_)
    refine .bind (hsys.evaluateInto _ residuals) ?_
    rintro _ _ (g | ⟨e, left⟩)
    · refine .lift hback (.lift (both_toList _ f g) ?_)
      refine .lift (copyFrom_toList scratch _) (.lift (Square.setColumn_toList b j _) ?_)
      let slopes := Jacobian.slopes (Jacobian.increment relative (x.get j)) f g
      have hcolumns (i : Fin n) (h : i = j ∨ b.column i = a.column i) :
          (b.setColumn j slopes).column i = (a.setColumn j slopes).column i := by
        by_cases hij : i = j
        · rw [hij, Mat.column_setColumn_self, Mat.column_setColumn_self]
        · rw [Mat.column_setColumn_of_ne _ hij, Mat.column_setColumn_of_ne _ hij]
          exact h.resolve_left hij
      refine .follow (ih g slopes (a.setColumn j slopes) (b.setColumn j slopes) (count + 1)) ?_
      rintro _ _ ⟨residuals', scratch', a', b', calls, failure, hkept, hset⟩
      rw [Nat.add_assoc, Nat.add_comm 1]
      refine .pure (.columns residuals' scratch' a' b' (calls + 1) failure
        (fun i h => hkept i (hcolumns i (.inr h))) fun hok i hi => ?_)
      rcases List.mem_cons.mp hi with hi | hi
      · exact hkept i (hcolumns i (.inl hi))
      · exact hset hok i hi
    · refine .lift hback (.pure ?_)
      exact .columns left scratch a b 0 (some e) (fun _ h => h) (fun h => by cases h)

/-- The estimator and its matrix after a differencing. The flags follow it only if it succeeds. A
failure leaves equal matrices equal. -/
inductive Estimates (relative : α) (jac jac' : Jacobian α n) (x : Vec α n) (b : Mat α n)
    (count : Nat) :
    Estimator α × Square α × Nat × Option EvalError → Differencing α n → Prop
  | ok (residuals scratch : Vec α n) (a : Mat α n) (calls : Nat) :
      Estimates relative jac jac' x b count
        (.holding relative ⟨a, true, false⟩ x residuals scratch, ⟨n, a⟩, count + calls, none)
        ⟨⟨a, true, false⟩, calls, none⟩
  | error (e : EvalError) (residuals scratch : Vec α n) (a b' : Mat α n) (calls : Nat)
      (hsame : b = jac'.matrix → b' = a) :
      Estimates relative jac jac' x b count
        (.holding relative jac x residuals scratch, ⟨n, b'⟩, count + calls, some e)
        ⟨{ jac' with matrix := a }, calls, some e⟩

theorem estimates_sim (relative : α) (x f : Vec α n) (jac jac' : Jacobian α n)
    (neighbour residuals scratch : Vec α n) (b : Mat α n) (count : Nat) :
    Sim T (Estimates relative jac jac' x b count)
      (Estimator.estimate sys x.toList f.toList
        (.holding relative jac neighbour residuals scratch) ⟨n, b⟩ count)
      (jac'.difference eqs relative x f) := by
  have hindices : List.range x.toList.length = (List.finRange n).map Fin.val := by
    rw [Vector.length_toList, List.map_coe_finRange_eq_range]
  rw [Estimator.estimate, hindices]
  refine .lift (copyFrom_toList neighbour x) ?_
  refine .bind (columns_sim hsys relative x f (List.finRange n) jac residuals scratch
    jac'.matrix b count) ?_
  rintro _ _ ⟨residuals', scratch', a, b', calls, failure, hkept, hset⟩
  cases failure with
  | none =>
    -- Every column is listed, so nothing is asked of the matrix that was there before.
    have hsame : b' = a := Mat.ext_column fun j => hset rfl j (List.mem_finRange j)
    rw [hsame]
    exact .pure (.ok residuals' scratch' a calls)
  | some e =>
    refine .pure (.error e residuals' scratch' a b' calls fun hb => ?_)
    exact Mat.ext_column fun j => hkept j (by rw [hb])

/-- What became of a differencing. The flags of the estimator follow it only if it succeeds. -/
inductive Estimated (c : Settings α) (jac : Jacobian α n) (k : Workspace α n) (count : Nat) :
    Estimator α × Square α × Nat × Option EvalError → Differencing α n → Prop
  | ok (neighbour residuals scratch : Vec α n) (jac' : Jacobian α n) (calls : Nat) :
      Estimated c jac k count
        (.of c jac' { k with neighbour, residuals, scratch }, ⟨n, jac'.matrix⟩, count + calls, none)
        ⟨jac', calls, none⟩
  | error (e : EvalError) (neighbour residuals scratch : Vec α n) (b : Mat α n) (jac' : Jacobian α n)
      (calls calls' : Nat) :
      Estimated c jac k count
        (.of c jac { k with neighbour, residuals, scratch }, ⟨n, b⟩, calls', some e)
        ⟨jac', calls, some e⟩

theorem estimate_sim (c : Settings α) (x f : Vec α n) (jac jac' : Jacobian α n) (k : Workspace α n)
    (b : Mat α n) (count : Nat) :
    Sim T (Estimated c jac k count)
      (Estimator.estimate sys x.toList f.toList (.of c jac k) ⟨n, b⟩ count)
      (jac'.difference eqs c.differenceStep x f) := by
  refine (estimates_sim hsys c.differenceStep x f jac jac' k.neighbour k.residuals k.scratch b
    count).mono ?_
  rintro _ _ (⟨residuals, scratch, a, calls⟩ | ⟨e, residuals, scratch, a, b', calls, hsame⟩)
  · exact .ok x residuals scratch ⟨a, true, false⟩ calls
  · exact .error e x residuals scratch b' _ calls (count + calls)

/-- The solver after a start, also one that failed: it shows the state it had then. -/
inductive Restarted (c : Settings α) (s : State α n) :
    Solver α × Except SolveError Unit → Except SolveError (State α n) → Prop
  | ok (t : State α n) (k : Workspace α n) : Restarted c s (.of c t k, .ok ()) (.ok t)
  | error (e : SolveError) (k : Workspace α n) : Restarted c s (.of c s k, .error e) (.error e)

theorem start_sim {c : Settings α} (hc : c.minRadius ≤ c.maxRadius) (s : State α n)
    (k : Workspace α n) (point : List α) :
    Sim T (Restarted c s) (Solver.set sys (.of c s k) point) (State.start eqs c point) := by
  have hn : (Solver.of c s k).x.length = n := s.x.length_toList
  by_cases hlength : point.length = n
  · obtain ⟨x, rfl⟩ := exists_vec hlength
    rw [Solver.set, if_neg (by rw [hn]; exact not_not.mpr hlength), State.start, Vec.ofList?_toList]
    refine .lift (copyFrom_toList k.trialX x) (.bind (hsys.evaluateInto x k.trialF) ?_)
    rintro _ _ (f | ⟨e, left⟩)
    · refine .lift (alone_toList _ f) ?_
      cases hf : f.firstNonFinite? with
      | some i =>
        simp only [hf]
        exact .pure (.error _ { k with trialX := x, trialF := f })
      | none =>
        simp only [hf]
        refine .bind (estimate_sim hsys c x f s.jacobian (Jacobian.unknown n) k k.trialJac 1) ?_
        rintro _ _ (⟨neighbour, residuals, scratch, jac, calls⟩ |
          ⟨e, neighbour, residuals, scratch, b, jac, calls, calls'⟩)
        · refine .lift (begin_of hc s { k with
            trialX := x, trialF := f, neighbour, residuals, scratch } jac calls) ?_
          exact .pure (.ok _ _)
        · exact .pure (.error _ { k with
            trialX := x, trialF := f, trialJac := b, neighbour, residuals, scratch })
    · exact .pure (.error _ { k with trialX := x, trialF := left })
  · rw [Solver.set, if_pos (by rw [hn]; exact hlength), State.start,
      Vec.ofList?_eq_none_iff.mpr hlength, hn]
    exact .pure (.error _ k)

theorem restart_sim {c : Settings α} (hc : c.minRadius ≤ c.maxRadius) (s : State α n)
    (k : Workspace α n) (point : List α) :
    Sim T (fun b t => (∃ k', b.1 = .of c t.1 k') ∧ b.2 = t.2)
      (Solver.set sys (.of c s k) point) (State.restart eqs c s point) := by
  refine .follow (start_sim hsys hc s k point) ?_
  rintro _ _ (⟨t, k'⟩ | ⟨e, k'⟩)
  · exact .pure ⟨⟨k', rfl⟩, rfl⟩
  · exact .pure ⟨⟨k', rfl⟩, rfl⟩

inductive Created (c : Settings α) :
    Except SolveError (Solver α) → Except SolveError (State α n) → Prop
  | ok (s : State α n) (k : Workspace α n) (h : c.minRadius ≤ c.maxRadius) :
      Created c (.ok (.of c s k)) (.ok s)
  | error (e : SolveError) : Created c (.error e) (.error e)

theorem create_sim (c : Settings α) (point : List α) :
    Sim T (Created c) (Solver.create sys c point) (State.create eqs c point) := by
  cases hc : c.fault? with
  | some fault =>
    rw [Solver.create, State.create, hc]
    exact .pure (.error _)
  | none =>
    rw [Solver.create, State.create, hc]
    dsimp only
    rw [hsys.dimension]
    by_cases hn : n = 0
    · rw [if_pos hn, if_pos hn]
      exact .pure (.error _)
    rw [if_neg hn, if_neg hn]
    by_cases hlength : point.length = n
    · obtain ⟨s, k, hblank⟩ := exists_blank n c
      have hbounds : c.minRadius ≤ c.maxRadius := Settings.Valid.minRadius_le hc
      rw [if_neg (not_not.mpr hlength), hblank]
      refine .finish (start_sim hsys hbounds s k point) ?_
      rintro _ _ (⟨t, k'⟩ | ⟨e, k'⟩)
      · exact ⟨_, rfl, .ok t k' hbounds⟩
      · exact ⟨_, rfl, .error e⟩
    · rw [if_pos hlength, State.start, Vec.ofList?_eq_none_iff.mpr hlength]
      exact .pure (.error _)

end InPlace

end RootFinder
