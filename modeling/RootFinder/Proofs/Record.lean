import RootFinder.Proofs.Correspondence
import RootFinder.Proofs.SearchCourse

/-! Runs beside a state that no call of the system touches: an observer may keep its own state
there, or a record of what it is shown. Such a run goes exactly as the run without it. -/

namespace RootFinder

variable {σ ρ : Type}

/-- The second computation does the same as the first and leaves the other state alone. -/
def Beside {β : Type} (x : StateM σ β) (y : StateM (σ × ρ) β) : Prop :=
  ∀ w r, y.run (w, r) = ((x.run w).1, ((x.run w).2, r))

theorem Beside.pure {β : Type} (a : β) :
    Beside (Pure.pure a : StateM σ β) (Pure.pure a : StateM (σ × ρ) β) :=
  fun _ _ => rfl

theorem Beside.bind {β γ : Type} {x : StateM σ β} {y : StateM (σ × ρ) β} {f : β → StateM σ γ}
    {g : β → StateM (σ × ρ) γ} (h : Beside x y) (hf : ∀ a, Beside (f a) (g a)) :
    Beside (x >>= f) (y >>= g) := by
  intro w r
  rw [run_bind_of_eq (h w r), hf]
  rfl

def Beside.correspondence (σ ρ : Type) : Correspondence (StateM σ) (StateM (σ × ρ)) :=
  ⟨Beside, .pure, .bind⟩

theorem Beside.run {β : Type} {x : StateM σ β} {y : StateM (σ × ρ) β} {a : β} {w w' : σ} {r : ρ}
    (h : Beside x y) (hx : x.run w = (a, w')) : y.run (w, r) = (a, (w', r)) := by
  rw [h, hx]

theorem Beside.run_fst {β : Type} {x : StateM σ β} {y : StateM (σ × ρ) β} {a : β}
    {state state' : σ × ρ} (h : Beside x y) (hy : y.run state = (a, state')) :
    x.run state.1 = (a, state'.1) := by
  have hb := h state.1 state.2
  rw [hy] at hb
  cases hb
  rfl

variable {α : Type} {n : Nat}

def Equations.beside (ρ : Type) (sys : Equations (StateM σ) α n) :
    Equations (StateM (σ × ρ)) α n :=
  fun x state => (((sys x).run state.1).1, (((sys x).run state.1).2, state.2))

variable (ρ) (sys : Equations (StateM σ) α n)

theorem Equations.beside_call (x : Vec α n) : Beside (sys x) (sys.beside ρ x) :=
  fun _ _ => rfl

variable [Scalar α]

namespace State

theorem create_beside (c : Settings α) (point : List α) :
    Beside (create sys c point) (create (sys.beside ρ) c point) :=
  (Beside.correspondence σ ρ).holds_create (sys.beside_call ρ) c point

theorem iterate_beside [SingularValues α] (c : Settings α) (s : State α n) :
    Beside (s.iterate sys c) (s.iterate (sys.beside ρ) c) :=
  (Beside.correspondence σ ρ).holds_iterate (sys.beside_call ρ) c s

end State

def recording (observe : Snapshot α n → StateM σ Control) (shot : Snapshot α n) :
    StateM (σ × List (Snapshot α n)) Control :=
  fun state => (((observe shot).run state.1).1, (((observe shot).run state.1).2, state.2 ++ [shot]))

omit [Scalar α] in
theorem recording_run {observe : Snapshot α n → StateM σ Control} {shot : Snapshot α n}
    {control : Control} {w w' : σ} (h : (observe shot).run w = (control, w'))
    (r : List (Snapshot α n)) :
    (recording observe shot).run (w, r) = (control, (w', r ++ [shot])) := by
  change (((observe shot).run w).1, (((observe shot).run w).2, r ++ [shot])) = _
  rw [h]

variable [SingularValues α] {sys : Equations (StateM σ) α n}
  {observe : Snapshot α n → StateM σ Control} {c : Settings α} {w w' : σ}
  {shots : List (Snapshot α n)} {o : Outcome α n}

theorem SearchesFrom.recorded {k : Nat} {s : State α n}
    (h : SearchesFrom sys observe c k s w shots o w') (r : List (Snapshot α n)) :
    (searchFrom (sys.beside _) (recording observe) c k s).run (w, r) =
      (o, (w', r ++ shots)) := by
  induction h generalizing r with
  | passed h =>
    rw [searchFrom_passed _ _ _ h, List.append_nil]
    rfl
  | exhausted h =>
    rw [searchFrom, if_neg h, List.append_nil]
    rfl
  | brokenDown h ha hb =>
    rw [searchFrom_succ _ _ _ h, run_bind_of_eq ((State.iterate_beside _ _ _ _).run ha)]
    simp only [hb, List.append_nil]
    rfl
  | cancelled h ha hr ho =>
    rw [searchFrom_succ _ _ _ h, run_bind_of_eq ((State.iterate_beside _ _ _ _).run ha)]
    simp only [hr]
    rw [run_bind_of_eq (recording_run ho r)]
    rfl
  | concluded h ha hr ho hs =>
    rw [searchFrom_succ _ _ _ h, run_bind_of_eq ((State.iterate_beside _ _ _ _).run ha)]
    simp only [hr]
    rw [run_bind_of_eq (recording_run ho r)]
    simp only [hs]
    rfl
  | stepped h ha hr ho hs ht =>
    rw [searchFrom_succ _ _ _ h, run_bind_of_eq ((State.iterate_beside _ _ _ _).run ha)]
    simp only [hr]
    rw [run_bind_of_eq (recording_run ho r)]
    simp only [hs, ht, if_true]
    rfl
  | @next _ _ _ _ _ _ a report _ _ h ha hr ho hs ht _ ih =>
    rw [searchFrom_succ _ _ _ h, run_bind_of_eq ((State.iterate_beside _ _ _ _).run ha)]
    simp only [hr]
    rw [run_bind_of_eq (recording_run ho r)]
    simp only [hs, ht]
    have hi := ih (r ++ [⟨a.state, some report⟩])
    rw [List.append_assoc] at hi
    exact hi

theorem Searches.recorded {point : List α} (h : Searches sys observe c point w shots o w') :
    (search (sys.beside _) (recording observe) c point).run (w, []) = (o, (w', shots)) := by
  cases h with
  | refused h =>
    rw [search, run_bind_of_eq ((State.create_beside _ _ _ _).run h)]
    rfl
  | cancelled h ho =>
    rw [search, run_bind_of_eq ((State.create_beside _ _ _ _).run h)]
    exact run_bind_of_eq (recording_run ho [])
  | started h ho rest =>
    rw [search, run_bind_of_eq ((State.create_beside _ _ _ _).run h)]
    change (recording observe _ >>= _).run _ = _
    rw [run_bind_of_eq (recording_run ho [])]
    exact rest.recorded _

/-- The record beside a search holds reachable states, and the outcome tells of one. -/
theorem search_recorded {point : List α} (h : (search sys observe c point).run w = (o, w')) :
    ∃ shots,
      (search (sys.beside _) (recording observe) c point).run (w, []) =
        (o, (w', shots)) ∧
      (∀ shot ∈ shots, shot.state.Reachable sys c) ∧
      ((∃ e, o = .error ⟨e, point, none, 0, 0, none⟩) ∨
        ∃ t, State.Reachable sys c t ∧ t.Yields o) := by
  obtain ⟨shots, hs⟩ := search_searches h
  exact ⟨shots, hs.recorded, hs.reachable⟩

end RootFinder
