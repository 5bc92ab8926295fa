import Mathlib.Data.List.FinRange
import Mathlib.Order.Fin.Basic
import RootFinder.Proofs.Correspondence
import RootFinder.Proofs.Differencing
import RootFinder.Proofs.Reachability

/-! The calls that a run makes. A system that keeps a log of its calls answers as it would without
one, and the log tells where the run asked and what it was told: a differencing asks at the
neighbours of its point, and an iteration makes no more calls than a differencing and a trial. -/

namespace RootFinder

/-- A call of a system. -/
structure Call (α : Type) (n : Nat) where
  point : Vec α n
  answer : Except EvalError (Vec α n)

variable {σ α : Type} {n : Nat}

def Equations.logged (sys : Equations (StateM σ) α n) :
    Equations (StateM (σ × List (Call α n))) α n :=
  fun x u => (((sys x).run u.1).1, (((sys x).run u.1).2, u.2 ++ [⟨x, ((sys x).run u.1).1⟩]))

/-- The second computation does the same as the first and lengthens the log. -/
def Logging {β : Type} (x : StateM σ β) (y : StateM (σ × List (Call α n)) β) : Prop :=
  ∀ w calls, ∃ more, y.run (w, calls) = ((x.run w).1, ((x.run w).2, calls ++ more))

theorem Logging.pure {β : Type} (a : β) :
    Logging (Pure.pure a : StateM σ β) (Pure.pure a : StateM (σ × List (Call α n)) β) :=
  fun w calls => ⟨[], congrArg (fun l => (a, (w, l))) calls.append_nil.symm⟩

theorem Logging.bind {β γ : Type} {x : StateM σ β} {y : StateM (σ × List (Call α n)) β}
    {f : β → StateM σ γ} {g : β → StateM (σ × List (Call α n)) γ} (h : Logging x y)
    (hf : ∀ a, Logging (f a) (g a)) : Logging (x >>= f) (y >>= g) := by
  intro w calls
  obtain ⟨first, hfirst⟩ := h w calls
  obtain ⟨second, hsecond⟩ := hf (x.run w).1 (x.run w).2 (calls ++ first)
  refine ⟨first ++ second, ?_⟩
  rw [run_bind_of_eq hfirst, hsecond, List.append_assoc]
  rfl

def Logging.correspondence (σ α : Type) (n : Nat) :
    Correspondence (StateM σ) (StateM (σ × List (Call α n))) :=
  ⟨Logging, .pure, .bind⟩

theorem Logging.run_fst {β : Type} {x : StateM σ β} {y : StateM (σ × List (Call α n)) β} {a : β}
    {u u' : σ × List (Call α n)} (h : Logging x y) (hy : y.run u = (a, u')) :
    x.run u.1 = (a, u'.1) := by
  obtain ⟨more, hmore⟩ := h u.1 u.2
  rw [hy] at hmore
  cases hmore
  rfl

theorem Equations.logged_call (sys : Equations (StateM σ) α n) (x : Vec α n) :
    Logging (sys x) (sys.logged x) :=
  fun w _ => ⟨[⟨x, ((sys x).run w).1⟩], rfl⟩

theorem Equations.logged_run {sys : Equations (StateM σ) α n} {x : Vec α n}
    {answer : Except EvalError (Vec α n)} {u u' : σ × List (Call α n)}
    (h : (sys.logged x).run u = (answer, u')) : u'.2 = u.2 ++ [⟨x, answer⟩] := by
  cases h
  rfl

/-- The log grew by calls at these points, in this order, and each of them was answered. -/
def Asks (calls calls' : List (Call α n)) (points : List (Vec α n)) : Prop :=
  ∃ more, calls' = calls ++ more ∧ more.map Call.point = points ∧
    ∀ call ∈ more, ∃ f, call.answer = .ok f

namespace Asks

theorem refl (calls : List (Call α n)) : Asks calls calls [] :=
  ⟨[], calls.append_nil.symm, rfl, nofun⟩

theorem trans {first second third : List (Call α n)} {xs ys : List (Vec α n)}
    (h : Asks first second xs) (h' : Asks second third ys) : Asks first third (xs ++ ys) := by
  obtain ⟨more, rfl, rfl, hok⟩ := h
  obtain ⟨more', rfl, rfl, hok'⟩ := h'
  refine ⟨more ++ more', List.append_assoc .., List.map_append, fun call hcall => ?_⟩
  exact (List.mem_append.mp hcall).elim (hok call) (hok' call)

theorem length {calls calls' : List (Call α n)} {points : List (Vec α n)}
    (h : Asks calls calls' points) : calls'.length = calls.length + points.length := by
  obtain ⟨more, rfl, rfl, -⟩ := h
  rw [List.length_append, List.length_map]

theorem mem {calls calls' : List (Call α n)} {points : List (Vec α n)} {call : Call α n}
    (h : Asks calls calls' points) (hcall : call ∈ calls) : call ∈ calls' := by
  obtain ⟨more, rfl, -, -⟩ := h
  exact List.mem_append_left more hcall

theorem of_call {sys : Equations (StateM σ) α n} {x f : Vec α n} {u u' : σ × List (Call α n)}
    (h : (sys.logged x).run u = (.ok f, u')) : Asks u.2 u'.2 [x] :=
  ⟨_, Equations.logged_run h, rfl, fun _ hcall => ⟨f, by rw [List.mem_singleton.mp hcall]⟩⟩

end Asks

variable [Scalar α] {sys : Equations (StateM σ) α n} {relative : α} {x f : Vec α n}
  {u u' : σ × List (Call α n)}

namespace Jacobian

/-- The points where a differencing asks. -/
def neighbours (relative : α) (x : Vec α n) : List (Vec α n) :=
  (List.finRange n).map (neighbour relative x)

@[simp]
theorem length_neighbours (relative : α) (x : Vec α n) : (neighbours relative x).length = n := by
  rw [neighbours, List.length_map, List.length_finRange]

/-- The call at a neighbour that was answered so. -/
def answeredCall (relative : α) (x : Vec α n) (g : Fin n → Vec α n) (j : Fin n) : Call α n :=
  ⟨neighbour relative x j, .ok (g j)⟩

/-- Differencing the listed columns of a matrix makes these calls and ends with this. -/
inductive Scan (relative : α) (x f : Vec α n) :
    List (Fin n) → Mat α n → List (Call α n) → Mat α n × Nat × Option EvalError → Prop
  | done (a : Mat α n) : Scan relative x f [] a [] (a, 0, none)
  | failed (j : Fin n) (js : List (Fin n)) (a : Mat α n) (e : EvalError) :
      Scan relative x f (j :: js) a [⟨neighbour relative x j, .error e⟩] (a, 0, some e)
  | next {j : Fin n} {js : List (Fin n)} {a b : Mat α n} {g : Vec α n} {more : List (Call α n)}
      {count : Nat} {failure : Option EvalError}
      (h : Scan relative x f js (a.setColumn j (slopes (increment relative (x.get j)) f g)) more
        (b, count, failure)) :
      Scan relative x f (j :: js) a (⟨neighbour relative x j, .ok g⟩ :: more)
        (b, count + 1, failure)

theorem differenceColumns_scan (sys : Equations (StateM σ) α n) (relative : α) (x f : Vec α n)
    (js : List (Fin n)) (a : Mat α n) (u : σ × List (Call α n)) :
    ∃ r v more, (differenceColumns sys.logged relative x f js a).run u = (r, (v, u.2 ++ more)) ∧
      Scan relative x f js a more r := by
  induction js generalizing a u with
  | nil => exact ⟨(a, 0, none), u.1, [], by rw [List.append_nil]; rfl, .done a⟩
  | cons j js ih =>
    obtain ⟨answer, v, hcall⟩ := exists_run (sys.logged (neighbour relative x j)) u
    have hlog := Equations.logged_run hcall
    rw [differenceColumns, run_bind_of_eq hcall]
    cases answer with
    | error e => exact ⟨(a, 0, some e), v.1, _, by rw [← hlog]; rfl, .failed j js a e⟩
    | ok g =>
      obtain ⟨⟨b, count, failure⟩, w, more, hrest, hscan⟩ :=
        ih (a.setColumn j (slopes (increment relative (x.get j)) f g)) v
      refine ⟨(b, count + 1, failure), w, _, ?_, .next hscan⟩
      change (differenceColumns sys.logged relative x f js _ >>= _).run v = _
      rw [run_bind_of_eq hrest, hlog, List.append_assoc]
      rfl

/-- What is left of the list when a scan stops, and the last call. -/
inductive Stop (relative : α) (x : Vec α n) :
    List (Fin n) → List (Call α n) → Option EvalError → Prop
  | exhausted : Stop relative x [] [] none
  | failed (j : Fin n) (after : List (Fin n)) (e : EvalError) :
      Stop relative x (j :: after) [⟨neighbour relative x j, .error e⟩] (some e)

/-- A scan sets the columns up to where it stops. -/
theorem Scan.exists_answered {js : List (Fin n)} {a b : Mat α n} {calls : List (Call α n)}
    {count : Nat} {failure : Option EvalError}
    (h : Scan relative x f js a calls (b, count, failure)) (hjs : js.Nodup) :
    ∃ g before rest last, js = before ++ rest ∧ count = before.length ∧
      calls = before.map (answeredCall relative x g) ++ last ∧ Stop relative x rest last failure ∧
      ∀ k, b.column k =
        if k ∈ before then slopes (increment relative (x.get k)) f (g k) else a.column k := by
  generalize hr : (b, count, failure) = r at h
  induction h generalizing b count failure with
  | done a =>
    cases hr
    exact ⟨fun _ => f, [], [], [], rfl, rfl, rfl, .exhausted, fun k => by simp⟩
  | failed j js a e =>
    cases hr
    exact ⟨fun _ => f, [], j :: js, _, rfl, rfl, rfl, .failed j js e, fun k => by simp⟩
  | @next j js a b g more count failure h ih =>
    cases hr
    obtain ⟨hj, hjs⟩ := List.nodup_cons.mp hjs
    obtain ⟨g', before, rest, last, rfl, rfl, rfl, hstop, hcolumns⟩ := ih hjs rfl
    -- Without duplicates, what the rest of the list sets is not the column set first.
    have hjbefore : j ∉ before := fun hmem => hj (List.mem_append_left rest hmem)
    have hother {k : Fin n} (hk : k ∈ before) : Function.update g' j g k = g' k :=
      Function.update_of_ne (fun hkj : k = j => hjbefore (hkj ▸ hk)) g g'
    refine ⟨Function.update g' j g, j :: before, rest, last, rfl, rfl, ?_, hstop, fun k => ?_⟩
    · have hmap : before.map (answeredCall relative x (Function.update g' j g)) =
          before.map (answeredCall relative x g') :=
        List.map_congr_left fun k hk => by rw [answeredCall, answeredCall, hother hk]
      rw [List.map_cons, hmap, answeredCall, Function.update_self]
      rfl
    · rw [hcolumns k]
      by_cases hk : k ∈ before
      · rw [if_pos hk, if_pos (List.mem_cons_of_mem j hk), hother hk]
      · rw [if_neg hk]
        by_cases hkj : k = j
        · subst hkj
          rw [if_pos List.mem_cons_self, Mat.column_setColumn_self, Function.update_self]
        · rw [if_neg (by simp [hkj, hk]), Mat.column_setColumn_of_ne _ hkj]

/-- The calls of a differencing and what becomes of the Jacobian. -/
inductive Course (relative : α) (x f : Vec α n) (jac : Jacobian α n) :
    List (Call α n) → Differencing α n → Prop
  | completed (g : Fin n → Vec α n) (a : Mat α n)
      (hset : ∀ k, a.column k = slopes (increment relative (x.get k)) f (g k)) :
      Course relative x f jac (List.ofFn (answeredCall relative x g)) ⟨⟨a, true, false⟩, n, none⟩
  | failed (g : Fin n → Vec α n) (j : Fin n) (e : EvalError) (a : Mat α n)
      (hset : ∀ k < j, a.column k = slopes (increment relative (x.get k)) f (g k))
      (hkept : ∀ k, j ≤ k → a.column k = jac.matrix.column k) :
      Course relative x f jac
        ((List.ofFn (answeredCall relative x g)).take j ++ [⟨neighbour relative x j, .error e⟩])
        ⟨{ jac with matrix := a }, j, some e⟩

theorem finRange_eq_append {before after : List (Fin n)} {j : Fin n}
    (h : List.finRange n = before ++ j :: after) :
    before.length = j ∧ ∀ k, k ∈ before ↔ k < j := by
  have hlength : before.length = j := by
    have hget : (List.finRange n)[before.length]? = some j := by simp [h]
    obtain ⟨hlt, hget⟩ := List.getElem?_eq_some_iff.mp hget
    rw [← hget, List.getElem_finRange]
    rfl
  have hsorted := List.pairwise_lt_finRange n
  rw [h, List.pairwise_append, List.pairwise_cons] at hsorted
  obtain ⟨-, ⟨hafter, -⟩, hbefore⟩ := hsorted
  refine ⟨hlength, fun k => ⟨fun hk => hbefore k hk j List.mem_cons_self, fun hk => ?_⟩⟩
  have hmem : k ∈ before ++ j :: after := h ▸ List.mem_finRange k
  rcases List.mem_append.mp hmem with hmem | hmem
  · exact hmem
  · rcases List.mem_cons.mp hmem with rfl | hmem
    · exact absurd hk (lt_irrefl k)
    · exact absurd hk (lt_asymm (hafter k hmem))

theorem difference_course (sys : Equations (StateM σ) α n) (relative : α) (x f : Vec α n)
    (jac : Jacobian α n) (u : σ × List (Call α n)) :
    ∃ d v more, (jac.difference sys.logged relative x f).run u = (d, (v, u.2 ++ more)) ∧
      Course relative x f jac more d := by
  obtain ⟨⟨a, count, failure⟩, v, more, hrun, hscan⟩ :=
    differenceColumns_scan sys relative x f (List.finRange n) jac.matrix u
  obtain ⟨g, before, rest, last, hall, rfl, rfl, hstop, hcolumns⟩ :=
    hscan.exists_answered (List.nodup_finRange n)
  rw [difference, run_bind_of_eq hrun]
  cases hstop with
  | exhausted =>
    rw [List.append_nil] at hall
    subst hall
    refine ⟨_, v, _, rfl, ?_⟩
    rw [List.append_nil, List.length_finRange, ← List.ofFn_eq_map]
    exact .completed g a fun k => by rw [hcolumns k, if_pos (List.mem_finRange k)]
  | failed j after e =>
    obtain ⟨hlength, hmem⟩ := finRange_eq_append hall
    have htake : before.map (answeredCall relative x g) =
        (List.ofFn (answeredCall relative x g)).take j := by
      rw [List.ofFn_eq_map, hall, ← hlength, ← List.map_take, List.take_left]
    refine ⟨_, v, _, rfl, ?_⟩
    rw [hlength, htake]
    refine .failed g j e a (fun k hk => ?_) fun k hk => ?_
    · rw [hcolumns k, if_pos ((hmem k).mpr hk)]
    · rw [hcolumns k, if_neg fun hkb => not_lt.mpr hk ((hmem k).mp hkb)]

theorem asks_answered (calls : List (Call α n)) (g : Fin n → Vec α n) (js : List (Fin n)) :
    Asks calls (calls ++ js.map (answeredCall relative x g)) (js.map (neighbour relative x)) := by
  refine ⟨_, rfl, List.map_map, fun call hcall => ?_⟩
  obtain ⟨j, -, rfl⟩ := List.mem_map.mp hcall
  exact ⟨g j, rfl⟩

theorem difference_calls {jac : Jacobian α n} {d : Differencing α n}
    (h : (jac.difference sys.logged relative x f).run u = (d, u')) :
    u'.2.length ≤ u.2.length + n ∧
      (d.failure = none → d.evaluations = n ∧ Asks u.2 u'.2 (neighbours relative x)) := by
  obtain ⟨d', v, more, hrun, hcourse⟩ := difference_course sys relative x f jac u
  cases hrun.symm.trans h
  cases hcourse with
  | completed g a hset =>
    rw [List.ofFn_eq_map]
    exact ⟨by simp, fun _ => ⟨rfl, asks_answered u.2 g (List.finRange n)⟩⟩
  | failed g j e a hset hkept =>
    refine ⟨?_, fun hnone => by cases hnone⟩
    simp only [List.length_append, List.length_take, List.length_ofFn, List.length_singleton]
    omega

end Jacobian

/-- How often an iteration may difference the Jacobian anew: only if it carries updates. -/
def Jacobian.allowance (jac : Jacobian α n) : Nat :=
  if jac.fresh then 0 else 1

omit [Scalar α] in
theorem Jacobian.allowance_of_fresh {jac : Jacobian α n} (h : jac.fresh = true) :
    jac.allowance = 0 :=
  if_pos h

omit [Scalar α] in
theorem Jacobian.allowance_of_updated {jac : Jacobian α n} (h : jac.fresh = false) :
    jac.allowance = 1 := by
  rw [allowance, h]
  rfl

namespace State

variable {c : Settings α} {s r : State α n}

theorem start_asks {point : List α} (h : (start sys.logged c point).run u = (.ok s, u')) :
    s.evaluations = 1 + n ∧
      Asks u.2 u'.2 (s.x :: Jacobian.neighbours c.differenceStep s.x) := by
  obtain ⟨x, f, d, v, -, hcall, -, hd, hf, rfl⟩ := start_eq_ok h
  obtain ⟨hevaluations, hasks⟩ := (Jacobian.difference_calls hd).2 hf
  exact ⟨congrArg (1 + ·) hevaluations, (Asks.of_call hcall).trans hasks⟩

theorem refresh_calls_le {answer : Except EvalError (State α n)}
    (h : (s.refresh sys.logged c).run u = (answer, u')) : u'.2.length ≤ u.2.length + n := by
  obtain ⟨d, v, hd⟩ := exists_run (s.jacobian.difference sys.logged c.differenceStep s.x s.f) u
  have hle := (Jacobian.difference_calls hd).1
  rw [refresh, run_bind_of_eq hd] at h
  cases hf : d.failure with
  | some e =>
    simp only [hf] at h
    cases h
    exact hle
  | none =>
    simp only [hf] at h
    cases h
    exact hle

theorem refresh_asks (h : (s.refresh sys.logged c).run u = (.ok r, u')) :
    r.evaluations = s.evaluations + n ∧
      Asks u.2 u'.2 (Jacobian.neighbours c.differenceStep s.x) := by
  obtain ⟨d, hd, hf, rfl⟩ := refresh_eq_ok h
  obtain ⟨hevaluations, hasks⟩ := (Jacobian.difference_calls hd).2 hf
  exact ⟨congrArg (s.evaluations + ·) hevaluations, hasks⟩

variable (sys c) in
theorem create_logged (point : List α) :
    Logging (create sys c point) (create sys.logged c point) :=
  (Logging.correspondence σ α n).holds_create sys.logged_call c point

variable (sys c s) in
theorem restart_logged (point : List α) :
    Logging (s.restart sys c point) (s.restart sys.logged c point) :=
  (Logging.correspondence σ α n).holds_restart sys.logged_call c s point

theorem tryStep_calls_le {p : Preparation α n} {step : Step α n} {a : Attempt α n}
    (h : (tryStep sys.logged c p step).run u = (a, u')) :
    u'.2.length ≤ u.2.length + (1 + n * p.state.jacobian.allowance) := by
  have hcall {answer : Except EvalError (Vec α n)} {v : σ × List (Call α n)}
      (h : (sys.logged (p.state.x.addScaled 1 step.move)).run u = (answer, v)) :
      v.2.length = u.2.length + 1 := by
    rw [Equations.logged_run h, List.length_append, List.length_singleton]
  cases tryStep_tries h with
  | failed hs =>
    have hone := hcall hs
    omega
  | judged hs =>
    have hone := hcall hs
    omega
  | unrefreshed hs hr hf =>
    have hone := hcall hs
    have hmore := refresh_calls_le hf
    rw [Jacobian.allowance_of_updated (updated_of_refreshed hr)]
    omega
  | refreshed hs hr hf =>
    have hone := hcall hs
    have hmore := refresh_calls_le hf
    rw [Jacobian.allowance_of_updated (updated_of_refreshed hr)]
    omega

variable [SingularValues α]

theorem updated_of_mustRecompute (h : s.mustRecompute c = true) : s.jacobian.fresh = false := by
  rw [mustRecompute, Bool.and_eq_true, Bool.not_eq_true'] at h
  exact h.1

theorem prepare_calls_le_of_error {e : EvalError}
    (h : (s.prepare sys.logged c).run u = (.error e, u')) :
    u'.2.length ≤ u.2.length + n * s.jacobian.allowance := by
  cases prepare_prepares h with
  | failed hm hr =>
    rw [Jacobian.allowance_of_updated (updated_of_mustRecompute hm), Nat.mul_one]
    exact refresh_calls_le hr

/-- What the preparation uses up is not left to the trial. -/
theorem prepare_calls_le {p : Preparation α n}
    (h : (s.prepare sys.logged c).run u = (.ok p, u')) :
    u'.2.length + n * p.state.jacobian.allowance ≤ u.2.length + n * s.jacobian.allowance := by
  cases prepare_prepares h with
  | asIs => exact Nat.le_refl _
  | @anew r _ hm hr =>
    change u'.2.length + n * r.jacobian.allowance ≤ _
    rw [Jacobian.allowance_of_updated (updated_of_mustRecompute hm),
      Jacobian.allowance_of_fresh (refresh_fresh hr), Nat.mul_zero, Nat.mul_one]
    exact refresh_calls_le hr

/-- The calls of an iteration, whatever comes of it, are those of a trial and a refresh at most. -/
theorem iterate_calls_le {a : Attempt α n} (h : (s.iterate sys.logged c).run u = (a, u')) :
    u'.2.length ≤ u.2.length + (1 + n * s.jacobian.allowance) := by
  cases iterate_iterates h with
  | ended => exact Nat.le_add_right _ _
  | exhausted => exact Nat.le_add_right _ _
  | atRoot => exact Nat.le_add_right _ _
  | unprepared _ hp =>
    have hle := prepare_calls_le_of_error hp
    omega
  | undetermined _ hp =>
    have hle := prepare_calls_le hp
    omega
  | singular _ hp =>
    have hle := prepare_calls_le hp
    omega
  | tried _ hp _ _ ht =>
    have hle := prepare_calls_le hp
    have hmore := tryStep_calls_le ht
    omega

variable (sys c s) in
theorem iterate_logged : Logging (s.iterate sys c) (s.iterate sys.logged c) :=
  (Logging.correspondence σ α n).holds_iterate sys.logged_call c s

end State

end RootFinder
