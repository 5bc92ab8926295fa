import RootFinder.Proofs.Atomicity
import RootFinder.Proofs.Calls
import RootFinder.Proofs.Consistency
import RootFinder.Proofs.PlainLoop

/-! What a failed search reports of its work. A run counts the calls that were answered, and its
residuals are those of its point. But the calls of a differencing that was given up halfway are not
counted, and a start that came to nothing reports neither its calls nor its residuals. In all other
failures the report is complete. -/

namespace RootFinder

variable {σ τ α : Type} {n : Nat}

def answered (calls : List (Call α n)) : Nat :=
  calls.countP fun call => call.answer.isOk

theorem answered_append (calls more : List (Call α n)) :
    answered (calls ++ more) = answered calls + answered more :=
  List.countP_append

theorem Asks.answered {calls calls' : List (Call α n)} {points : List (Vec α n)}
    (h : Asks calls calls' points) : answered calls' = answered calls + points.length := by
  obtain ⟨more, rfl, rfl, hok⟩ := h
  have hall : RootFinder.answered more = more.length := by
    apply List.countP_eq_length.mpr
    intro call hcall
    obtain ⟨f, hf⟩ := hok call hcall
    rw [hf]
    rfl
  rw [answered_append, hall, List.length_map]

/-- The log grew by answered calls at these points, and by one at `x` that failed. -/
def Fails (calls calls' : List (Call α n)) (points : List (Vec α n)) (x : Vec α n) : Prop :=
  ∃ between e, Asks calls between points ∧ calls' = between ++ [⟨x, .error e⟩]

namespace Fails

variable {calls between calls' : List (Call α n)} {points more : List (Vec α n)} {x : Vec α n}

theorem answered (h : Fails calls calls' points x) :
    answered calls' = RootFinder.answered calls + points.length := by
  obtain ⟨between, e, hasks, rfl⟩ := h
  rw [answered_append, hasks.answered]
  rfl

theorem after (h : Asks calls between points) (h' : Fails between calls' more x) :
    Fails calls calls' (points ++ more) x := by
  obtain ⟨between', e, hasks, hcalls⟩ := h'
  exact ⟨between', e, h.trans hasks, hcalls⟩

theorem of_call {sys : Equations (StateM σ) α n} {e : EvalError} {u u' : σ × List (Call α n)}
    (h : (sys.logged x).run u = (.error e, u')) : Fails u.2 u'.2 [] x :=
  ⟨u.2, e, .refl _, Equations.logged_run h⟩

end Fails

/-- The log grew by answered calls at these points, and at most by one more that failed. -/
def Stops (calls calls' : List (Call α n)) (points : List (Vec α n)) : Prop :=
  Asks calls calls' points ∨ ∃ x, Fails calls calls' points x

theorem Stops.answered {calls calls' : List (Call α n)} {points : List (Vec α n)}
    (h : Stops calls calls' points) :
    answered calls' = RootFinder.answered calls + points.length := by
  rcases h with h | ⟨x, h⟩
  · exact h.answered
  · exact h.answered

variable [Scalar α] {sys : Equations (StateM σ) α n} {relative : α} {x f : Vec α n}
  {u u' : σ × List (Call α n)}

namespace Jacobian

/-- A differencing that fails has asked at the neighbours in order, up to the one that failed. -/
theorem difference_fails {jac : Jacobian α n} {d : Differencing α n} {e : EvalError}
    (h : (jac.difference sys.logged relative x f).run u = (d, u')) (he : d.failure = some e) :
    ∃ j : Fin n, Fails u.2 u'.2 ((neighbours relative x).take j) (neighbour relative x j) := by
  obtain ⟨d', v, more, hrun, hcourse⟩ := difference_course sys relative x f jac u
  cases hrun.symm.trans h
  cases hcourse with
  | completed => cases he
  | failed g j e' a hset hkept =>
    rw [List.ofFn_eq_map, ← List.map_take, ← List.append_assoc]
    refine ⟨j, _, e', ?_, rfl⟩
    rw [neighbours, ← List.map_take]
    exact asks_answered u.2 g ((List.finRange n).take j)

end Jacobian

namespace State

variable {c : Settings α} {s t : State α n} {p : Preparation α n} {step : Step α n}
  {a : Attempt α n}

theorem refresh_fails {e : EvalError} (h : (s.refresh sys.logged c).run u = (.error e, u')) :
    ∃ j : Fin n, Fails u.2 u'.2 ((Jacobian.neighbours c.differenceStep s.x).take j)
      (Jacobian.neighbour c.differenceStep s.x j) := by
  obtain ⟨d, v, hd⟩ := exists_run (s.jacobian.difference sys.logged c.differenceStep s.x s.f) u
  rw [refresh, run_bind_of_eq hd] at h
  cases hf : d.failure with
  | none =>
    simp only [hf] at h
    cases h
  | some e' =>
    simp only [hf] at h
    cases h
    exact Jacobian.difference_fails hd hf

/-- A start that fails has asked at the point and its neighbours in order, if at all. -/
theorem start_fails {point : List α} {e : SolveError}
    (h : (start sys.logged c point).run u = (.error e, u')) :
    u'.2 = u.2 ∨ ∃ (x : Vec α n) (points : List (Vec α n)), point = x.toList ∧
      points <+: x :: Jacobian.neighbours c.differenceStep x ∧ Stops u.2 u'.2 points := by
  unfold start at h
  cases hx : Vec.ofList? n point with
  | none =>
    simp only [hx] at h
    cases h
    exact .inl rfl
  | some x =>
    simp only [hx] at h
    obtain ⟨answer, v, hcall⟩ := exists_run (sys.logged x) u
    rw [run_bind_of_eq hcall] at h
    have hpoint := Vec.eq_toList_of_ofList? hx
    cases answer with
    | error e =>
      cases h
      exact .inr ⟨x, [], hpoint, List.nil_prefix, .inr ⟨x, .of_call hcall⟩⟩
    | ok f =>
      have hasked := Asks.of_call hcall
      cases hn : f.firstNonFinite? with
      | some i =>
        simp only [hn] at h
        cases h
        exact .inr ⟨x, [x], hpoint, List.prefix_append [x] _, .inl hasked⟩
      | none =>
        simp only [hn] at h
        obtain ⟨d, v', hd⟩ :=
          exists_run ((Jacobian.unknown n).difference sys.logged c.differenceStep x f) v
        rw [run_bind_of_eq hd] at h
        cases hfail : d.failure with
        | none =>
          simp only [hfail] at h
          cases h
        | some e =>
          simp only [hfail] at h
          cases h
          obtain ⟨j, hj⟩ := Jacobian.difference_fails hd hfail
          have hprefix := List.take_prefix j.val (Jacobian.neighbours c.differenceStep x)
          exact .inr ⟨x, _, hpoint, (List.prefix_append_right_inj [x]).mpr hprefix,
            .inr ⟨_, .after hasked hj⟩⟩

/-- All calls of the run were answered, and it has counted them. -/
def Counted (s : State α n) (calls : List (Call α n)) : Prop :=
  ∃ points, Asks [] calls points ∧ s.evaluations = points.length

theorem start_counted {point : List α} {w : σ}
    (h : (start sys.logged c point).run (w, []) = (.ok s, u')) : s.Counted u'.2 := by
  obtain ⟨hevaluations, hasks⟩ := start_asks h
  refine ⟨_, hasks, ?_⟩
  rw [hevaluations, List.length_cons, Jacobian.length_neighbours, Nat.add_comm]

namespace Counted

omit [Scalar α] in
theorem congr {calls : List (Call α n)} (hs : s.Counted calls)
    (h : t.evaluations = s.evaluations) : t.Counted calls := by
  obtain ⟨points, hasks, hcount⟩ := hs
  exact ⟨points, hasks, h.trans hcount⟩

theorem refresh (hs : s.Counted u.2) (h : (s.refresh sys.logged c).run u = (.ok t, u')) :
    t.Counted u'.2 := by
  obtain ⟨points, hasks, hcount⟩ := hs
  obtain ⟨hevaluations, hmore⟩ := refresh_asks h
  refine ⟨_, hasks.trans hmore, ?_⟩
  rw [hevaluations, hcount, List.length_append, Jacobian.length_neighbours]

theorem tested {value : Vec α n} (hp : p.state.Counted u.2)
    (h : (sys.logged (p.state.x.addScaled 1 step.move)).run u = (.ok value, u')) :
    (p.tested step).Counted u'.2 := by
  obtain ⟨points, hasks, hcount⟩ := hp
  refine ⟨_, hasks.trans (.of_call h), ?_⟩
  rw [List.length_append, List.length_singleton, ← hcount]
  rfl

end Counted

/-- The run has counted the answered calls, but for those at the `lost` points: of a differencing
that its last call failed to complete. -/
inductive Accounted (relative : α) (s : State α n) (calls : List (Call α n)) :
    List (Vec α n) → Prop
  | stopped {points : List (Vec α n)} (h : Stops [] calls points)
      (hcount : s.evaluations = points.length) : Accounted relative s calls []
  | abandoned {between : List (Call α n)} (j : Fin n) (hbefore : s.Counted between)
      (hfails : Fails between calls ((Jacobian.neighbours relative s.x).take j)
        (Jacobian.neighbour relative s.x j)) :
      Accounted relative s calls ((Jacobian.neighbours relative s.x).take j)

theorem Accounted.answered {lost : List (Vec α n)} {calls : List (Call α n)}
    (h : s.Accounted relative calls lost) : answered calls = s.evaluations + lost.length := by
  cases h with
  | stopped hstops hcount =>
    rw [hstops.answered, hcount]
    exact Nat.zero_add _
  | abandoned j hbefore hfails =>
    obtain ⟨points, hasks, hcount⟩ := hbefore
    rw [hfails.answered, hasks.answered, hcount]
    exact congrArg (· + _) (Nat.zero_add _)

namespace Counted

theorem accounted {calls : List (Call α n)} (hs : s.Counted calls) :
    s.Accounted relative calls [] := by
  obtain ⟨points, hasks, hcount⟩ := hs
  exact .stopped (.inl hasks) hcount

theorem accounted_of_call {e : EvalError} (hs : s.Counted u.2)
    (h : (sys.logged x).run u = (.error e, u')) : s.Accounted relative u'.2 [] := by
  obtain ⟨points, hasks, hcount⟩ := hs
  have hfails := Fails.after hasks (.of_call h)
  rw [List.append_nil] at hfails
  exact .stopped (.inr ⟨x, hfails⟩) hcount

theorem accounted_of_refresh {e : EvalError} (hs : s.Counted u.2)
    (h : (s.refresh sys.logged c).run u = (.error e, u')) :
    ∃ lost, s.Accounted c.differenceStep u'.2 lost := by
  obtain ⟨j, hj⟩ := refresh_fails h
  exact ⟨_, .abandoned j hs hj⟩

end Counted

end State

/-- An attempt that came to an end has counted all calls, and one that broke down all but those
that are lost. -/
def Attempt.Books (relative : α) (a : Attempt α n) (calls : List (Call α n)) : Prop :=
  match a.result with
  | .ok _ => a.state.Counted calls
  | .error _ => ∃ lost, a.state.Accounted relative calls lost

namespace State

variable {c : Settings α} {s : State α n} {p : Preparation α n} {step : Step α n}
  {a : Attempt α n}

theorem Counted.tryStep (hp : p.state.Counted u.2)
    (h : (tryStep sys.logged c p step).run u = (a, u')) : a.Books c.differenceStep u'.2 := by
  cases tryStep_tries h with
  | failed hcall =>
    have hproposed : (p.state.propose step).Counted u.2 := hp.congr rfl
    exact ⟨[], hproposed.accounted_of_call hcall⟩
  | judged hcall => exact (hp.tested hcall).congr (commit_evaluations ..)
  | unrefreshed hcall _ hfail => exact (hp.tested hcall).accounted_of_refresh hfail
  | refreshed hcall _ hrefresh =>
    exact ((hp.tested hcall).refresh hrefresh).congr (commit_evaluations ..)

variable [SingularValues α]

theorem Counted.prepare (hs : s.Counted u.2)
    (h : (s.prepare sys.logged c).run u = (.ok p, u')) : p.state.Counted u'.2 := by
  cases prepare_prepares h with
  | asIs => exact hs
  | anew _ hr => exact hs.refresh hr

theorem Counted.iterate (hs : s.Counted u.2)
    (h : (s.iterate sys.logged c).run u = (a, u')) : a.Books c.differenceStep u'.2 := by
  cases iterate_iterates h with
  | ended => exact hs
  | exhausted => exact hs.congr rfl
  | atRoot => exact hs.congr rfl
  | unprepared _ hp =>
    cases prepare_prepares hp with
    | failed _ hr => exact hs.accounted_of_refresh hr
  | undetermined _ hp => exact ⟨[], (hs.prepare hp).accounted⟩
  | singular _ hp => exact (hs.prepare hp).congr rfl
  | tried _ hp _ _ ht => exact (hs.prepare hp).tryStep ht

end State

variable [SingularValues α] {c : Settings α} {observe : Snapshot α n → StateM τ Control}

theorem State.Counted.shown {s : State α n} {a : Attempt α n} {report : Report α n}
    {shot : Snapshot α n} {control : Control} {v v' v'' : (σ × List (Call α n)) × τ}
    (hs : s.Counted v.1.2) (ha : (s.iterate (sys.logged.beside τ) c).run v = (a, v'))
    (hr : a.result = .ok report) (ho : (watching observe shot).run v' = (control, v'')) :
    a.state.Counted v''.1.2 := by
  have hbooks := hs.iterate ((State.iterate_beside _ _ _ _).run_fst ha)
  rw [Attempt.Books, hr] at hbooks
  rw [watching_run ho]
  exact hbooks

theorem SearchesFrom.accounted {k : Nat} {s : State α n} {v v' : (σ × List (Call α n)) × τ}
    {shots : List (Snapshot α n)} {o : Outcome α n}
    (h : SearchesFrom (sys.logged.beside τ) (watching observe) c k s v shots o v')
    (hs : s.Counted v.1.2) :
    ∃ t lost, State.Yields t o ∧ State.Accounted c.differenceStep t v'.1.2 lost := by
  induction h with
  | passed => exact ⟨_, [], .root _, hs.accounted⟩
  | exhausted => exact ⟨_, [], .failure _, hs.accounted⟩
  | brokenDown _ ha hb =>
    have hbooks := hs.iterate ((State.iterate_beside _ _ _ _).run_fst ha)
    rw [Attempt.Books, hb] at hbooks
    obtain ⟨lost, hlost⟩ := hbooks
    exact ⟨_, lost, .brokenDown _, hlost⟩
  | cancelled _ ha hr ho => exact ⟨_, [], .failure _, (hs.shown ha hr ho).accounted⟩
  | concluded _ ha hr ho hend =>
    exact ⟨_, [], State.yields_of_conclusion? hend, (hs.shown ha hr ho).accounted⟩
  | stepped _ ha hr ho => exact ⟨_, [], .root _, (hs.shown ha hr ho).accounted⟩
  | next _ ha hr ho _ _ _ ih => exact ih (hs.shown ha hr ho)

/-- How a search failed, with the points of the answered calls that its failure leaves out: all of
a start that came to nothing, and those of a differencing that was given up. -/
inductive SearchFailure.Leaves (relative : α) (failure : SearchFailure α n)
    (calls : List (Call α n)) : List (Vec α n) → Prop
  | refused (hf : failure.f = none) (hcount : failure.evaluations = 0) (hcalls : calls = []) :
      Leaves relative failure calls []
  | unstarted {x : Vec α n} {lost : List (Vec α n)} (hf : failure.f = none)
      (hcount : failure.evaluations = 0) (hx : failure.x = x.toList)
      (hlost : lost <+: x :: Jacobian.neighbours relative x) (hstops : Stops [] calls lost) :
      Leaves relative failure calls lost
  | started {s : State α n} {lost : List (Vec α n)} (hyields : s.Yields (.error failure))
      (hlost : s.Accounted relative calls lost) : Leaves relative failure calls lost

omit [SingularValues α] in
theorem SearchFailure.Leaves.answered {failure : SearchFailure α n} {calls : List (Call α n)}
    {lost : List (Vec α n)} (h : failure.Leaves relative calls lost) :
    answered calls = failure.evaluations + lost.length := by
  cases h with
  | refused hf hcount hcalls =>
    rw [hcount, hcalls]
    rfl
  | unstarted hf hcount hx hlost hstops =>
    rw [hcount, hstops.answered]
    rfl
  | started hyields hlost =>
    rw [hlost.answered]
    cases hyields with
    | failure => rfl
    | brokenDown => rfl

/-- The failure counts the calls that were answered, and has the residuals of its point if one of
these calls was there. -/
structure SearchFailure.Tells (F : Vec α n → Vec α n) (failure : SearchFailure α n)
    (calls : List (Call α n)) : Prop where
  counts : failure.evaluations = answered calls
  residuals : ∀ call ∈ calls, call.answer.isOk = true → failure.x = call.point.toList →
    failure.f = some (F call.point).toList

theorem search_leaves {point : List α} {w w' : σ} {t t' : τ} {calls : List (Call α n)}
    {failure : SearchFailure α n}
    (h : (search (sys.logged.beside τ) (watching observe) c point).run ((w, []), t) =
      (.error failure, ((w', calls), t'))) :
    ∃ lost, failure.Leaves c.differenceStep calls lost := by
  obtain ⟨shots, hs⟩ := search_searches h
  cases hs with
  | refused hc =>
    rcases State.create_eq_error ((State.create_beside _ _ _ _).run_fst hc) with hw | hstart
    · exact ⟨[], .refused rfl rfl (congrArg Prod.snd hw)⟩
    · rcases State.start_fails hstart with hnone | ⟨x, points, hx, hlost, hstops⟩
      · exact ⟨[], .refused rfl rfl hnone⟩
      · exact ⟨points, .unstarted rfl rfl hx hlost hstops⟩
  | cancelled hc ho =>
    have hstart := (State.create_eq_ok ((State.create_beside _ _ _ _).run_fst hc)).2.2
    have hcounted := State.start_counted hstart
    rw [← watching_run ho] at hcounted
    exact ⟨[], .started (.failure _) hcounted.accounted⟩
  | started hc ho rest =>
    have hstart := (State.create_eq_ok ((State.create_beside _ _ _ _).run_fst hc)).2.2
    have hcounted := State.start_counted hstart
    rw [← watching_run ho] at hcounted
    obtain ⟨s, lost, hyields, hlost⟩ := rest.accounted hcounted
    exact ⟨lost, .started hyields hlost⟩

variable [LawfulComparison α]

omit [Scalar α] [SingularValues α] [LawfulComparison α] in
theorem Equations.Answers.logged_beside {F : Vec α n → Vec α n} (hsys : sys.Answers F) (τ : Type) :
    (sys.logged.beside τ).Answers F := by
  intro x w f w' h
  have hlogged := (sys.logged.beside_call τ x).run_fst h
  exact hsys x _ f _ ((sys.logged_call x).run_fst hlogged)

theorem search_consistent {F : Vec α n → Vec α n} (hsys : sys.Answers F)
    {observe : Snapshot α n → StateM σ Control} {point : List α} {w w' : σ} {o : Outcome α n}
    (h : (search sys observe c point).run w = (o, w')) : o.IsConsistent F := by
  obtain ⟨shots, hs⟩ := search_searches h
  rcases hs.reachable.2 with ⟨e, rfl⟩ | ⟨s, hs, hyields⟩
  · intro values hvalues
    cases hvalues
  · exact hyields.consistent (hs.consistent hsys)

omit [SingularValues α] [LawfulComparison α] in
theorem SearchFailure.Leaves.tells {F : Vec α n → Vec α n} {failure : SearchFailure α n}
    {calls : List (Call α n)} (h : failure.Leaves relative calls [])
    (hf : Outcome.IsConsistent F (.error failure)) : failure.Tells F calls := by
  refine ⟨(h.answered).symm, ?_⟩
  intro call hcall hok hx
  have hanswered : RootFinder.answered calls ≠ 0 := by
    apply Nat.ne_of_gt
    exact List.countP_pos_iff.mpr ⟨call, hcall, hok⟩
  cases h with
  | refused _ _ hcalls =>
    rw [hcalls] at hcall
    cases hcall
  | unstarted _ _ _ _ hstops => exact absurd hstops.answered hanswered
  | @started s _ hyields =>
    have hvalues : failure.f = some s.f.toList := by
      cases hyields with
      | failure => rfl
      | brokenDown => rfl
    obtain ⟨x, f, hx', hf', hfx, -⟩ := hf _ hvalues
    have hpoint : x = call.point := Vector.toList_inj.mp (hx'.symm.trans hx)
    rw [hvalues, hf', hfx, hpoint]

/-- What a failed search tells. Its residuals are those of its point. It leaves out no call but
those of a start that came to nothing and those of a differencing that was given up, and it is
complete exactly if it leaves out none. -/
theorem search_failure_tells {F : Vec α n → Vec α n} (hsys : sys.Answers F) {point : List α}
    {w w' : σ} {t t' : τ} {calls : List (Call α n)} {failure : SearchFailure α n}
    (h : (search (sys.logged.beside τ) (watching observe) c point).run ((w, []), t) =
      (.error failure, ((w', calls), t'))) :
    ∃ lost, failure.Leaves c.differenceStep calls lost ∧
      answered calls = failure.evaluations + lost.length ∧
      (∀ values, failure.f = some values →
        ∃ x : Vec α n, failure.x = x.toList ∧ values = (F x).toList) ∧
      (failure.Tells F calls ↔ lost = []) := by
  obtain ⟨lost, hlost⟩ := search_leaves h
  have hf := search_consistent (hsys.logged_beside τ) h
  refine ⟨lost, hlost, hlost.answered, ?_, ?_, ?_⟩
  · intro values hvalues
    obtain ⟨x, f, hx, rfl, hfx, -⟩ := hf values hvalues
    exact ⟨x, hx, congrArg Vector.toList hfx⟩
  · intro htells
    have hcount := hlost.answered
    rw [← htells.counts] at hcount
    apply List.eq_nil_of_length_eq_zero
    omega
  · rintro rfl
    exact hlost.tells hf

/-- Whether the unobserved search from the origin fails, with a failure and a log in the relation
`P`. -/
def failsFromOrigin (sys : Equations (StateM Nat) Float 2)
    (P : SearchFailure Float 2 → List (Call Float 2) → Bool) : Bool :=
  match (search (sys.logged.beside Unit) (watching fun _ => pure .proceed) .standard [0, 0]).run
    ((0, []), ()) with
  | (.error failure, ((_, calls), _)) => P failure calls
  | _ => false

/-- The sixth call is the second of a refresh, whose first is left out. -/
theorem search_failure_tells_jumping :
    ∃ failure w calls lost,
      (search ((interrupted [6] fun x => .ok (jumping x)).logged.beside Unit)
        (watching fun _ => pure .proceed) .standard [0, 0]).run ((0, []), ()) =
          (.error failure, ((w, calls), ())) ∧
      failure.Leaves Settings.standard.differenceStep calls lost ∧ lost.length = 1 ∧
      failure.evaluations = 4 ∧ ¬ failure.Tells jumping calls := by
  have h : failsFromOrigin (interrupted [6] fun x => .ok (jumping x)) (fun failure calls =>
      failure.evaluations = 4 ∧ answered calls = 5) = true := by decide +kernel
  unfold failsFromOrigin at h
  split at h
  · next failure w calls t hrun =>
    obtain ⟨hevaluations, hanswered⟩ := of_decide_eq_true h
    obtain ⟨lost, hlost, hcount, -, hiff⟩ :=
      search_failure_tells (interrupted_answers [6] jumping) hrun
    have hlength : lost.length = 1 := by omega
    refine ⟨failure, w, calls, lost, hrun, hlost, hlength, hevaluations, ?_⟩
    intro htells
    rw [hiff.mp htells] at hlength
    cases hlength
  · cases h

/-- The third call ends the differencing of the start. The failure counts no call and has no
residuals, though those of its point had been answered. -/
theorem start_failure_may_leave_out :
    ∃ failure w calls,
      (search ((interrupted [3] fun x => .ok (jumping x)).logged.beside Unit)
        (watching fun _ => pure .proceed) .standard [0, 0]).run ((0, []), ()) =
          (.error failure, ((w, calls), ())) ∧
      failure.evaluations = 0 ∧ answered calls = 2 ∧ failure.f = none ∧
      ∃ call ∈ calls, call.answer.isOk = true ∧ failure.x = call.point.toList := by
  have h : failsFromOrigin (interrupted [3] fun x => .ok (jumping x)) (fun failure calls =>
      failure.evaluations = 0 ∧ answered calls = 2 ∧ failure.f.isNone = true ∧
        ∃ call ∈ calls, call.answer.isOk = true ∧ failure.x = call.point.toList) = true := by
    decide +kernel
  unfold failsFromOrigin at h
  split at h
  · next failure w calls t hrun =>
    obtain ⟨hevaluations, hanswered, hf, hcall⟩ := of_decide_eq_true h
    exact ⟨failure, w, calls, hrun, hevaluations, hanswered, Option.isNone_iff_eq_none.mp hf,
      hcall⟩
  · cases h

end RootFinder
