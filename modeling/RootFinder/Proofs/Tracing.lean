import RootFinder.CommandLine
import RootFinder.Proofs.Observer

/-! What can go wrong on the command line. The search of the command line is shown to a writer that
may refuse any of its lines. A log of all that is done, calls of the system included, shows that
nothing follows a refused line, and that without one there is a line for each snapshot and the
result is the outcome of the search. -/

namespace RootFinder

section

variable {m m' : Type → Type} [Monad m] [Monad m'] (R : Correspondence m m')

/-- Computations with a state of their own correspond if they do from each of its values. -/
def Correspondence.withState (ρ : Type) : Correspondence (StateT ρ m) (StateT ρ m') where
  Holds x y := ∀ r, R.Holds (x.run r) (y.run r)
  holds_pure _ _ := R.holds_pure _
  holds_bind h hf r := R.holds_bind (h r) fun answer => hf answer.1 answer.2

theorem Correspondence.holds_lift (ρ : Type) {β : Type} {x : m β} {y : m' β} (h : R.Holds x y) :
    (R.withState ρ).Holds (liftM x : StateT ρ m β) (liftM y : StateT ρ m' β) :=
  fun _ => R.holds_bind h fun _ => R.holds_pure _

end

theorem run_run_bind_of_eq {σ ρ β γ : Type} {x : StateT ρ (StateM σ) β}
    {f : β → StateT ρ (StateM σ) γ} {a : β} {r r' : ρ} {w w' : σ}
    (h : (x.run r).run w = ((a, r'), w')) :
    ((x >>= f).run r).run w = ((f a).run r').run w' := by
  change (x.run r >>= fun answer => (f answer.1).run answer.2).run w = _
  rw [run_bind_of_eq h]

theorem run_run_liftM {σ ρ β : Type} {x : StateM σ β} {a : β} {w w' : σ} (h : x.run w = (a, w'))
    (r : ρ) : ((liftM x : StateT ρ (StateM σ) β).run r).run w = ((a, r), w') := by
  change (x >>= fun a => pure (a, r)).run w = _
  rw [run_bind_of_eq h]
  rfl

def collect {α : Type} {n : Nat} (shot : Snapshot α n) : StateM (List (Snapshot α n)) Control :=
  fun shots => (.proceed, shots ++ [shot])

/-- The result is that of the other computation, and the state stays. -/
def steady (σ : Type) : Correspondence Id (StateM σ) where
  Holds x y := ∀ w, y.run w = (x.run, w)
  holds_pure _ _ := rfl
  holds_bind h hf w := by
    rw [run_bind_of_eq (h w), hf]
    rfl

namespace CommandLine

variable {τ : Type}

/-- What is done while the command line searches. -/
inductive Event
  | called (x : Vec Float 2)
  | noted (text : String)
  | wrote (text : String) (reply : Except String Unit)

def Event.line? : Event → Option String
  | wrote text _ => some text
  | _ => none

/-- The computation, taking down the event that it is. -/
def logging {β : Type} (x : StateM τ β) (event : β → Event) : StateM (τ × List Event) β :=
  fun world => ((x.run world.1).1, ((x.run world.1).2, world.2 ++ [event (x.run world.1).1]))

theorem logging_run {β : Type} {x : StateM τ β} {a : β} {t t' : τ} (h : x.run t = (a, t'))
    (event : β → Event) (log : List Event) :
    (logging x event).run (t, log) = (a, (t', log ++ [event a])) := by
  change ((x.run t).1, _) = _
  rw [h]

def logged (console : Console (StateM τ)) : Console (StateM (τ × List Event)) where
  output text := logging (console.output text) (.wrote text)
  errors text := logging (console.errors text) fun _ => .noted text

def loggedSystem (τ : Type) (o : Options) : Equations (StateM (τ × List Event)) Float 2 :=
  fun x => logging (system o x) fun _ => .called x

section

variable {m : Type → Type} [Monad m] (sys : Equations m Float 2) (console : Console m)
  {o : Options}

theorem traceSystem_of_fault {fault : SettingsFault} (h : o.settings.fault? = some fault) :
    traceSystem sys console o = pure (.error (.settings fault)) := by
  simp only [traceSystem, h]

theorem traceSystem_of_valid (h : o.settings.Valid) :
    traceSystem sys console o = (do
      let answer ← (search (fun x => liftM (sys x))
        (showSnapshot console o.verbose o.settings) o.settings o.point).run none
      match answer.2 with
      | some reason => pure (.error (.trace reason))
      | none => pure (.ok answer.1)) := by
  have hfault : o.settings.fault? = none := h
  unfold traceSystem
  dsimp only
  split
  · next fault hsome =>
    rw [hfault] at hsome
    cases hsome
  · rfl

end

section

variable {m m' : Type → Type} [Monad m] [Monad m'] (R : Correspondence m m')
  {sys : Equations m Float 2} {sys' : Equations m' Float 2} {console : Console m}
  {console' : Console m'}
  (houtput : ∀ text, R.Holds (console.output text) (console'.output text))
  (herrors : ∀ text, R.Holds (console.errors text) (console'.errors text))

include herrors in
theorem holds_writeNotes (texts : List String) :
    R.Holds (writeNotes console texts) (writeNotes console' texts) := by
  induction texts with
  | nil => exact R.holds_pure _
  | cons text texts ih => exact R.holds_bind (herrors text) fun _ => ih

include houtput herrors

theorem holds_showSnapshot (verbose : Bool) (c : Settings Float) (shot : Snapshot Float 2) :
    (R.withState _).Holds (showSnapshot console verbose c shot)
      (showSnapshot console' verbose c shot) := by
  have hline : (R.withState _).Holds (showLine console shot) (showLine console' shot) := by
    refine (R.withState _).holds_bind (R.holds_lift _ (houtput _)) fun reply => ?_
    cases reply with
    | ok => exact (R.withState _).holds_pure _
    | error reason =>
      refine (R.withState _).holds_bind (fun _ => R.holds_pure _) fun _ => ?_
      exact (R.withState _).holds_pure _
  cases verbose with
  | false => exact hline
  | true =>
    have hnotes := holds_writeNotes R herrors (Journal.ofSnapshot c shot)
    exact (R.withState _).holds_bind (R.holds_lift _ hnotes) fun _ => hline

theorem holds_traceSystem (hsys : ∀ x, R.Holds (sys x) (sys' x)) (o : Options) :
    R.Holds (traceSystem sys console o) (traceSystem sys' console' o) := by
  cases hfault : o.settings.fault? with
  | some fault =>
    rw [traceSystem_of_fault _ _ hfault, traceSystem_of_fault _ _ hfault]
    exact R.holds_pure _
  | none =>
    have hsearch := (R.withState (Option String)).holds_search (fun x => R.holds_lift _ (hsys x))
      o.settings (holds_showSnapshot R houtput herrors o.verbose o.settings) o.point
    rw [traceSystem_of_valid _ _ hfault, traceSystem_of_valid _ _ hfault]
    refine R.holds_bind (hsearch none) fun answer => ?_
    cases answer.2 with
    | some reason => exact R.holds_pure _
    | none => exact R.holds_pure _

end

/-- Taking down what is done changes nothing else. -/
def unseen (τ : Type) : Correspondence (StateM τ) (StateM (τ × List Event)) where
  Holds x y := ∀ t log, ∃ more, y.run (t, log) = ((x.run t).1, ((x.run t).2, log ++ more))
  holds_pure a t log := ⟨[], by rw [List.append_nil]; rfl⟩
  holds_bind {_ _ x y f g} h hf t log := by
    obtain ⟨before, hx⟩ := h t log
    obtain ⟨after, hfx⟩ := hf (x.run t).1 (x.run t).2 (log ++ before)
    refine ⟨before ++ after, ?_⟩
    rw [run_bind_of_eq hx, hfx, List.append_assoc]
    rfl

theorem unseen_logging {β : Type} (x : StateM τ β) (event : β → Event) :
    (unseen τ).Holds x (logging x event) :=
  fun t log => ⟨_, logging_run (Prod.mk.eta.symm : x.run t = _) event log⟩

/-- Nothing but calls of the system is done, and the result is that of the other computation. -/
def calling (τ : Type) : Correspondence Id (StateT (Option String) (StateM (τ × List Event))) where
  Holds x y := ∀ failed t log, ∃ calls : List (Vec Float 2),
    (y.run failed).run (t, log) = ((x.run, failed), (t, log ++ calls.map .called))
  holds_pure a failed t log := ⟨[], by rw [List.map_nil, List.append_nil]; rfl⟩
  holds_bind {_ _ x y f g} h hf failed t log := by
    obtain ⟨before, hx⟩ := h failed t log
    obtain ⟨after, hfx⟩ := hf x.run failed t (log ++ before.map .called)
    refine ⟨before ++ after, ?_⟩
    rw [run_run_bind_of_eq hx, hfx, List.append_assoc, ← List.map_append]
    rfl

theorem calling_system (o : Options) (x : Vec Float 2) :
    (calling τ).Holds (system o x) (liftM (loggedSystem τ o x)) :=
  fun _ _ _ => ⟨[x], rfl⟩

/-- The log of a search that would show these snapshots, and what it failed for. There is nothing
after a line that could not be written. -/
inductive Tells : List (Snapshot Float 2) → List Event → Option String → Prop
  | done : Tells [] [] none
  | called {shots : List (Snapshot Float 2)} {log : List Event} {failed : Option String}
      (x : Vec Float 2) (h : Tells shots log failed) : Tells shots (.called x :: log) failed
  | noted {shots : List (Snapshot Float 2)} {log : List Event} {failed : Option String}
      (text : String) (h : Tells shots log failed) : Tells shots (.noted text :: log) failed
  | wrote {shots : List (Snapshot Float 2)} {log : List Event} {failed : Option String}
      (shot : Snapshot Float 2) (h : Tells shots log failed) :
      Tells (shot :: shots) (.wrote (Trace.line shot.state) (.ok ()) :: log) failed
  | refused (shot : Snapshot Float 2) (shots : List (Snapshot Float 2)) (reason : String) :
      Tells (shot :: shots) [.wrote (Trace.line shot.state) (.error reason)] (some reason)

namespace Tells

variable {shots : List (Snapshot Float 2)} {log : List Event} {failed : Option String}

theorem append_called (h : Tells shots log failed) (calls : List (Vec Float 2)) :
    Tells shots (calls.map .called ++ log) failed := by
  induction calls with
  | nil => exact h
  | cons x calls ih => exact .called x ih

theorem append_noted (h : Tells shots log failed) (texts : List String) :
    Tells shots (texts.map .noted ++ log) failed := by
  induction texts with
  | nil => exact h
  | cons text texts ih => exact .noted text ih

theorem lines_prefix (h : Tells shots log failed) :
    log.filterMap Event.line? <+: shots.map fun shot => Trace.line shot.state := by
  induction h with
  | done => exact List.prefix_rfl
  | called x _ ih => exact ih
  | noted text _ ih => exact ih
  | wrote shot _ ih => exact (List.prefix_cons_inj _).mpr ih
  | refused shot shots reason => exact List.prefix_append [_] _

theorem lines_eq (h : Tells shots log none) :
    log.filterMap Event.line? = shots.map fun shot => Trace.line shot.state := by
  generalize hfailed : none = failed at h
  induction h with
  | done => rfl
  | called x _ ih => exact ih hfailed
  | noted text _ ih => exact ih hfailed
  | wrote shot _ ih => exact congrArg _ (ih hfailed)
  | refused => cases hfailed

theorem exists_refused {reason : String} (h : Tells shots log (some reason)) :
    ∃ text, .wrote text (.error reason) ∈ log := by
  generalize hfailed : some reason = failed at h
  induction h with
  | done => cases hfailed
  | called x _ ih => exact (ih hfailed).imp fun _ => List.mem_cons_of_mem _
  | noted text _ ih => exact (ih hfailed).imp fun _ => List.mem_cons_of_mem _
  | wrote shot _ ih => exact (ih hfailed).imp fun _ => List.mem_cons_of_mem _
  | refused =>
    cases hfailed
    exact ⟨_, List.mem_singleton_self _⟩

theorem refused_last {before after : List Event} {text reason : String}
    (h : Tells shots (before ++ .wrote text (.error reason) :: after) failed) :
    after = [] ∧ failed = some reason := by
  generalize hlog : before ++ .wrote text (.error reason) :: after = log at h
  induction h generalizing before with
  | done => simp at hlog
  | called x _ ih =>
    cases before with
    | nil => cases hlog
    | cons event before => exact ih (List.cons.inj hlog).2
  | noted x _ ih =>
    cases before with
    | nil => cases hlog
    | cons event before => exact ih (List.cons.inj hlog).2
  | wrote shot _ ih =>
    cases before with
    | nil => cases hlog
    | cons event before => exact ih (List.cons.inj hlog).2
  | refused =>
    cases before with
    | nil =>
      cases hlog
      exact ⟨rfl, rfl⟩
    | cons event before =>
      have htail := (List.cons.inj hlog).2
      simp at htail

end Tells

section

variable (console : Console (StateM τ)) (verbose : Bool) (c : Settings Float)

theorem writeNotes_logged (texts : List String) (t : τ) (log : List Event) :
    ∃ t', (writeNotes (logged console) texts).run (t, log) =
      ((), (t', log ++ texts.map .noted)) := by
  induction texts generalizing t log with
  | nil => exact ⟨t, by rw [List.map_nil, List.append_nil]; rfl⟩
  | cons text texts ih =>
    obtain ⟨⟨⟩, t', ht⟩ := exists_run (console.errors text) t
    have hnoted : ((logged console).errors text).run (t, log) = ((), (t', log ++ [.noted text])) :=
      logging_run ht (fun _ => .noted text) log
    obtain ⟨u, hu⟩ := ih t' (log ++ [.noted text])
    refine ⟨u, ?_⟩
    rw [writeNotes, run_bind_of_eq hnoted, hu, List.append_assoc]
    rfl

/-- What an observer answers and keeps when its line has this reply. -/
def answerTo : Except String Unit → Control × Option String
  | .ok () => (.proceed, none)
  | .error reason => (.cancel, some reason)

theorem showLine_logged (shot : Snapshot Float 2) (t : τ) (log : List Event) :
    ∃ t' reply, ((showLine (logged console) shot).run none).run (t, log) =
      (answerTo reply, (t', log ++ [.wrote (Trace.line shot.state) reply])) := by
  obtain ⟨reply, t', ht⟩ := exists_run (console.output (Trace.line shot.state)) t
  have hwrote := run_run_liftM (logging_run ht (.wrote (Trace.line shot.state)) log)
    (none : Option String)
  refine ⟨t', reply, ?_⟩
  rw [showLine, logged, run_run_bind_of_eq hwrote]
  cases reply with
  | ok => rfl
  | error reason => rfl

theorem showSnapshot_logged (shot : Snapshot Float 2) (t : τ) (log : List Event) :
    ∃ t' reply, ∃ texts : List String,
      ((showSnapshot (logged console) verbose c shot).run none).run (t, log) =
        (answerTo reply,
          (t', log ++ (texts.map .noted ++ [.wrote (Trace.line shot.state) reply]))) := by
  cases verbose with
  | false =>
    obtain ⟨t', reply, h⟩ := showLine_logged console shot t log
    exact ⟨t', reply, [], h⟩
  | true =>
    obtain ⟨u, hnotes⟩ := writeNotes_logged console (Journal.ofSnapshot c shot) t log
    obtain ⟨t', reply, h⟩ := showLine_logged console shot u
      (log ++ (Journal.ofSnapshot c shot).map .noted)
    refine ⟨t', reply, Journal.ofSnapshot c shot, ?_⟩
    rw [← List.append_assoc, ← h]
    exact run_run_bind_of_eq (run_run_liftM hnotes none)

end

/-- The computation would show these snapshots and end with this outcome, unless a line cannot be
written. -/
def Retells (y : StateT (Option String) (StateM (τ × List Event)) (Outcome Float 2))
    (shots : List (Snapshot Float 2)) (outcome : Outcome Float 2) : Prop :=
  ∀ t log, ∃ answer failed t' more,
    (y.run none).run (t, log) = ((answer, failed), (t', log ++ more)) ∧ Tells shots more failed ∧
      (failed = none → answer = outcome)

namespace Retells

variable {shots : List (Snapshot Float 2)} {outcome : Outcome Float 2}

theorem pure (outcome : Outcome Float 2) :
    Retells (Pure.pure outcome : StateT (Option String) (StateM (τ × List Event)) _) [] outcome :=
  fun t log => ⟨outcome, none, t, [], by rw [List.append_nil]; rfl, .done, fun _ => rfl⟩

theorem after_calls {β : Type} {x : Id β}
    {y : StateT (Option String) (StateM (τ × List Event)) β}
    {f : β → StateT (Option String) (StateM (τ × List Event)) (Outcome Float 2)}
    (h : (calling τ).Holds x y) (hf : Retells (f x.run) shots outcome) :
    Retells (y >>= f) shots outcome := by
  intro t log
  obtain ⟨calls, hy⟩ := h none t log
  obtain ⟨answer, failed, t', more, hrun, htells, hanswer⟩ := hf t (log ++ calls.map .called)
  refine ⟨answer, failed, t', calls.map .called ++ more, ?_, htells.append_called calls, hanswer⟩
  rw [run_run_bind_of_eq hy, hrun, List.append_assoc]

variable (o : Options) (console : Console (StateM τ)) (verbose : Bool) {c : Settings Float}
  {k : Nat}

theorem shown {shot : Snapshot Float 2}
    (h : Retells (shot.resume (fun x => liftM (loggedSystem τ o x))
      (showSnapshot (logged console) verbose c) c k) shots outcome) :
    Retells (shot.pursue (fun x => liftM (loggedSystem τ o x))
      (showSnapshot (logged console) verbose c) c k) (shot :: shots) outcome := by
  intro t log
  obtain ⟨u, reply, texts, hshow⟩ := showSnapshot_logged console verbose c shot t log
  rw [Snapshot.pursue, run_run_bind_of_eq hshow]
  cases reply with
  | error reason =>
    refine ⟨_, some reason, u, _, rfl, ?_, fun hnone => by cases hnone⟩
    exact (Tells.refused shot shots reason).append_noted texts
  | ok =>
    obtain ⟨answer, failed, t', more, hrun, htells, hanswer⟩ := h u
      (log ++ (texts.map .noted ++ [.wrote (Trace.line shot.state) (.ok ())]))
    refine ⟨answer, failed, t',
      texts.map .noted ++ .wrote (Trace.line shot.state) (.ok ()) :: more, ?_, ?_, hanswer⟩
    · simpa using hrun
    · exact (htells.wrote shot).append_noted texts

end Retells

section

variable (o : Options) (console : Console (StateM τ)) (verbose : Bool) {c : Settings Float}

theorem steady_system (S : Type) (x : Vec Float 2) : (steady S).Holds (system o x) (system o x) :=
  fun _ => rfl

theorem pursue_retells {k : Nat} {shot : Snapshot Float 2} (hk : shot.HasLeft c k) :
    ∃ shots outcome,
      (∀ seen, (shot.pursue (system o) collect c k).run seen = (outcome, seen ++ shots)) ∧
      Retells (shot.pursue (fun x => liftM (loggedSystem τ o x))
        (showSnapshot (logged console) verbose c) c k) shots outcome := by
  have hcollect {k : Nat} {shot : Snapshot Float 2} (seen : List (Snapshot Float 2)) :
      (shot.pursue (system o) collect c k).run seen =
        (shot.resume (system o) collect c k).run (seen ++ [shot]) := rfl
  -- The iteration is computed once for both searches; what is left of the budget carries on.
  induction k using Nat.strong_induction_on generalizing shot with
  | h k ih =>
    cases he : shot.ending? c with
    | some outcome =>
      refine ⟨[shot], outcome, ?_, .shown o console verbose ?_⟩
      · intro seen
        rw [hcollect, Snapshot.resume_of_ending? _ _ hk he]
        rfl
      · rw [Snapshot.resume_of_ending? _ _ hk he]
        exact .pure outcome
    | none =>
      have hs := Snapshot.isInner_of_ending? he
      obtain ⟨l, rfl⟩ := hs.exists_left hk
      have hcalls := (calling τ).holds_iterate (calling_system o) c shot.state
      have hsteady := (steady (List (Snapshot Float 2))).holds_iterate (steady_system o _) c
        shot.state
      generalize (shot.state.iterate (system o) c : Id _) = attempt at hcalls hsteady
      cases hr : attempt.run.result with
      | error b =>
        refine ⟨[shot], attempt.run.state.brokenDown b, ?_, .shown o console verbose ?_⟩
        · intro seen
          rw [hcollect, hs.resume_eq, run_bind_of_eq (hsteady _)]
          simp only [hr]
          rfl
        · rw [hs.resume_eq]
          refine .after_calls hcalls ?_
          simp only [hr]
          exact .pure _
      | ok report =>
        obtain ⟨shots, outcome, hrest, hretells⟩ :=
          ih l (Nat.lt_succ_self l) (hk.iterate hs (hsteady []) hr)
        refine ⟨shot :: shots, outcome, ?_, .shown o console verbose ?_⟩
        · intro seen
          rw [hcollect, hs.resume_eq, run_bind_of_eq (hsteady _)]
          simp only [hr]
          rw [hrest, List.append_assoc]
          rfl
        · rw [hs.resume_eq]
          refine .after_calls hcalls ?_
          simp only [hr]
          exact hretells

theorem search_retells (point : List Float) :
    ∃ shots outcome, (search (system o) collect c point).run [] = (outcome, shots) ∧
      Retells (search (fun x => liftM (loggedSystem τ o x))
        (showSnapshot (logged console) verbose c) c point) shots outcome := by
  have hcalls := (calling τ).holds_create (calling_system o) c point
  have hsteady := (steady (List (Snapshot Float 2))).holds_create (steady_system o _) c point
  generalize (State.create (system o) c point : Id _) = answer at hcalls hsteady
  cases ha : answer.run with
  | error e =>
    refine ⟨[], .error ⟨e, point, none, 0, 0, none⟩, ?_, ?_⟩
    · rw [search, run_bind_of_eq (hsteady _), ha]
      rfl
    · refine .after_calls hcalls ?_
      rw [ha]
      exact .pure _
  | ok s =>
    have hcreate := hsteady []
    rw [ha] at hcreate
    obtain ⟨hrunning, hzero, -⟩ := State.create_running hcreate
    obtain ⟨shots, outcome, hpursue, hretells⟩ :=
      pursue_retells o console verbose (Snapshot.hasLeft_start c hzero)
    refine ⟨shots, outcome, ?_, ?_⟩
    · rw [search, run_bind_of_eq hcreate]
      have h := hpursue []
      rw [Snapshot.pursue, Snapshot.resume_start _ _ hrunning] at h
      exact h
    · refine .after_calls hcalls ?_
      rw [ha]
      rw [Snapshot.pursue, Snapshot.resume_start _ _ hrunning] at hretells
      exact hretells

end

/-- The snapshots of the search that is never cancelled. -/
def snapshots (o : Options) : List (Snapshot Float 2) :=
  ((search (system o) collect o.settings o.point).run []).2

/-- The result of the command line and the log of what it did. -/
structure Traced (o : Options) (result : Except RunError (Outcome Float 2)) (log : List Event) :
    Prop where
  fails_iff : (∃ e, result = .error e) ↔
    ¬ o.settings.Valid ∨ ∃ text reason, .wrote text (.error reason) ∈ log
  invalid : ¬ o.settings.Valid → (∃ fault, result = .error (.settings fault)) ∧ log = []
  refused : ∀ before text reason after, log = before ++ .wrote text (.error reason) :: after →
    after = [] ∧ result = .error (.trace reason)
  lines : log.filterMap Event.line? <+: (snapshots o).map fun shot => Trace.line shot.state
  written : o.settings.Valid → (∀ text reason, .wrote text (.error reason) ∉ log) →
    result = .ok (solve (system o) o.settings o.point : Id _) ∧
      log.filterMap Event.line? = (snapshots o).map fun shot => Trace.line shot.state

theorem traced_of_fault {o : Options} {fault : SettingsFault} (h : o.settings.fault? = some fault) :
    Traced o (.error (.settings fault)) [] := by
  have hinvalid : ¬ o.settings.Valid := by
    intro hvalid
    rw [Settings.Valid, h] at hvalid
    cases hvalid
  refine ⟨iff_of_true ⟨_, rfl⟩ (.inl hinvalid), fun _ => ⟨⟨fault, rfl⟩, rfl⟩, ?_, List.nil_prefix,
    fun hvalid => absurd hvalid hinvalid⟩
  intro before text reason after hlog
  simp at hlog

theorem traced_of_tells {o : Options} {log : List Event} {failed : Option String}
    {answer : Outcome Float 2} (hvalid : o.settings.Valid)
    (htells : Tells (snapshots o) log failed)
    (hanswer : failed = none → answer = (solve (system o) o.settings o.point : Id _)) :
    Traced o (match failed with
      | some reason => .error (.trace reason)
      | none => .ok answer) log := by
  have hrefused {before after : List Event} {text reason : String}
      (hlog : log = before ++ .wrote text (.error reason) :: after) :
      after = [] ∧ failed = some reason := by
    rw [hlog] at htells
    exact htells.refused_last
  cases failed with
  | some reason =>
    refine ⟨iff_of_true ⟨_, rfl⟩ ?_, fun h => absurd hvalid h, ?_, htells.lines_prefix, ?_⟩
    · obtain ⟨text, hmem⟩ := htells.exists_refused
      exact .inr ⟨text, reason, hmem⟩
    · intro before text reason' after hlog
      obtain ⟨hafter, hreason⟩ := hrefused hlog
      cases hreason
      exact ⟨hafter, rfl⟩
    · intro _ hwritten
      obtain ⟨text, hmem⟩ := htells.exists_refused
      exact absurd hmem (hwritten text reason)
  | none =>
    refine ⟨iff_of_false ?_ ?_, fun h => absurd hvalid h, ?_, htells.lines_prefix, ?_⟩
    · rintro ⟨e, he⟩
      cases he
    · rintro (h | ⟨text, reason, hmem⟩)
      · exact h hvalid
      · obtain ⟨before, after, hlog⟩ := List.append_of_mem hmem
        cases (hrefused hlog).2
    · intro before text reason after hlog
      cases (hrefused hlog).2
    · intro _ _
      exact ⟨congrArg _ (hanswer rfl), htells.lines_eq⟩

theorem traceSystem_traced (console : Console (StateM τ)) (o : Options) (t : τ) :
    ∃ result t' log,
      (traceSystem (loggedSystem τ o) (logged console) o).run (t, []) = (result, (t', log)) ∧
      Traced o result log := by
  cases hfault : o.settings.fault? with
  | some fault =>
    rw [traceSystem_of_fault _ _ hfault]
    exact ⟨_, t, [], rfl, traced_of_fault hfault⟩
  | none =>
    obtain ⟨shots, outcome, hcollect, hretells⟩ :=
      search_retells o console o.verbose (c := o.settings) o.point
    obtain ⟨answer, failed, t', log, hrun, htells, hanswer⟩ := hretells t []
    have hshots : shots = snapshots o := by
      rw [snapshots, hcollect]
    have hsolve : outcome = (solve (system o) o.settings o.point : Id _) := by
      have hsystem (x : Vec Float 2) :
          (settled (List (Snapshot Float 2))).Holds (system o x) (system o x) :=
        fun _ => rfl
      have hproceed (shot : Snapshot Float 2) :
          (settled (List (Snapshot Float 2))).Holds (collect shot) (pure .proceed) :=
        fun _ => rfl
      have h := (settled _).holds_search hsystem o.settings hproceed o.point []
      rw [hcollect] at h
      exact h
    rw [hshots] at htells
    rw [hsolve] at hanswer
    rw [traceSystem_of_valid _ _ hfault, run_bind_of_eq hrun]
    refine ⟨_, t', log, ?_, traced_of_tells hfault htells hanswer⟩
    cases failed with
    | some reason => rfl
    | none => rfl

/-- The command line fails for settings out of range, without having done anything, and for a line
that cannot be written, without doing anything afterwards. Otherwise its result is the outcome of
the search, and it has written a line for each snapshot. -/
theorem trace_fails_for_settings_or_lines (console : Console (StateM τ)) (o : Options) (t : τ) :
    ∃ result t' log, (trace console o).run t = (result, t') ∧
      (traceSystem (loggedSystem τ o) (logged console) o).run (t, []) = (result, (t', log)) ∧
      Traced o result log := by
  obtain ⟨result, t', log, hrun, htraced⟩ := traceSystem_traced console o t
  have hsame : (unseen τ).Holds (trace console o)
      (traceSystem (loggedSystem τ o) (logged console) o) := by
    refine holds_traceSystem (unseen τ) ?_ ?_ ?_ o
    · exact fun text => unseen_logging (console.output text) _
    · exact fun text => unseen_logging (console.errors text) fun _ => .noted text
    · exact fun x => unseen_logging (system o x) _
  obtain ⟨more, h⟩ := hsame t []
  rw [hrun] at h
  cases h
  exact ⟨_, _, _, rfl, hrun, htraced⟩

/-- A writer that has room for two lines. -/
def shortConsole : Console (StateM (List String)) where
  output text lines :=
    if lines.length < 2 then (.ok (), lines ++ [text]) else (.error "full", lines)
  errors _ := pure ()

example : ((trace shortConsole {}).run []).2 =
    ["[ iter = 000 ] x = -10.000 -5.000 / f(x) =  1.100e+01 -1.050e+03",
      "[ iter = 001 ] x = -10.000 -5.000 / f(x) =  1.100e+01 -1.050e+03"] := by
  decide +kernel

end CommandLine

end RootFinder
