import RootFinder.Proofs.History
import RootFinder.Proofs.PlainLoop
import RootFinder.Proofs.Restart

/-! What an observer can rely on. Whatever it keeps in mind and answers, it is shown the iterations
in the order of their counts, the last of them at most twice; it sees the beginning of what it would
have seen without ever cancelling; and when it cancels, the search ends with what it was just shown,
and makes no further call. -/

namespace RootFinder

variable {σ τ ρ S α : Type} {n : Nat}

/-- What an observer was shown, in which state of the system, and what it answered. -/
structure Showing (σ α : Type) (n : Nat) where
  shot : Snapshot α n
  world : σ
  control : Control

/-- The observer that takes down what it is shown. -/
def attending (observe : Snapshot α n → StateM τ Control) (shot : Snapshot α n) :
    StateM (σ × (τ × List (Showing σ α n))) Control :=
  fun state =>
    let answer := (observe shot).run state.2.1
    (answer.1, (state.1, (answer.2, state.2.2 ++ [⟨shot, state.1, answer.1⟩])))

def proceeding (_ : Snapshot α n) : StateM Unit Control :=
  pure .proceed

/-- The second observer does as the first, and keeps of the record what `r` keeps. -/
def Follows (r : σ → τ × List (Showing σ α n) → S) (observe : Snapshot α n → StateM τ Control)
    (look : Snapshot α n → StateM S Control) : Prop :=
  ∀ shot w t t' control seen, (observe shot).run t = (control, t') →
    (look shot).run (r w (t, seen)) = (control, r w (t', seen ++ [⟨shot, w, control⟩]))

theorem attending_follows (observe : Snapshot α n → StateM τ Control) :
    Follows (fun (w : σ) u => (w, u)) observe (attending observe) := by
  intro shot w t t' control seen ho
  change (((observe shot).run t).1, _) = _
  rw [ho]

theorem watching_follows (observe : Snapshot α n → StateM τ Control) :
    Follows (fun (w : σ) u => (w, u.1)) observe (watching observe) := by
  intro shot w t t' control seen ho
  change (((observe shot).run t).1, _) = _
  rw [ho]

theorem proceed_follows :
    Follows (fun (w : σ) _ => w) (proceeding (α := α) (n := n)) fun _ => pure .proceed := by
  intro shot w t t' control seen ho
  cases ho
  rfl

variable [Scalar α]

/-- How the search ends after this snapshot, if without another iteration. -/
def Snapshot.ending? (c : Settings α) (shot : Snapshot α n) : Option (Outcome α n) :=
  match shot.state.conclusion? c with
  | some o => some o
  | none =>
    if shot.report.isSome ∧ shot.state.passesStepTest c = true then
      some (shot.state.root .stepSize)
    else if residualTest shot.state.f c.tolerance = .success then
      some (shot.state.root .residual)
    else if c.maxIterations ≤ shot.state.iterations then
      some (shot.state.failure (.iterationLimit c.maxIterations))
    else none

/-- The search has another iteration after this snapshot. -/
structure Snapshot.IsInner (c : Settings α) (shot : Snapshot α n) : Prop where
  running : shot.state.status = .running
  untested : ¬ (shot.report.isSome ∧ shot.state.passesStepTest c = true)
  unfinished : residualTest shot.state.f c.tolerance ≠ .success
  inBudget : shot.state.iterations < c.maxIterations

theorem Snapshot.isInner_of_ending? {c : Settings α} {shot : Snapshot α n}
    (h : shot.ending? c = none) : shot.IsInner c := by
  unfold ending? at h
  cases hc : shot.state.conclusion? c with
  | some o =>
    rw [hc] at h
    cases h
  | none =>
    simp only [hc] at h
    have hrunning := State.conclusion?_eq_none_iff.mp hc
    by_cases hstep : shot.report.isSome ∧ shot.state.passesStepTest c = true
    · rw [if_pos hstep] at h
      cases h
    · rw [if_neg hstep] at h
      by_cases hpassed : residualTest shot.state.f c.tolerance = .success
      · rw [if_pos hpassed] at h
        cases h
      · rw [if_neg hpassed] at h
        by_cases hlimit : c.maxIterations ≤ shot.state.iterations
        · rw [if_pos hlimit] at h
          cases h
        · exact ⟨hrunning, hstep, hpassed, by omega⟩

/-- The budget that is left to a run counts its iterations. -/
def Snapshot.HasLeft (c : Settings α) (shot : Snapshot α n) (k : Nat) : Prop :=
  shot.state.status = .running → shot.state.iterations + k = c.maxIterations

omit [Scalar α] in
theorem Snapshot.hasLeft_start (c : Settings α) {s : State α n} (hs : s.iterations = 0) :
    Snapshot.HasLeft c ⟨s, none⟩ c.maxIterations := by
  intro _
  change s.iterations + c.maxIterations = c.maxIterations
  rw [hs, Nat.zero_add]

theorem Snapshot.IsInner.exists_left {c : Settings α} {shot : Snapshot α n} {k : Nat}
    (hs : shot.IsInner c) (hk : shot.HasLeft c k) : ∃ l, k = l + 1 := by
  have hleft := hk hs.running
  have hbudget := hs.inBudget
  exact ⟨k - 1, by omega⟩

variable [SingularValues α]

/-- The course of a search from a snapshot on, with what the observer is shown. -/
inductive Shows (sys : Equations (StateM σ) α n) (observe : Snapshot α n → StateM τ Control)
    (c : Settings α) :
    Snapshot α n → σ → τ → List (Showing σ α n) → Outcome α n → σ → τ → Prop
  | cancelled {shot : Snapshot α n} {w : σ} {t t' : τ}
      (ho : (observe shot).run t = (.cancel, t')) :
      Shows sys observe c shot w t [⟨shot, w, .cancel⟩] (shot.state.failure .cancelled) w t'
  | ended {shot : Snapshot α n} {w : σ} {t t' : τ} {o : Outcome α n}
      (ho : (observe shot).run t = (.proceed, t')) (he : shot.ending? c = some o) :
      Shows sys observe c shot w t [⟨shot, w, .proceed⟩] o w t'
  | brokenDown {shot : Snapshot α n} {w w' : σ} {t t' : τ} {a : Attempt α n} {b : Breakdown α n}
      (ho : (observe shot).run t = (.proceed, t')) (he : shot.ending? c = none)
      (ha : (shot.state.iterate sys c).run w = (a, w')) (hb : a.result = .error b) :
      Shows sys observe c shot w t [⟨shot, w, .proceed⟩] (a.state.brokenDown b) w' t'
  | next {shot : Snapshot α n} {w v w' : σ} {t t' t'' : τ} {a : Attempt α n} {report : Report α n}
      {seen : List (Showing σ α n)} {o : Outcome α n}
      (ho : (observe shot).run t = (.proceed, t')) (he : shot.ending? c = none)
      (ha : (shot.state.iterate sys c).run w = (a, v)) (hr : a.result = .ok report)
      (rest : Shows sys observe c ⟨a.state, some report⟩ v t' seen o w' t'') :
      Shows sys observe c shot w t (⟨shot, w, .proceed⟩ :: seen) o w' t''

theorem Snapshot.HasLeft.iterate {sys : Equations (StateM σ) α n} {c : Settings α}
    {shot : Snapshot α n} {k : Nat} {a : Attempt α n} {report : Report α n} {w w' : σ}
    (hk : shot.HasLeft c (k + 1)) (hs : shot.IsInner c)
    (ha : (shot.state.iterate sys c).run w = (a, w')) (hr : a.result = .ok report) :
    Snapshot.HasLeft c ⟨a.state, some report⟩ k := by
  intro hrunning
  have hgoes : shot.state.GoesOn c (k + 1) := ⟨hs.running, hk hs.running, hs.unfinished⟩
  exact (hgoes.iterate ha hr hrunning).budget

theorem exists_shows (sys : Equations (StateM σ) α n) (observe : Snapshot α n → StateM τ Control)
    {c : Settings α} {k : Nat} {shot : Snapshot α n} (hk : shot.HasLeft c k) (w : σ) (t : τ) :
    ∃ seen o w' t', Shows sys observe c shot w t seen o w' t' := by
  induction k using Nat.strong_induction_on generalizing shot w t with
  | h k ih =>
    obtain ⟨control, t', ho⟩ := exists_run (observe shot) t
    cases control with
    | cancel => exact ⟨_, _, _, _, .cancelled ho⟩
    | proceed =>
      cases he : shot.ending? c with
      | some o => exact ⟨_, _, _, _, .ended ho he⟩
      | none =>
        -- A snapshot that does not end the search has some of the budget left.
        have hs := Snapshot.isInner_of_ending? he
        obtain ⟨l, rfl⟩ := hs.exists_left hk
        obtain ⟨a, v, ha⟩ := exists_run (shot.state.iterate sys c) w
        cases hr : a.result with
        | error b => exact ⟨_, _, _, _, .brokenDown ho he ha hr⟩
        | ok report =>
          obtain ⟨seen, o, w', t'', rest⟩ := ih l (Nat.lt_succ_self l) (hk.iterate hs ha hr) v t'
          exact ⟨_, _, _, _, .next ho he ha hr rest⟩

/-- The second computation does on the image of a state what the first does on the state. -/
def Carries (r : σ → ρ → S) {β : Type} (x : StateM σ β) (y : StateM S β) : Prop :=
  ∀ w u, y.run (r w u) = ((x.run w).1, r (x.run w).2 u)

theorem Carries.run {r : σ → ρ → S} {β : Type} {x : StateM σ β} {y : StateM S β} {a : β}
    {w w' : σ} {u : ρ} (h : Carries r x y) (hx : x.run w = (a, w')) :
    y.run (r w u) = (a, r w' u) := by
  rw [h, hx]

def Carries.correspondence (r : σ → ρ → S) : Correspondence (StateM σ) (StateM S) where
  Holds := Carries r
  holds_pure _ _ _ := rfl
  holds_bind h hf w u := by
    rw [run_bind_of_eq (h w u), hf]
    rfl

namespace Snapshot

variable {m : Type → Type} [Monad m] (sys : Equations m α n) (look : Snapshot α n → m Control)

/-- What a search does after a snapshot that was not cancelled. -/
def resume (c : Settings α) (k : Nat) (shot : Snapshot α n) : m (Outcome α n) :=
  match shot.state.conclusion? c with
  | some o => pure o
  | none =>
    if shot.report.isSome ∧ shot.state.passesStepTest c = true then
      pure (shot.state.root .stepSize)
    else searchFrom sys look c k shot.state

/-- What a search does from a snapshot on. -/
def pursue (c : Settings α) (k : Nat) (shot : Snapshot α n) : m (Outcome α n) := do
  match ← look shot with
  | .cancel => pure (shot.state.failure .cancelled)
  | .proceed => shot.resume sys look c k

variable {c : Settings α} {k : Nat} {shot : Snapshot α n}

theorem resume_of_ending? {o : Outcome α n} (hk : shot.HasLeft c k)
    (h : shot.ending? c = some o) : shot.resume sys look c k = pure o := by
  unfold ending? at h
  unfold resume
  cases hc : shot.state.conclusion? c with
  | some o' =>
    simp only [hc, Option.some.injEq] at h
    simp only [h]
  | none =>
    simp only [hc] at h ⊢
    by_cases hstep : shot.report.isSome ∧ shot.state.passesStepTest c = true
    · rw [if_pos hstep, Option.some.injEq] at h
      rw [if_pos hstep, h]
    · rw [if_neg hstep] at h ⊢
      by_cases hpassed : residualTest shot.state.f c.tolerance = .success
      · rw [if_pos hpassed, Option.some.injEq] at h
        rw [searchFrom_passed _ _ _ hpassed, h]
      · rw [if_neg hpassed] at h
        by_cases hlimit : c.maxIterations ≤ shot.state.iterations
        · have hleft := hk (State.conclusion?_eq_none_iff.mp hc)
          have hzero : k = 0 := by omega
          rw [if_pos hlimit, Option.some.injEq] at h
          rw [hzero, searchFrom, if_neg hpassed, h]
        · rw [if_neg hlimit] at h
          cases h

theorem resume_start {s : State α n} (hs : s.status = .running) :
    resume sys look c k ⟨s, none⟩ = searchFrom sys look c k s := by
  have hc : s.conclusion? c = none := State.conclusion?_eq_none_iff.mpr hs
  simp [resume, hc]

theorem IsInner.resume_eq (hs : shot.IsInner c) :
    shot.resume sys look c (k + 1) = (do
      let a ← shot.state.iterate sys c
      match a.result with
      | .error b => pure (a.state.brokenDown b)
      | .ok report => pursue sys look c k ⟨a.state, some report⟩) := by
  have hc : shot.state.conclusion? c = none := State.conclusion?_eq_none_iff.mpr hs.running
  simp only [resume, pursue, hc, if_neg hs.untested, Option.isSome_some, true_and]
  exact searchFrom_succ sys look k hs.unfinished

end Snapshot

variable {r : σ → τ × List (Showing σ α n) → S} {sys : Equations (StateM σ) α n}
  {observe : Snapshot α n → StateM τ Control} {sys' : Equations (StateM S) α n}
  {look : Snapshot α n → StateM S Control} {c : Settings α} {shot : Snapshot α n} {w w' : σ}
  {t t' : τ} {seen : List (Showing σ α n)} {o : Outcome α n}

theorem Shows.run (hsys : ∀ x, Carries r (sys x) (sys' x)) (hlook : Follows r observe look)
    {k : Nat} (hk : shot.HasLeft c k) (h : Shows sys observe c shot w t seen o w' t')
    (before : List (Showing σ α n)) :
    (shot.pursue sys' look c k).run (r w (t, before)) = (o, r w' (t', before ++ seen)) := by
  have hiterate {s : State α n} {v v' : σ} {a : Attempt α n} (u : τ × List (Showing σ α n))
      (ha : (s.iterate sys c).run v = (a, v')) :
      (s.iterate sys' c).run (r v u) = (a, r v' u) :=
    ((Carries.correspondence r).holds_iterate hsys c s).run ha
  have hproceed {shot : Snapshot α n} {v : σ} {u u' : τ} {k : Nat} (before : List (Showing σ α n))
      (ho : (observe shot).run u = (.proceed, u')) :
      (shot.pursue sys' look c k).run (r v (u, before)) =
        (shot.resume sys' look c k).run (r v (u', before ++ [⟨shot, v, .proceed⟩])) := by
    rw [Snapshot.pursue, run_bind_of_eq (hlook _ _ _ _ _ before ho)]
  induction h generalizing k before with
  | cancelled ho =>
    rw [Snapshot.pursue, run_bind_of_eq (hlook _ _ _ _ _ before ho)]
    rfl
  | ended ho he =>
    rw [hproceed before ho, Snapshot.resume_of_ending? _ _ hk he]
    rfl
  | brokenDown ho he ha hb =>
    have hs := Snapshot.isInner_of_ending? he
    obtain ⟨l, rfl⟩ := hs.exists_left hk
    rw [hproceed before ho, hs.resume_eq, run_bind_of_eq (hiterate _ ha)]
    simp only [hb]
    rfl
  | @next shot w _ _ _ _ _ _ _ _ _ ho he ha hr rest ih =>
    have hs := Snapshot.isInner_of_ending? he
    obtain ⟨l, rfl⟩ := hs.exists_left hk
    rw [hproceed before ho, hs.resume_eq, run_bind_of_eq (hiterate _ ha)]
    simp only [hr]
    have hrest := ih (hk.iterate hs ha hr) (before ++ [⟨shot, w, .proceed⟩])
    rw [List.append_assoc] at hrest
    exact hrest

theorem Shows.search_run {point : List α} {s : State α n} {v : σ}
    (hsys : ∀ x, Carries r (sys x) (sys' x)) (hlook : Follows r observe look)
    (hc : (State.create sys c point).run w = (.ok s, v))
    (h : Shows sys observe c ⟨s, none⟩ v t seen o w' t') :
    (search sys' look c point).run (r w (t, [])) = (o, r w' (t', seen)) := by
  obtain ⟨hrunning, hzero, -⟩ := State.create_running hc
  have hcreate := ((Carries.correspondence r).holds_create hsys c point).run (u := (t, [])) hc
  have hpursue := h.run hsys hlook (Snapshot.hasLeft_start c hzero) []
  rw [search, run_bind_of_eq hcreate]
  rw [Snapshot.pursue, Snapshot.resume_start _ _ hrunning] at hpursue
  exact hpursue

/-- A snapshot of an iteration that ended the run without a step. -/
def Snapshot.IsStepless (shot : Snapshot α n) : Prop :=
  shot.state.status = .jacobianSingular ∨
    shot.state.status = .success ∧ (shot.state.f.norm == 0) = true ∧ shot.report = some .settled

theorem State.iterate_counted {s : State α n} {a : Attempt α n} {report : Report α n}
    (hs : s.status = .running) (hi : s.iterations < c.maxIterations)
    (ha : (s.iterate sys c).run w = (a, w')) (hr : a.result = .ok report) :
    a.state.status ≠ .iterationLimit ∧
      (a.state.iterations = s.iterations + 1 ∨
        a.state.iterations = s.iterations ∧ Snapshot.IsStepless ⟨a.state, some report⟩) := by
  cases iterate_iterates ha with
  | ended hend => exact absurd hs hend
  | exhausted _ hlimit => omega
  | atRoot _ _ hf =>
    cases hr
    exact ⟨nofun, .inr ⟨rfl, .inr ⟨rfl, hf, rfl⟩⟩⟩
  | unprepared => cases hr
  | undetermined => cases hr
  | singular _ hp => exact ⟨nofun, .inr ⟨(prepare_samePlace hp).iterations, .inl rfl⟩⟩
  | @tried p step _ _ _ _ hp _ _ ht =>
    have hplace := (prepare_samePlace hp).trans (tested_samePlace p step)
    cases tryStep_tries ht with
    | failed => cases hr
    | unrefreshed => cases hr
    | judged =>
      refine ⟨commit_status_ne_iterationLimit _ _ _, .inl ?_⟩
      rw [commit_iterations, hplace.iterations]
    | refreshed _ _ hrefresh =>
      refine ⟨commit_status_ne_iterationLimit _ _ _, .inl ?_⟩
      rw [commit_iterations, (hplace.trans (refresh_samePlace hrefresh)).iterations]

omit [SingularValues α] in
theorem Snapshot.IsStepless.ending? {shot : Snapshot α n} (h : shot.IsStepless) :
    shot.ending? c ≠ none := by
  intro hnone
  have hrunning := (isInner_of_ending? hnone).running
  rcases h with hs | ⟨hs, -⟩
  · rw [hs] at hrunning
    cases hrunning
  · rw [hs] at hrunning
    cases hrunning

namespace Shows

theorem of_ending? (h : Shows sys observe c shot w t seen o w' t') (he : shot.ending? c ≠ none) :
    w' = w ∧ ∃ control, seen = [⟨shot, w, control⟩] := by
  cases h with
  | cancelled => exact ⟨rfl, _, rfl⟩
  | ended => exact ⟨rfl, _, rfl⟩
  | brokenDown _ hnone => exact absurd hnone he
  | next _ hnone => exact absurd hnone he

theorem status_ne (h : Shows sys observe c shot w t seen o w' t')
    (hs : shot.state.status ≠ .iterationLimit) :
    ∀ showing ∈ seen, showing.shot.state.status ≠ .iterationLimit := by
  induction h with
  | cancelled => simpa using hs
  | ended => simpa using hs
  | brokenDown => simpa using hs
  | next _ he ha hr _ ih =>
    have hinner := Snapshot.isInner_of_ending? he
    have hnext := (State.iterate_counted hinner.running hinner.inBudget ha hr).1
    exact List.forall_mem_cons.mpr ⟨hs, ih hnext⟩

end Shows

/-- The counts go up by one from `first`. Only the last may stand twice, and then the second stands
for an iteration without a step. -/
def InOrder (first : Nat) (seen : List (Showing σ α n)) : Prop :=
  ∃ m, seen.map (·.shot.state.iterations) = List.range' first (m + 1) ∨
    seen.map (·.shot.state.iterations) = List.range' first (m + 1) ++ [first + m] ∧
      ∃ before last, seen = before ++ [last] ∧ last.shot.IsStepless

omit [SingularValues α] in
theorem InOrder.cons {first : Nat} {showing : Showing σ α n} (h : InOrder (first + 1) seen)
    (hshowing : showing.shot.state.iterations = first) : InOrder first (showing :: seen) := by
  obtain ⟨m, hcounts | ⟨hcounts, before, last, hseen, hlast⟩⟩ := h
  · refine ⟨m + 1, .inl ?_⟩
    rw [List.map_cons, hcounts, hshowing]
    exact List.range'_succ.symm
  · refine ⟨m + 1, .inr ⟨?_, showing :: before, last, congrArg (showing :: ·) hseen, hlast⟩⟩
    have hlast : first + 1 + m = first + (m + 1) := by omega
    rw [List.map_cons, hcounts, hshowing, hlast]
    exact congrArg (· ++ _) List.range'_succ.symm

theorem Shows.inOrder (h : Shows sys observe c shot w t seen o w' t') :
    InOrder shot.state.iterations seen := by
  induction h with
  | cancelled => exact ⟨0, .inl rfl⟩
  | ended => exact ⟨0, .inl rfl⟩
  | brokenDown => exact ⟨0, .inl rfl⟩
  | @next shot w _ _ _ _ _ a report _ _ _ he ha hr rest ih =>
    have hinner := Snapshot.isInner_of_ending? he
    rcases (State.iterate_counted hinner.running hinner.inBudget ha hr).2 with
      hcount | ⟨hcount, hstepless⟩
    · rw [hcount] at ih
      exact ih.cons rfl
    · obtain ⟨-, control, rfl⟩ := rest.of_ending? hstepless.ending?
      refine ⟨0, .inr ⟨?_, [⟨shot, w, .proceed⟩], _, rfl, hstepless⟩⟩
      exact congrArg (fun i => [shot.state.iterations, i]) hcount

/-- Iterations from a state on, each in the state that the one before left. -/
inductive Iterations (sys : Equations (StateM σ) α n) (c : Settings α) :
    State α n → σ → List (Attempt α n) → σ → Prop
  | none {s : State α n} {w : σ} : Iterations sys c s w [] w
  | cons {s : State α n} {w v w' : σ} {a : Attempt α n} {attempts : List (Attempt α n)}
      (ha : (s.iterate sys c).run w = (a, v)) (rest : Iterations sys c a.state v attempts w') :
      Iterations sys c s w (a :: attempts) w'

def Attempt.shot? (a : Attempt α n) : Option (Snapshot α n) :=
  match a.result with
  | .ok report => some ⟨a.state, some report⟩
  | .error _ => none

namespace Shows

/-- The system is called by iterations within the budget only, and each that comes to an end is
shown. -/
theorem exists_iterations (h : Shows sys observe c shot w t seen o w' t')
    (hs : shot.state.iterations ≤ c.maxIterations) :
    ∃ attempts, Iterations sys c shot.state w attempts w' ∧
      shot.state.iterations + attempts.length ≤ c.maxIterations ∧
      seen.map Showing.shot = shot :: attempts.filterMap Attempt.shot? := by
  induction h with
  | cancelled => exact ⟨[], .none, hs, rfl⟩
  | ended => exact ⟨[], .none, hs, rfl⟩
  | @brokenDown _ _ _ _ _ a _ _ he ha hb =>
    have hbudget := (Snapshot.isInner_of_ending? he).inBudget
    have hshot : a.shot? = none := by
      rw [Attempt.shot?, hb]
    exact ⟨[a], .cons ha .none, hbudget, by simp [hshot]⟩
  | @next shot _ _ _ _ _ _ a report _ _ _ he ha hr rest ih =>
    have hinner := Snapshot.isInner_of_ending? he
    have hbudget := hinner.inBudget
    have hshot : a.shot? = some ⟨a.state, some report⟩ := by
      rw [Attempt.shot?, hr]
    rcases (State.iterate_counted hinner.running hbudget ha hr).2 with
      hcount | ⟨hcount, hstepless⟩
    · obtain ⟨attempts, hattempts, hlength, hshots⟩ := ih (hcount ▸ hbudget)
      change a.state.iterations + _ ≤ _ at hlength
      refine ⟨a :: attempts, .cons ha hattempts, ?_, ?_⟩
      · rw [List.length_cons]
        omega
      · rw [List.map_cons, hshots, List.filterMap_cons_some hshot]
    · obtain ⟨hw, control, rfl⟩ := rest.of_ending? hstepless.ending?
      exact ⟨[a], .cons ha (hw ▸ .none), hbudget, by simp [hshot]⟩

theorem map_shot (h : Shows sys observe c shot w t seen o w' t') :
    ∃ rest, seen.map Showing.shot = shot :: rest := by
  cases h with
  | cancelled => exact ⟨[], rfl⟩
  | ended => exact ⟨[], rfl⟩
  | brokenDown => exact ⟨[], rfl⟩
  | next => exact ⟨_, rfl⟩

theorem cancelled_last (h : Shows sys observe c shot w t seen o w' t') :
    ∀ showing ∈ seen, showing.control = .cancel →
      (∃ before, seen = before ++ [showing]) ∧
        o = showing.shot.state.failure .cancelled ∧ w' = showing.world := by
  induction h with
  | cancelled =>
    intro showing hshowing _
    rw [List.mem_singleton.mp hshowing]
    exact ⟨⟨[], rfl⟩, rfl, rfl⟩
  | ended =>
    intro showing hshowing hcancel
    rw [List.mem_singleton.mp hshowing] at hcancel
    cases hcancel
  | brokenDown =>
    intro showing hshowing hcancel
    rw [List.mem_singleton.mp hshowing] at hcancel
    cases hcancel
  | next _ _ _ _ _ ih =>
    intro showing hshowing hcancel
    rcases List.mem_cons.mp hshowing with rfl | hshowing
    · cases hcancel
    · obtain ⟨⟨before, hseen⟩, ho, hw⟩ := ih showing hshowing hcancel
      exact ⟨⟨_ :: before, congrArg _ hseen⟩, ho, hw⟩

/-- Without the observer's cancelling, the same course goes on. -/
theorem proceeding {k : Nat} (hk : shot.HasLeft c k)
    (h : Shows sys observe c shot w t seen o w' t') :
    ∃ all o₀ w₀, Shows sys proceeding c shot w () all o₀ w₀ () ∧
      seen.map Showing.shot <+: all.map Showing.shot ∧
      ((∀ showing ∈ seen, showing.control = .proceed) → all = seen ∧ o₀ = o ∧ w₀ = w') := by
  induction h generalizing k with
  | @cancelled shot w =>
    obtain ⟨all, o₀, w₀, t₀, hall⟩ := exists_shows sys RootFinder.proceeding hk w ()
    obtain ⟨rest, hrest⟩ := hall.map_shot
    refine ⟨all, o₀, w₀, hall, ?_, ?_⟩
    · rw [hrest]
      exact List.prefix_append [_] rest
    · intro hproceed
      cases hproceed _ List.mem_cons_self
  | ended ho he =>
    exact ⟨_, _, _, .ended rfl he, List.prefix_rfl, fun _ => ⟨rfl, rfl, rfl⟩⟩
  | brokenDown ho he ha hb =>
    exact ⟨_, _, _, .brokenDown rfl he ha hb, List.prefix_rfl, fun _ => ⟨rfl, rfl, rfl⟩⟩
  | next ho he ha hr rest ih =>
    have hinner := Snapshot.isInner_of_ending? he
    obtain ⟨l, rfl⟩ := hinner.exists_left hk
    obtain ⟨all, o₀, w₀, hall, hprefix, hsame⟩ := ih (hk.iterate hinner ha hr)
    refine ⟨_, o₀, w₀, .next rfl he ha hr hall, ?_, ?_⟩
    · simpa using hprefix
    · intro hproceed
      obtain ⟨rfl, rfl, rfl⟩ := hsame (List.forall_mem_cons.mp hproceed).2
      exact ⟨rfl, rfl, rfl⟩

end Shows

/-- What holds of a search from the state `s` on, whatever the observer does. After a snapshot that
was cancelled the system stays as it is, so that no further call is made. -/
structure Protocol (sys : Equations (StateM σ) α n) (c : Settings α) (s : State α n) (v : σ)
    (seen : List (Showing σ α n)) (o : Outcome α n) (w' : σ) : Prop where
  iterations : ∃ attempts, Iterations sys c s v attempts w' ∧ attempts.length ≤ c.maxIterations ∧
    seen.map Showing.shot = ⟨s, none⟩ :: attempts.filterMap Attempt.shot?
  inOrder : InOrder 0 seen
  status_ne : ∀ showing ∈ seen, showing.shot.state.status ≠ .iterationLimit
  cancelled : ∀ showing ∈ seen, showing.control = .cancel →
    (∃ before, seen = before ++ [showing]) ∧
      o = showing.shot.state.failure .cancelled ∧ w' = showing.world

theorem Shows.protocol {s : State α n} {v : σ}
    (hcreated : s.status = .running ∧ s.iterations = 0)
    (h : Shows sys observe c ⟨s, none⟩ v t seen o w' t') : Protocol sys c s v seen o w' := by
  obtain ⟨hrunning, hzero⟩ := hcreated
  have hinOrder : InOrder s.iterations seen := h.inOrder
  have hstatus : s.status ≠ .iterationLimit := by
    rw [hrunning]
    nofun
  obtain ⟨attempts, hattempts, hlength, hshots⟩ :=
    h.exists_iterations (hzero ▸ Nat.zero_le _ : s.iterations ≤ c.maxIterations)
  refine ⟨⟨attempts, hattempts, by omega, hshots⟩, hzero ▸ hinOrder, ?_, h.cancelled_last⟩
  exact h.status_ne hstatus

/-- A search follows the protocol with every observer. What the observer sees are the first
snapshots of the search that is never cancelled, and without a cancellation all of them, with the
same outcome. -/
theorem search_follows_protocol {point : List α} {s : State α n} {v : σ}
    (hc : (State.create sys c point).run w = (.ok s, v))
    (h : (search (sys.beside τ) (watching observe) c point).run (w, t) = (o, (w', t'))) :
    ∃ seen all o₀ w₀,
      (search (sys.beside _) (attending observe) c point).run (w, (t, [])) =
        (o, (w', (t', seen))) ∧
      (search (sys.beside _) (attending proceeding) c point).run (w, ((), [])) =
        (o₀, (w₀, ((), all))) ∧
      (solve sys c point).run w = (o₀, w₀) ∧
      Protocol sys c s v seen o w' ∧
      seen.map Showing.shot <+: all.map Showing.shot ∧
      ((∀ showing ∈ seen, showing.control = .proceed) → all = seen ∧ o₀ = o ∧ w₀ = w') := by
  obtain ⟨hrunning, hzero, -⟩ := State.create_running hc
  have hleft := Snapshot.hasLeft_start c hzero
  obtain ⟨seen, o₁, w₁, t₁, hshows⟩ := exists_shows sys observe hleft v t
  obtain ⟨all, o₀, w₀, hall, hprefix, hsame⟩ := hshows.proceeding hleft
  have hbeside (ρ : Type) (x : Vec α n) : Carries (fun w u => (w, u)) (sys x) (sys.beside ρ x) :=
    sys.beside_call ρ x
  have hwatching : (search (sys.beside τ) (watching observe) c point).run (w, t) =
      (o₁, (w₁, t₁)) :=
    hshows.search_run (fun _ _ _ => rfl) (watching_follows observe) hc
  have hattending := hshows.search_run (hbeside _) (attending_follows observe) hc
  have hproceeding := hall.search_run (hbeside _) (attending_follows _) hc
  have hsolve : (solve sys c point).run w = (o₀, w₀) :=
    hall.search_run (fun _ _ _ => rfl) proceed_follows hc
  rw [h] at hwatching
  cases hwatching
  exact ⟨seen, all, o₀, w₀, hattending, hproceeding, hsolve, hshows.protocol ⟨hrunning, hzero⟩,
    hprefix, hsame⟩

/-- The observer that counts what it is shown and cancels after so many snapshots. -/
def cancelAfter (k : Nat) (_ : Snapshot α n) : StateM Nat Control :=
  fun count => (if count = k then .cancel else .proceed, count + 1)

theorem search_follows_protocol_reciprocal :
    ∃ s v seen o w' t',
      (State.create (interrupted [] reciprocal) .standard [1]).run 0 = (.ok s, v) ∧
      (search ((interrupted [] reciprocal).beside Nat) (watching (cancelAfter 2)) .standard
        [1]).run (0, 0) = (o, (w', t')) ∧
      Protocol (interrupted [] reciprocal) .standard s v seen o w' ∧
      ∃ showing ∈ seen, showing.control = .cancel ∧ showing.shot.state.iterations = 2 ∧
        o = showing.shot.state.failure .cancelled ∧ w' = showing.world := by
  have hstart : ((State.create (interrupted [] reciprocal) .standard [1]).run 0).1.isOk = true := by
    decide +kernel
  have hcancel : ∃ showing ∈ ((search ((interrupted [] reciprocal).beside _)
      (attending (cancelAfter 2)) .standard [1]).run (0, (0, []))).2.2.2,
      showing.control = .cancel ∧ showing.shot.state.iterations = 2 := by decide +kernel
  obtain ⟨answer, v, hc⟩ := exists_run (State.create (interrupted [] reciprocal) .standard [1]) 0
  obtain ⟨o, ⟨w', t'⟩, h⟩ := exists_run (search ((interrupted [] reciprocal).beside Nat)
    (watching (cancelAfter 2)) .standard [1]) (0, 0)
  rw [hc] at hstart
  cases answer with
  | error e => cases hstart
  | ok s =>
    obtain ⟨seen, all, o₀, w₀, hattending, -, -, hprotocol, -, -⟩ := search_follows_protocol hc h
    rw [hattending] at hcancel
    obtain ⟨showing, hseen, hcontrol, hcount⟩ := hcancel
    obtain ⟨-, ho, hw⟩ := hprotocol.cancelled showing hseen hcontrol
    exact ⟨s, v, seen, o, w', t', hc, h, hprotocol, showing, hseen, hcontrol, hcount, ho, hw⟩

end RootFinder
