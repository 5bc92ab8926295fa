import RootFinder.Proofs.Decrease
import RootFinder.Proofs.Double

/-! The status of a run tells its history. The count of slow iterations is the length of the stretch
of slow trials that ends with the latest one, so a run gives up for slow progress exactly when a
whole window of its trials was slow. Only iterations that judged a step belong to the history; a
start begins a new one. -/

namespace RootFinder

open Scalar LawfulArithmetic

variable {σ α : Type} {n : Nat}

theorem le_length_takeWhile_iff {β : Type} {p : β → Bool} {k : Nat} {l : List β} :
    k ≤ (l.takeWhile p).length ↔ k ≤ l.length ∧ ∀ b ∈ l.take k, p b = true := by
  induction l generalizing k with
  | nil => simp
  | cons b l ih =>
    cases k with
    | zero => simp
    | succ k =>
      cases hb : p b with
      | false => simp [List.takeWhile, hb]
      | true => simp [List.takeWhile, hb, ih]

/-- The trial of an iteration that judged a step. -/
def Attempt.trials (a : Attempt α n) : List (Trial α n) :=
  match a.result with
  | .ok (.tried _ t) => [t]
  | _ => []

theorem Attempt.trials_of_tried {a : Attempt α n} {p : Preparation α n} {t : Trial α n}
    (h : a.result = .ok (.tried p t)) : a.trials = [t] := by
  rw [trials, h]

theorem Attempt.trials_of_error {a : Attempt α n} {b : Breakdown α n} (h : a.result = .error b) :
    a.trials = [] := by
  rw [trials, h]

variable [Scalar α]

namespace State

/-- A judged step leaves neither of the statuses that an iteration sets without one. -/
theorem commit_status_ne_iterationLimit (c : Settings α) (s : State α n) (t : Trial α n) :
    (s.commit c t).status ≠ .iterationLimit := by
  rw [commit_status, verdict]
  split
  · decide
  · split <;> decide

theorem verdict_eq_noProgress_iff {c : Settings α} {s : State α n} {accepted : Bool} :
    s.verdict c accepted = .noProgress ↔ s.verdict c accepted ≠ .success ∧
      (accepted = false ∧ s.radius ≤ c.minRadius ∨ c.slowLimit ≤ s.slow) := by
  unfold verdict
  split
  · simp
  · split
    · next hstuck => simpa using hstuck
    · next hstuck => simpa using hstuck

theorem verdict_eq_running_iff {c : Settings α} {s : State α n} {accepted : Bool} :
    s.verdict c accepted = .running ↔
      s.verdict c accepted ≠ .success ∧ s.verdict c accepted ≠ .noProgress := by
  unfold verdict
  split
  · simp
  · split <;> simp

variable [SingularValues α]

/-- A run with the trials since its last start, the latest first. -/
inductive History (sys : Equations (StateM σ) α n) (c : Settings α) :
    State α n → List (Trial α n) → Prop
  | create {point : List α} {w w' : σ} {s : State α n}
      (h : (create sys c point).run w = (.ok s, w')) : History sys c s []
  | iterate {w w' : σ} {s : State α n} {a : Attempt α n} {ts : List (Trial α n)}
      (hs : History sys c s ts) (h : (s.iterate sys c).run w = (a, w')) :
      History sys c a.state (a.trials ++ ts)
  | restart {point : List α} {w w' : σ} {s t : State α n} {ts : List (Trial α n)}
      (hs : History sys c s ts) (h : (s.restart sys c point).run w = ((t, .ok ()), w')) :
      History sys c t []
  | refused {point : List α} {w w' : σ} {s t : State α n} {e : SolveError} {ts : List (Trial α n)}
      (hs : History sys c s ts) (h : (s.restart sys c point).run w = ((t, .error e), w')) :
      History sys c t ts

variable {sys : Equations (StateM σ) α n} {c : Settings α} {s : State α n} {w w' : σ}
  {a : Attempt α n}

theorem Reachable.exists_history (h : s.Reachable sys c) : ∃ ts, History sys c s ts := by
  induction h with
  | create h => exact ⟨[], .create h⟩
  | iterate _ h ih =>
    obtain ⟨ts, hs⟩ := ih
    exact ⟨_, hs.iterate h⟩
  | @restart _ _ _ _ _ result _ h ih =>
    obtain ⟨ts, hs⟩ := ih
    cases result with
    | ok => exact ⟨[], hs.restart h⟩
    | error e => exact ⟨ts, hs.refused h⟩

theorem History.reachable (h : History sys c s ts) : s.Reachable sys c := by
  induction h with
  | create h => exact .create h
  | iterate _ h ih => exact ih.iterate h
  | restart _ h ih => exact ih.restart h
  | refused _ h ih => exact ih.restart h

/-- What an iteration comes to: a breakdown and an end without a trial leave the place of the run;
else a judged step is carried out. -/
inductive Concludes (sys : Equations (StateM σ) α n) (c : Settings α) (s : State α n) (w : σ)
    (a : Attempt α n) : Prop
  | broke {b : Breakdown α n} (hr : a.result = .error b) (h : SamePlace s a.state)
  | settled {report : Report α n} (hr : a.result = .ok report) (ht : a.trials = [])
      (hterminal : a.state.status ≠ .running)
      (hlimit : a.state.status = .iterationLimit → s.status = .iterationLimit ∨
        c.maxIterations ≤ s.iterations)
      (h : SamePlace { s with status := a.state.status } a.state)
  | committed {p : Preparation α n} {t : Trial α n} {q : State α n}
      (hr : a.result = .ok (.tried p t)) (hs : s.Active c) (hj : Judges sys c s w p t q)
      (h : a.state = q.commit c t)

theorem iterate_concludes (h : (s.iterate sys c).run w = (a, w')) : Concludes sys c s w a := by
  cases iterate_iterates h with
  | ended hs => exact .settled rfl rfl hs .inl (.refl s)
  | exhausted _ hi => exact .settled rfl rfl (by simp) (fun _ => .inr hi) (.refl _)
  | atRoot => exact .settled rfl rfl (by simp) nofun (.refl _)
  | unprepared => exact .broke rfl (.refl s)
  | undetermined _ hp => exact .broke rfl (prepare_samePlace hp)
  | singular _ hp =>
    exact .settled rfl rfl (by simp) nofun ((prepare_samePlace hp).withStatus .jacobianSingular)
  | @tried p step _ _ _ hs hp hd hstep ht =>
    have hplace := prepare_samePlace hp
    cases tryStep_tries ht with
    | failed => exact .broke rfl (hplace.trans (propose_samePlace _ _))
    | unrefreshed => exact .broke rfl (hplace.trans (tested_samePlace _ _))
    | judged =>
      obtain ⟨q, hj, ha⟩ := judges_of_tried h rfl
      exact .committed rfl hs hj ha
    | refreshed =>
      obtain ⟨q, hj, ha⟩ := judges_of_tried h rfl
      exact .committed rfl hs hj ha

end State

def Trial.isSlow (t : Trial α n) : Bool :=
  !decide (1e-3 ≤ t.gain.actual)

/-- The last trials, as many as it takes to give up, were all slow. -/
def Settings.GivesUp (c : Settings α) (ts : List (Trial α n)) : Prop :=
  c.slowLimit ≤ ts.length ∧ ∀ t ∈ ts.take c.slowLimit, t.gain.actual < 1e-3

theorem Settings.givesUp_iff [LawfulArithmetic α] {c : Settings α} {ts : List (Trial α n)}
    (hts : ∀ t ∈ ts, isNaN t.gain.actual = false) :
    c.GivesUp ts ↔ c.slowLimit ≤ (ts.takeWhile Trial.isSlow).length := by
  rw [le_length_takeWhile_iff]
  refine and_congr_right fun _ => forall₂_congr fun t ht => ?_
  rw [Trial.isSlow, Bool.not_eq_true', decide_eq_false_iff_not]
  constructor
  · exact fun hlt => not_le_of_lt hlt
  · exact lt_of_not_le (isNaN_of_lt permille_pos).2 (hts t (List.mem_of_mem_take ht))

namespace State

/-- How the counts of a run and its status come from the trials since its last start. -/
structure Counts (c : Settings α) (s : State α n) (ts : List (Trial α n)) : Prop where
  iterations : s.iterations = ts.length
  inBudget : s.iterations ≤ c.maxIterations
  limit : s.status = .iterationLimit → s.iterations = c.maxIterations
  slow : s.slow = (ts.takeWhile Trial.isSlow).length
  defined : ∀ t ∈ ts, isNaN t.gain.actual = false

theorem start_counts {sys : Equations (StateM σ) α n} {c : Settings α} {point : List α} {w w' : σ}
    {s : State α n} (h : (start sys c point).run w = (.ok s, w')) : Counts c s [] := by
  obtain ⟨x, f, d, v, -, -, -, -, -, rfl⟩ := start_eq_ok h
  exact ⟨rfl, Nat.zero_le _, nofun, rfl, nofun⟩

theorem Counts.of_samePlace {c : Settings α} {s t : State α n} {ts : List (Trial α n)}
    (hs : Counts c s ts) (h : SamePlace s t) : Counts c t ts where
  iterations := h.iterations.trans hs.iterations
  inBudget := h.iterations ▸ hs.inBudget
  limit hstatus := h.iterations.trans (hs.limit (h.status.symm.trans hstatus))
  slow := h.slow.trans hs.slow
  defined := hs.defined

theorem Counts.commit {c : Settings α} {q : State α n} {t : Trial α n} {ts : List (Trial α n)}
    (hq : Counts c q ts) (hbudget : q.iterations < c.maxIterations)
    (ht : isNaN t.gain.actual = false) : Counts c (q.commit c t) (t :: ts) where
  iterations := by
    rw [commit_iterations, hq.iterations]
    rfl
  inBudget := by
    rw [commit_iterations]
    exact hbudget
  limit hstatus := absurd hstatus (commit_status_ne_iterationLimit c q t)
  slow := by
    rw [commit_slow, hq.slow]
    by_cases hfast : 1e-3 ≤ t.gain.actual <;> simp [List.takeWhile, Trial.isSlow, hfast]
  defined := List.forall_mem_cons.mpr ⟨ht, hq.defined⟩

variable [SingularValues α] [LawfulArithmetic α] {sys : Equations (StateM σ) α n} {c : Settings α}
  {s : State α n} {w w' : σ} {a : Attempt α n} {ts : List (Trial α n)}

theorem Judges.isNaN_actual {p : Preparation α n} {t : Trial α n} {q : State α n}
    (h : Judges sys c s w p t q) : isNaN t.gain.actual = false := by
  rw [h.judgement, Preparation.trial_gain]
  exact Gain.isNaN_actual _ _ _ _

theorem Counts.iterate (hs : Counts c s ts) (h : (s.iterate sys c).run w = (a, w')) :
    Counts c a.state (a.trials ++ ts) := by
  cases iterate_concludes h with
  | broke hr hplace =>
    rw [Attempt.trials_of_error hr]
    exact hs.of_samePlace hplace
  | settled _ ht _ hlimit hplace =>
    rw [ht]
    refine Counts.of_samePlace (s := { s with status := a.state.status }) ?_ hplace
    refine ⟨hs.iterations, hs.inBudget, fun hstatus => ?_, hs.slow, hs.defined⟩
    rcases hlimit hstatus with hbefore | hreached
    · exact hs.limit hbefore
    · exact Nat.le_antisymm hs.inBudget hreached
  | committed hr hactive hj ha =>
    have hbudget := hj.samePlace.iterations ▸ hactive.inBudget
    rw [ha, Attempt.trials_of_tried hr]
    exact (hs.of_samePlace hj.samePlace).commit hbudget hj.isNaN_actual

theorem History.counts (h : History sys c s ts) : Counts c s ts := by
  induction h with
  | create h => exact start_counts (create_eq_ok h).2.2
  | iterate _ h ih => exact ih.iterate h
  | restart _ h => exact start_counts (restart_eq_ok h)
  | refused _ h ih =>
    rw [(restart_eq_error h).1]
    exact ih

/-- The status after the trial `t` is what the trial and the ones before it say. -/
structure Judged (c : Settings α) (s : State α n) (t : Trial α n) (ts : List (Trial α n)) :
    Prop where
  success : s.status = .success ↔
    t.accepted = true ∧ residualTest s.f c.tolerance = .success
  noProgress : s.status = .noProgress ↔ s.status ≠ .success ∧
    (t.accepted = false ∧ s.radius ≤ c.minRadius ∨ c.GivesUp (t :: ts))
  running : s.status = .running ↔ s.status ≠ .success ∧ s.status ≠ .noProgress

theorem Judges.judged {p : Preparation α n} {t : Trial α n} {q : State α n}
    (hj : Judges sys c s w p t q) (hs : Counts c s ts) (hactive : s.Active c) :
    Judged c (q.commit c t) t ts := by
  have hbudget := hj.samePlace.iterations ▸ hactive.inBudget
  have hcounts := (hs.of_samePlace hj.samePlace).commit hbudget hj.isNaN_actual
  constructor
  · rw [commit_status]
    exact verdict_eq_success_iff
  · rw [Settings.givesUp_iff hcounts.defined, ← hcounts.slow, commit_status]
    exact verdict_eq_noProgress_iff
  · rw [commit_status]
    exact verdict_eq_running_iff

/-- Verdicts are those of the history: the counts and the limit, the iterations that leave the run
where it is, and the status after each trial. -/
theorem verdicts_follow_history (hs : History sys c s ts) :
    (s.iterations = ts.length ∧ s.iterations ≤ c.maxIterations ∧
      (s.status = .iterationLimit → s.iterations = c.maxIterations)) ∧
    ∀ w a w', (s.iterate sys c).run w = (a, w') →
      (s.status ≠ .running → a = ⟨s, .ok .settled⟩) ∧
      (∀ b, a.result = .error b → a.trials = [] ∧ SamePlace s a.state) ∧
      (∀ report, a.result = .ok report → a.state.iterations ≠ s.iterations + 1 →
        a.trials = [] ∧ a.state.x = s.x ∧ a.state.f = s.f ∧ a.state.radius = s.radius ∧
          a.state.iterations = s.iterations ∧ a.state.status ≠ .running) ∧
      (a.state.iterations = s.iterations + 1 →
        ∃ p t, a.result = .ok (.tried p t) ∧ t = p.trial c t.step t.value ∧ a.trials = [t] ∧
          Judged c a.state t ts) := by
  have hcounts := hs.counts
  refine ⟨⟨hcounts.iterations, hcounts.inBudget, hcounts.limit⟩, fun w a w' h => ?_⟩
  refine ⟨fun hterminal => ?_, ?_⟩
  · have hended : (s.iterate sys c).run w = (⟨s, .ok .settled⟩, w) :=
      (Iterates.ended hterminal).run
    rw [hended] at h
    cases h
    rfl
  cases iterate_concludes h with
  | broke hr hplace =>
    refine ⟨fun b _ => ⟨Attempt.trials_of_error hr, hplace⟩, fun report hok => ?_,
      fun hcommitted => ?_⟩
    · rw [hr] at hok
      cases hok
    · rw [hplace.iterations] at hcommitted
      omega
  | settled hr ht hterminal _ hplace =>
    have hiterations : a.state.iterations = s.iterations := hplace.iterations
    refine ⟨fun b hb => ?_, fun _ _ _ => ?_, fun hcommitted => by omega⟩
    · rw [hr] at hb
      cases hb
    · exact ⟨ht, hplace.x, hplace.f, hplace.radius, hplace.iterations, hterminal⟩
  | @committed p t q hr hactive hj ha =>
    have hone : a.state.iterations = s.iterations + 1 := by
      rw [ha, commit_iterations, hj.samePlace.iterations]
    refine ⟨fun b hb => ?_, fun _ _ hnot => absurd hone hnot, fun _ => ?_⟩
    · rw [hr] at hb
      cases hb
    · exact ⟨p, t, hr, hj.judgement, Attempt.trials_of_tried hr, ha ▸ hj.judged hcounts hactive⟩

end State

def Settings.hasty : Settings Float :=
  { Settings.standard with slowLimit := 3 }

/-- A parabola that does not reach zero. -/
def lifted (x : Vec Float 1) : Except EvalError (Vec Float 1) :=
  .ok (Vector.mk #[Vec.first x * Vec.first x + 1] rfl)

/-- The third slow trial in a row ends the run, while the radius could still shrink. -/
theorem State.verdicts_follow_history_lifted :
    ∃ (s : State Float 1) (ts : List (Trial Float 1)) (a : Attempt Float 1) (t : Trial Float 1)
      (w w' : Nat), s.History (interrupted [] lifted) .hasty ts ∧ ts.length = 5 ∧
      (s.iterate (interrupted [] lifted) .hasty).run w = (a, w') ∧ a.trials = [t] ∧
      a.state.status = .noProgress ∧ ¬ a.state.radius ≤ Settings.hasty.minRadius ∧
      Settings.hasty.GivesUp (t :: ts) := by
  obtain ⟨s, w, hs, h⟩ := exists_reachable (interrupted [] lifted) .hasty [3] 5 0
    (fun s w =>
      let a := ((s.iterate (interrupted [] lifted) .hasty).run w).1
      decide (s.iterations = 5 ∧ a.state.iterations = 6 ∧ a.state.status = .noProgress ∧
        ¬ a.state.radius ≤ Settings.hasty.minRadius))
    (by decide +kernel)
  obtain ⟨hfive, hsix, hend, hradius⟩ := of_decide_eq_true h
  obtain ⟨ts, hhistory⟩ := hs.exists_history
  obtain ⟨⟨hlength, -⟩, hiterate⟩ := verdicts_follow_history hhistory
  obtain ⟨-, -, -, hcommitted⟩ := hiterate w _ _ rfl
  obtain ⟨p, t, -, -, ht, hjudged⟩ := hcommitted (hsix.trans (by omega))
  have hgivesUp := (hjudged.noProgress.mp hend).2.resolve_left fun hsmall => hradius hsmall.2
  exact ⟨s, ts, _, t, w, _, hhistory, hlength.symm.trans hfive, rfl, ht, hend, hradius, hgivesUp⟩

end RootFinder
