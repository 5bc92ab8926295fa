import RootFinder.Proofs.Calls
import RootFinder.Proofs.Consistency
import RootFinder.Proofs.Freshness
import RootFinder.Proofs.History

/-! What the calls of a run are made for. A start asks at its point and its neighbours, a trial
asks where its step leads, and a refresh asks at the neighbours of the point. A Jacobian is
differenced anew only if it carries updates, and only a step that was taken updates it: so there
are no more refreshes than taken steps, and no point is differenced at twice. A run counts all of
these calls. It does not count the one of another start that is refused, because a residual there
is not finite. -/

namespace RootFinder

open Scalar LawfulArithmetic

variable {σ α : Type} {n : Nat}

/-- What a call or several are made for. -/
inductive Task (α : Type) (n : Nat)
  | start (x f : Vec α n)
  | trial (point : Vec α n) (accepted : Bool)
  | refresh (x f : Vec α n)
  /-- Another start, refused for its residuals. -/
  | refused (x : Vec α n)

namespace Task

@[simp]
def isTrial : Task α n → Bool
  | trial .. => true
  | _ => false

@[simp]
def isAccepted : Task α n → Bool
  | trial _ accepted => accepted
  | _ => false

@[simp]
def isRefresh : Task α n → Bool
  | refresh .. => true
  | _ => false

@[simp]
def isRefused : Task α n → Bool
  | refused _ => true
  | _ => false

/-- The point at which a Jacobian was differenced, and its residuals. -/
def differenced? : Task α n → Option (Vec α n × Vec α n)
  | start x f => some (x, f)
  | trial .. => none
  | refresh x f => some (x, f)
  | refused _ => none

@[simp]
def points [Scalar α] (relative : α) : Task α n → List (Vec α n)
  | start x _ => x :: Jacobian.neighbours relative x
  | trial x _ => [x]
  | refresh x _ => Jacobian.neighbours relative x
  | refused x => [x]

end Task

/-- The work of a run, the latest first. -/
abbrev Agenda (α : Type) (n : Nat) := List (Task α n)

namespace Agenda

def trials (tasks : Agenda α n) : Nat :=
  tasks.countP Task.isTrial

def taken (tasks : Agenda α n) : Nat :=
  tasks.countP Task.isAccepted

def refreshes (tasks : Agenda α n) : Nat :=
  tasks.countP Task.isRefresh

def refusals (tasks : Agenda α n) : Nat :=
  tasks.countP Task.isRefused

def differenced (tasks : Agenda α n) : List (Vec α n × Vec α n) :=
  tasks.filterMap Task.differenced?

/-- The points of all calls, the first one first. -/
def points [Scalar α] (relative : α) (tasks : Agenda α n) : List (Vec α n) :=
  tasks.reverse.flatMap (Task.points relative)

/-- A step was taken after the latest differencing. -/
def takenSince : Agenda α n → Bool
  | .trial _ accepted :: tasks => accepted || takenSince tasks
  | .refused _ :: tasks => takenSince tasks
  | _ => false

/-- One start, and no refresh unless a step was taken after the differencing before it. -/
inductive Spaced : Agenda α n → Prop
  | start (x f : Vec α n) : Spaced [.start x f]
  | trial {tasks : Agenda α n} (x : Vec α n) (accepted : Bool) (h : Spaced tasks) :
      Spaced (.trial x accepted :: tasks)
  | refresh {tasks : Agenda α n} (x f : Vec α n) (h : Spaced tasks)
      (htaken : takenSince tasks = true) : Spaced (.refresh x f :: tasks)
  | refused {tasks : Agenda α n} (x : Vec α n) (h : Spaced tasks) : Spaced (.refused x :: tasks)

variable {tasks : Agenda α n}

@[simp]
theorem trials_cons (task : Task α n) (tasks : Agenda α n) :
    trials (task :: tasks) = tasks.trials + if task.isTrial then 1 else 0 :=
  List.countP_cons

@[simp]
theorem taken_cons (task : Task α n) (tasks : Agenda α n) :
    taken (task :: tasks) = tasks.taken + if task.isAccepted then 1 else 0 :=
  List.countP_cons

@[simp]
theorem refreshes_cons (task : Task α n) (tasks : Agenda α n) :
    refreshes (task :: tasks) = tasks.refreshes + if task.isRefresh then 1 else 0 :=
  List.countP_cons

@[simp]
theorem refusals_cons (task : Task α n) (tasks : Agenda α n) :
    refusals (task :: tasks) = tasks.refusals + if task.isRefused then 1 else 0 :=
  List.countP_cons

theorem points_cons [Scalar α] (relative : α) (task : Task α n) (tasks : Agenda α n) :
    points relative (task :: tasks) = points relative tasks ++ task.points relative := by
  simp [points]

theorem Spaced.length_points [Scalar α] (h : Spaced tasks) (relative : α) :
    (tasks.points relative).length =
      1 + n + tasks.trials + n * tasks.refreshes + tasks.refusals := by
  induction h with
  | start => simp [points, trials, refreshes, refusals, Nat.add_comm]
  | trial _ _ _ ih =>
    rw [points_cons, List.length_append, ih]
    simp
    omega
  | refresh _ _ _ _ ih =>
    rw [points_cons, List.length_append, ih]
    simp [Nat.mul_succ]
    omega
  | refused _ _ ih =>
    rw [points_cons, List.length_append, ih]
    simp
    omega

/-- A step taken since the latest differencing has no refresh of its own yet. -/
theorem Spaced.refreshes_le_taken (h : Spaced tasks) :
    tasks.refreshes + (if tasks.takenSince then 1 else 0) ≤ tasks.taken := by
  induction h with
  | start => simp [refreshes, taken, takenSince]
  | trial _ accepted _ ih =>
    cases accepted with
    | false => simpa [takenSince] using ih
    | true =>
      simp only [refreshes_cons, taken_cons, takenSince, Task.isRefresh, Task.isAccepted,
        Bool.true_or, if_true, Bool.false_eq_true, if_false]
      omega
  | refresh _ _ _ htaken ih =>
    simp only [htaken, refreshes_cons, taken_cons, takenSince, Task.isRefresh, Task.isAccepted,
      if_true, Bool.false_eq_true, if_false] at ih ⊢
    omega
  | @refused tasks x _ ih =>
    have hsame : takenSince (.refused x :: tasks) = tasks.takenSince := rfl
    rw [hsame]
    simpa using ih

theorem exists_taken_of_takenSince {between older : Agenda α n} {old : Task α n}
    (hold : old.differenced?.isSome = true) (h : takenSince (between ++ old :: older) = true) :
    ∃ task ∈ between, task.isAccepted = true := by
  induction between with
  | nil => cases old <;> simp [takenSince, Task.differenced?] at h hold
  | cons task between ih =>
    cases task with
    | start => simp [takenSince] at h
    | refresh => simp [takenSince] at h
    | refused x =>
      obtain ⟨task, hmem, htask⟩ := ih (by simpa [takenSince] using h)
      exact ⟨task, List.mem_cons_of_mem _ hmem, htask⟩
    | trial x accepted =>
      cases accepted with
      | true => exact ⟨_, List.mem_cons_self, rfl⟩
      | false =>
        obtain ⟨task, hmem, htask⟩ := ih (by simpa [takenSince] using h)
        exact ⟨task, List.mem_cons_of_mem _ hmem, htask⟩

theorem Spaced.tail {task : Task α n} (h : Spaced (task :: tasks)) (hne : tasks ≠ []) :
    Spaced tasks := by
  cases h with
  | start => exact absurd rfl hne
  | trial _ _ h => exact h
  | refresh _ _ h => exact h
  | refused _ h => exact h

theorem Spaced.takenSince_tail {task : Task α n} (h : Spaced (task :: tasks)) (hne : tasks ≠ [])
    (htask : task.differenced?.isSome = true) : tasks.takenSince = true := by
  cases h with
  | start => exact absurd rfl hne
  | trial => cases htask
  | refresh _ _ _ htaken => exact htaken
  | refused => cases htask

theorem Spaced.exists_taken {newer between older : Agenda α n} {new old : Task α n}
    (h : Spaced (newer ++ new :: (between ++ old :: older)))
    (hnew : new.differenced?.isSome = true) (hold : old.differenced?.isSome = true) :
    ∃ task ∈ between, task.isAccepted = true := by
  induction newer with
  | nil => exact exists_taken_of_takenSince hold (h.takenSince_tail (by simp) hnew)
  | cons _ newer ih => exact ih (h.tail (by simp))

/-- The work where another start is refused: none, if its point has the wrong length. -/
def ofRefused (point : List α) : Agenda α n :=
  (Vec.ofList? n point).toList.map .refused

theorem trials_ofRefused (point : List α) : (ofRefused point : Agenda α n).trials = 0 := by
  cases h : Vec.ofList? n point <;> simp [ofRefused, h, trials]

theorem differenced_ofRefused (point : List α) :
    (ofRefused point : Agenda α n).differenced = [] := by
  cases h : Vec.ofList? n point <;> simp [ofRefused, h, differenced, Task.differenced?]

end Agenda

/-- What was differenced in order to look for a step. -/
def Preparation.tasks (p : Preparation α n) : Agenda α n :=
  p.recomputation.toList.map fun _ => .refresh p.state.x p.state.f

def Trial.tasks [Scalar α] (t : Trial α n) (p : Preparation α n) : Agenda α n :=
  (if t.refreshed then [.refresh p.state.x p.state.f] else []) ++
    [.trial (p.state.x.addScaled 1 t.step.move) t.accepted]

/-- The work of an iteration in which no call fails. -/
def Attempt.tasks [Scalar α] (a : Attempt α n) : Agenda α n :=
  match a.result with
  | .ok (.tried p t) => t.tasks p ++ p.tasks
  | .ok (.singular p) => p.tasks
  | .ok .settled => []
  | .error (.undetermined p) => p.tasks
  | .error (.eval _) => []

theorem Preparation.trials_tasks (p : Preparation α n) : p.tasks.trials = 0 := by
  cases h : p.recomputation <;> simp [tasks, h, Agenda.trials]

theorem Preparation.refreshes_tasks (p : Preparation α n) :
    p.tasks.refreshes = if p.recomputation.isSome then 1 else 0 := by
  cases h : p.recomputation <;> simp [tasks, h, Agenda.refreshes]

theorem Preparation.differenced_tasks (p : Preparation α n) :
    ∀ d ∈ p.tasks.differenced, d = (p.state.x, p.state.f) := by
  cases h : p.recomputation <;> simp [tasks, h, Agenda.differenced, Task.differenced?]

variable [Scalar α]

theorem Trial.trials_tasks (t : Trial α n) (p : Preparation α n) : (t.tasks p).trials = 1 := by
  cases h : t.refreshed <;> simp [tasks, h, Agenda.trials]

theorem Trial.refreshes_tasks (t : Trial α n) (p : Preparation α n) :
    (t.tasks p).refreshes = if t.refreshed then 1 else 0 := by
  cases h : t.refreshed <;> simp [tasks, h, Agenda.refreshes, List.countP_cons]

theorem Trial.differenced_tasks (t : Trial α n) (p : Preparation α n) :
    ∀ d ∈ (t.tasks p).differenced, d = (p.state.x, p.state.f) := by
  cases h : t.refreshed <;> simp [tasks, h, Agenda.differenced, Task.differenced?]

theorem Attempt.trials_tasks (a : Attempt α n) : a.tasks.trials = a.trials.length := by
  unfold tasks trials
  split
  · next p t h =>
    simp only [h, List.length_singleton]
    rw [Agenda.trials, List.countP_append]
    exact congrArg₂ (· + ·) (t.trials_tasks p) p.trials_tasks
  · next p h =>
    simp only [h]
    exact p.trials_tasks
  · next h => simp only [h]; rfl
  · next p h =>
    simp only [h]
    exact p.trials_tasks
  · next h => simp only [h]; rfl

namespace State

/-- The books of a run: its calls, and what they were for. -/
structure Ledger (c : Settings α) (s : State α n) (calls : List (Call α n)) (tasks : Agenda α n) :
    Prop where
  asked : Asks [] calls (tasks.points c.differenceStep)
  evaluations : s.evaluations + tasks.refusals = calls.length
  refused : ∀ x, .refused x ∈ tasks → ∃ f, ⟨x, .ok f⟩ ∈ calls ∧ f.isFinite = false
  spaced : tasks.Spaced
  updated : s.jacobian.fresh = false → tasks.takenSince = true
  descends : ∀ d ∈ tasks.differenced, s.f = d.2 ∨ s.f.norm < d.2.norm
  below : tasks.takenSince = true → ∀ d ∈ tasks.differenced, s.f.norm < d.2.norm
  ordered : tasks.differenced.Pairwise fun new old => new.2.norm < old.2.norm

namespace Ledger

variable {sys : Equations (StateM σ) α n} {c : Settings α} {s t r : State α n}
  {calls : List (Call α n)} {tasks : Agenda α n} {u u' : σ × List (Call α n)}

theorem of_start {point : List α} {w : σ}
    (h : (State.start sys.logged c point).run (w, []) = (.ok s, u')) :
    Ledger c s u'.2 [.start s.x s.f] := by
  obtain ⟨hevaluations, hasks⟩ := start_asks h
  obtain ⟨x, f, d, v, -, -, -, hd, hfail, rfl⟩ := start_eq_ok h
  obtain ⟨a, count, rfl, -⟩ := Jacobian.difference_eq_ok hd hfail
  refine ⟨?_, ?_, ?_, .start _ _, nofun, ?_, nofun, List.pairwise_singleton _ _⟩
  · simpa [Agenda.points] using hasks
  · rw [hevaluations, hasks.length]
    simp [Agenda.refusals, Nat.add_comm]
  · simp
  · exact fun d hd => .inl (by rw [List.mem_singleton.mp hd])

theorem congr (hs : Ledger c s calls tasks) (hevaluations : t.evaluations = s.evaluations)
    (hfresh : t.jacobian.fresh = s.jacobian.fresh) (hf : t.f = s.f) : Ledger c t calls tasks where
  asked := hs.asked
  evaluations := hevaluations ▸ hs.evaluations
  refused := hs.refused
  spaced := hs.spaced
  updated h := hs.updated (hfresh.symm.trans h)
  descends := hf ▸ hs.descends
  below := hf ▸ hs.below
  ordered := hs.ordered

theorem refused_of_asks {calls' : List (Call α n)} {points : List (Vec α n)}
    (hs : Ledger c s calls tasks) (h : Asks calls calls' points) {x : Vec α n}
    (hx : .refused x ∈ tasks) : ∃ f, ⟨x, .ok f⟩ ∈ calls' ∧ f.isFinite = false := by
  obtain ⟨f, hf, hinfinite⟩ := hs.refused x hx
  exact ⟨f, h.mem hf, hinfinite⟩

theorem refresh (hs : Ledger c s u.2 tasks) (hfresh : s.jacobian.fresh = false)
    (h : (s.refresh sys.logged c).run u = (.ok r, u')) :
    Ledger c r u'.2 (.refresh s.x s.f :: tasks) := by
  obtain ⟨hevaluations, hasks⟩ := refresh_asks h
  have hplace := refresh_samePlace h
  have htaken := hs.updated hfresh
  refine ⟨?_, ?_, ?_, .refresh _ _ hs.spaced htaken, fun hupdated => ?_, ?_, nofun, ?_⟩
  · rw [Agenda.points_cons]
    exact hs.asked.trans hasks
  · rw [hevaluations, hasks.length, ← hs.evaluations, Jacobian.length_neighbours,
      Agenda.refusals_cons]
    simp
    omega
  · exact fun x hx => hs.refused_of_asks hasks (by simpa using hx)
  · rw [refresh_fresh h] at hupdated
    cases hupdated
  · rw [hplace.f]
    intro d hd
    rcases List.mem_cons.mp hd with rfl | hd
    · exact .inl rfl
    · exact hs.descends d hd
  · exact List.pairwise_cons.mpr ⟨hs.below htaken, hs.ordered⟩

variable {p : Preparation α n} {step : Step α n} {x value : Vec α n}

theorem tested (hs : Ledger c p.state u.2 tasks)
    (h : (sys.logged (p.state.x.addScaled 1 step.move)).run u = (.ok value, u')) :
    Ledger c (p.tested step) u'.2 (.trial (p.state.x.addScaled 1 step.move) false :: tasks) where
  asked := by
    rw [Agenda.points_cons]
    exact hs.asked.trans (.of_call h)
  evaluations := by
    have hcounted : (p.tested step).evaluations = p.state.evaluations + 1 := rfl
    rw [(Asks.of_call h).length, ← hs.evaluations, hcounted, Agenda.refusals_cons]
    simp
    omega
  refused x hx := hs.refused_of_asks (.of_call h) (by simpa using hx)
  spaced := .trial _ _ hs.spaced
  updated := hs.updated
  descends := hs.descends
  below := hs.below
  ordered := hs.ordered

theorem rejected {t : Trial α n} (hs : Ledger c s calls tasks) (ht : t.accepted = false) :
    Ledger c (s.commit c t) calls tasks := by
  refine hs.congr (commit_evaluations c s t) ?_ (commit_stays c s ht).2
  rw [commit_jacobian, ht]
  rfl

theorem accepted [LawfulArithmetic α] (hc : c.Valid) (hs : Ledger c p.state u.2 tasks)
    (h : (sys.logged (p.state.x.addScaled 1 step.move)).run u = (.ok value, u'))
    (ht : (p.trial c step value).accepted = true) :
    Ledger c ((p.tested step).commit c (p.trial c step value)) u'.2
      (.trial (p.state.x.addScaled 1 step.move) true :: tasks) := by
  have hbooks := hs.tested h
  have hf : ((p.tested step).commit c (p.trial c step value)).f = value := by
    rw [commit_f, ht]
    rfl
  have hlt := Preparation.norm_lt_of_accepted hc ht
  have hbelow : ∀ d ∈ tasks.differenced, value.norm < d.2.norm := by
    intro d hd
    rcases hs.descends d hd with heq | hless
    · rw [← heq]
      exact hlt
    · exact lt_of_lt_of_le hlt (le_of_lt hless)
  constructor
  · rw [Agenda.points_cons]
    exact hs.asked.trans (.of_call h)
  · rw [commit_evaluations]
    exact hbooks.evaluations
  · exact fun x hx => hbooks.refused x (by simpa using hx)
  · exact .trial _ _ hs.spaced
  · exact fun _ => rfl
  · rw [hf]
    exact fun d hd => .inr (hbelow d hd)
  · rw [hf]
    exact fun _ => hbelow
  · exact hs.ordered

theorem tryStep [LawfulArithmetic α] {a : Attempt α n} (hc : c.Valid)
    (hs : Ledger c p.state u.2 (p.tasks ++ tasks))
    (h : (State.tryStep sys.logged c p step).run u = (a, u'))
    (hok : ∀ e, a.result ≠ .error (.eval e)) : Ledger c a.state u'.2 (a.tasks ++ tasks) := by
  cases tryStep_tries h with
  | failed => exact absurd rfl (hok _)
  | unrefreshed => exact absurd rfl (hok _)
  | @judged value _ hcall hrefreshed =>
    simp only [Attempt.tasks, Trial.tasks, hrefreshed, List.append_assoc]
    cases haccepted : (p.trial c step value).accepted with
    | true => exact hs.accepted hc hcall haccepted
    | false => exact (hs.tested hcall).rejected haccepted
  | @refreshed value _ _ r hcall hrefreshed hrefresh =>
    have haccepted := not_accepted_of_refreshed hrefreshed
    simp only [Attempt.tasks, Trial.tasks, hrefreshed, haccepted, List.append_assoc]
    exact ((hs.tested hcall).refresh (updated_of_refreshed hrefreshed) hrefresh).rejected haccepted

theorem refusal (hs : Ledger c s u.2 tasks) {f : Vec α n}
    (h : (sys.logged x).run u = (.ok f, u')) (hf : f.isFinite = false) :
    Ledger c s u'.2 (.refused x :: tasks) where
  asked := by
    rw [Agenda.points_cons]
    exact hs.asked.trans (.of_call h)
  evaluations := by
    rw [(Asks.of_call h).length, ← hs.evaluations, Agenda.refusals_cons]
    rfl
  refused y hy := by
    rcases List.mem_cons.mp hy with hy | hy
    · cases hy
      refine ⟨f, ?_, hf⟩
      rw [Equations.logged_run h]
      exact List.mem_append_right _ List.mem_cons_self
    · exact hs.refused_of_asks (.of_call h) hy
  spaced := .refused x hs.spaced
  updated := hs.updated
  descends := hs.descends
  below := hs.below
  ordered := hs.ordered

variable [SingularValues α]

theorem prepare (hs : Ledger c s u.2 tasks)
    (h : (s.prepare sys.logged c).run u = (.ok p, u')) :
    Ledger c p.state u'.2 (p.tasks ++ tasks) := by
  cases prepare_prepares h with
  | asIs => exact hs
  | @anew r _ hm hr =>
    have hplace := refresh_samePlace hr
    change Ledger c r _ (.refresh r.x r.f :: tasks)
    rw [hplace.x, hplace.f]
    exact hs.refresh (updated_of_mustRecompute hm) hr

theorem iterate [LawfulArithmetic α] {a : Attempt α n} (hc : c.Valid) (hs : Ledger c s u.2 tasks)
    (h : (s.iterate sys.logged c).run u = (a, u')) (hok : ∀ e, a.result ≠ .error (.eval e)) :
    Ledger c a.state u'.2 (a.tasks ++ tasks) := by
  cases iterate_iterates h with
  | ended => exact hs
  | exhausted => exact hs.congr rfl rfl rfl
  | atRoot => exact hs.congr rfl rfl rfl
  | unprepared => exact absurd rfl (hok _)
  | undetermined _ hp => exact hs.prepare hp
  | singular _ hp => exact (hs.prepare hp).congr rfl rfl rfl
  | tried _ hp _ _ ht => exact (hs.prepare hp).tryStep hc ht hok

end Ledger

variable {sys : Equations (StateM σ) α n} {c : Settings α} {s : State α n} {w w' : σ}
  {a : Attempt α n} {p : Preparation α n} {calls : List (Call α n)} {tasks : Agenda α n}

/-- Another start that fails although no call does. Its point has the wrong length, or residuals
that are not finite. -/
theorem restart_refused {point : List α} {t : State α n} {e : SolveError}
    {u u' : σ × List (Call α n)} (h : (s.restart sys.logged c point).run u = ((t, .error e), u'))
    (hok : ∀ call ∈ u'.2, call.answer.isOk = true) :
    t = s ∧ ((Vec.ofList? n point = none ∧ u' = u) ∨
      ∃ x f, Vec.ofList? n point = some x ∧ (sys.logged x).run u = (.ok f, u') ∧
        f.isFinite = false) := by
  obtain ⟨hs, hstart⟩ := restart_eq_error h
  refine ⟨hs, ?_⟩
  have hanswered {x : Vec α n} {v : σ × List (Call α n)} {cause : EvalError}
      (hcall : (sys.logged x).run v = (.error cause, u')) : False := by
    have hlast := hok ⟨x, .error cause⟩ (by simp [Equations.logged_run hcall])
    cases hlast
  cases start_starts hstart with
  | wrongLength hlength => exact .inl ⟨Vec.ofList?_eq_none_iff.mpr hlength, rfl⟩
  | unevaluable _ hf => exact (hanswered hf).elim
  | @nonFinite x f i _ hx hf hi =>
    refine .inr ⟨x, f, hx, hf, ?_⟩
    rw [Bool.eq_false_iff, ne_eq, ← Vec.firstNonFinite?_eq_none_iff, hi]
    nofun
  | undifferenced _ _ _ hj => exact (hanswered hj).elim

theorem tryStep_refreshes_le {step : Step α n} (h : (tryStep sys c p step).run w = (a, w')) :
    a.tasks.refreshes ≤ p.tasks.refreshes + p.state.jacobian.allowance := by
  have hsum {t : Trial α n} (hfresh : t.refreshed = true → p.state.jacobian.fresh = false) :
      Agenda.refreshes (t.tasks p ++ p.tasks) ≤ p.tasks.refreshes + p.state.jacobian.allowance := by
    rw [Agenda.refreshes, List.countP_append, Nat.add_comm]
    refine Nat.add_le_add_left ((t.refreshes_tasks p).le.trans ?_) _
    cases hr : t.refreshed with
    | false => exact Nat.zero_le _
    | true => exact (Jacobian.allowance_of_updated (hfresh hr)).ge
  cases tryStep_tries h with
  | failed => exact Nat.zero_le _
  | unrefreshed => exact Nat.zero_le _
  | judged => exact hsum updated_of_refreshed
  | refreshed => exact hsum updated_of_refreshed

variable [SingularValues α]

theorem prepare_refreshes_le (h : (s.prepare sys c).run w = (.ok p, w')) :
    p.tasks.refreshes + p.state.jacobian.allowance ≤ s.jacobian.allowance := by
  rw [p.refreshes_tasks]
  cases prepare_prepares h with
  | asIs => exact Nat.le_of_eq (Nat.zero_add _)
  | @anew r _ hm hr =>
    change 1 + r.jacobian.allowance ≤ _
    rw [Jacobian.allowance_of_updated (updated_of_mustRecompute hm),
      Jacobian.allowance_of_fresh (refresh_fresh hr)]

theorem iterate_refreshes_le (h : (s.iterate sys c).run w = (a, w')) :
    a.tasks.refreshes ≤ s.jacobian.allowance := by
  cases iterate_iterates h with
  | ended => exact Nat.zero_le _
  | exhausted => exact Nat.zero_le _
  | atRoot => exact Nat.zero_le _
  | unprepared => exact Nat.zero_le _
  | undetermined _ hp => exact (Nat.le_add_right _ _).trans (prepare_refreshes_le hp)
  | singular _ hp => exact (Nat.le_add_right _ _).trans (prepare_refreshes_le hp)
  | tried _ hp _ _ ht => exact (tryStep_refreshes_le ht).trans (prepare_refreshes_le hp)

theorem iterate_differenced (h : (s.iterate sys c).run w = (a, w')) :
    ∀ d ∈ a.tasks.differenced, d = (s.x, s.f) := by
  have hat {p : Preparation α n} {v : σ} (hp : (s.prepare sys c).run w = (.ok p, v)) :
      (p.state.x, p.state.f) = (s.x, s.f) := by
    rw [(prepare_samePlace hp).x, (prepare_samePlace hp).f]
  have htried {p : Preparation α n} {v : σ} {t : Trial α n}
      (hp : (s.prepare sys c).run w = (.ok p, v)) :
      ∀ d ∈ Agenda.differenced (t.tasks p ++ p.tasks), d = (s.x, s.f) := by
    intro d hd
    rw [Agenda.differenced, List.filterMap_append, List.mem_append] at hd
    rcases hd with hd | hd
    · exact (t.differenced_tasks p d hd).trans (hat hp)
    · exact (p.differenced_tasks d hd).trans (hat hp)
  cases iterate_iterates h with
  | ended => nofun
  | exhausted => nofun
  | atRoot => nofun
  | unprepared => nofun
  | undetermined _ hp => exact fun d hd => (Preparation.differenced_tasks _ d hd).trans (hat hp)
  | singular _ hp => exact fun d hd => (Preparation.differenced_tasks _ d hd).trans (hat hp)
  | tried _ hp _ _ ht =>
    cases tryStep_tries ht with
    | failed => nofun
    | unrefreshed => nofun
    | judged => exact htried hp
    | refreshed => exact htried hp

/-- A run since its last start in which no call fails, with the log of its calls and its work.
Another start that is refused leaves the run where it is. -/
inductive Run (sys : Equations (StateM σ) α n) (c : Settings α) :
    State α n → List (Call α n) → Agenda α n → Prop
  | create {point : List α} {w w' : σ} {s : State α n} {calls : List (Call α n)}
      (h : (create sys.logged c point).run (w, []) = (.ok s, (w', calls))) :
      Run sys c s calls [.start s.x s.f]
  | restart {point : List α} {w w' : σ} {s t : State α n} {calls : List (Call α n)}
      (hs : Reachable sys c s)
      (h : (s.restart sys.logged c point).run (w, []) = ((t, .ok ()), (w', calls))) :
      Run sys c t calls [.start t.x t.f]
  | iterate {w w' : σ} {s : State α n} {a : Attempt α n} {calls calls' : List (Call α n)}
      {tasks : Agenda α n} (hs : Run sys c s calls tasks)
      (h : (s.iterate sys.logged c).run (w, calls) = (a, (w', calls')))
      (hok : ∀ e, a.result ≠ .error (.eval e)) : Run sys c a.state calls' (a.tasks ++ tasks)
  | refused {point : List α} {w w' : σ} {s t : State α n} {calls calls' : List (Call α n)}
      {tasks : Agenda α n} {e : SolveError} (hs : Run sys c s calls tasks)
      (h : (s.restart sys.logged c point).run (w, calls) = ((t, .error e), (w', calls')))
      (hok : ∀ call ∈ calls', call.answer.isOk = true) :
      Run sys c t calls' (.ofRefused point ++ tasks)

theorem Run.reachable (h : s.Run sys c calls tasks) : s.Reachable sys c := by
  induction h with
  | create h => exact .create ((create_logged sys c _).run_fst h)
  | restart hs h => exact hs.restart ((restart_logged sys c _ _).run_fst h)
  | iterate _ h _ ih => exact ih.iterate ((iterate_logged sys c _).run_fst h)
  | refused _ h _ ih => exact ih.restart ((restart_logged sys c _ _).run_fst h)

theorem Run.ledger [LawfulArithmetic α] (h : s.Run sys c calls tasks) :
    Ledger c s calls tasks := by
  induction h with
  | create h => exact .of_start (create_eq_ok h).2.2
  | restart _ h => exact .of_start (restart_eq_ok h)
  | iterate hs h hok ih => exact ih.iterate hs.reachable.valid h hok
  | refused _ h hok ih =>
    obtain ⟨rfl, ⟨hpoint, hsame⟩ | ⟨x, f, hpoint, hcall, hf⟩⟩ := restart_refused h hok
    · cases hsame
      rw [Agenda.ofRefused, hpoint]
      exact ih
    · rw [Agenda.ofRefused, hpoint]
      exact ih.refusal hcall hf

theorem Run.trials_eq (h : s.Run sys c calls tasks) : tasks.trials = s.iterations := by
  induction h with
  | create h => exact (start_counts (create_eq_ok h).2.2).iterations.symm
  | restart _ h => exact (start_counts (restart_eq_ok h)).iterations.symm
  | @iterate w w' s a calls calls' tasks _ h _ ih =>
    have hsum : Agenda.trials (a.tasks ++ tasks) = a.trials.length + s.iterations := by
      rw [Agenda.trials, List.countP_append, ← ih, ← a.trials_tasks]
      rfl
    rw [hsum]
    cases iterate_concludes h with
    | broke hr hplace =>
      rw [Attempt.trials_of_error hr, hplace.iterations]
      exact Nat.zero_add _
    | settled _ ht _ _ hplace =>
      rw [ht, hplace.iterations]
      exact Nat.zero_add _
    | committed hr _ hj ha =>
      rw [ha, Attempt.trials_of_tried hr, commit_iterations, hj.samePlace.iterations]
      exact Nat.add_comm 1 _
  | refused _ h hok ih =>
    rw [(restart_refused h hok).1, Agenda.trials, List.countP_append, ← ih]
    exact (congrArg (· + _) (Agenda.trials_ofRefused _)).trans (Nat.zero_add _)

theorem Run.differenced_answers [LawfulArithmetic α] {F : Vec α n → Vec α n}
    (hsys : sys.Answers F) (h : s.Run sys c calls tasks) :
    ∀ d ∈ tasks.differenced, d.2 = F d.1 := by
  have hstart {t : State α n} (ht : t.Reachable sys c) :
      ∀ d ∈ Agenda.differenced [.start t.x t.f], d.2 = F d.1 := by
    intro d hd
    rw [List.mem_singleton.mp hd]
    exact (ht.consistent hsys).1
  induction h with
  | create h => exact hstart (Run.create h).reachable
  | restart hs h => exact hstart (Run.restart hs h).reachable
  | iterate hs h _ ih =>
    intro d hd
    rw [Agenda.differenced, List.filterMap_append, List.mem_append] at hd
    rcases hd with hd | hd
    · rw [iterate_differenced h d hd]
      exact (hs.reachable.consistent hsys).1
    · exact ih d hd
  | refused _ _ _ ih =>
    intro d hd
    rw [Agenda.differenced, List.filterMap_append, ← Agenda.differenced,
      Agenda.differenced_ofRefused, List.nil_append] at hd
    exact ih d hd

/-- The evaluations of a run are its calls: those of the start, one for each iteration and as many
as there are unknowns for each refresh. Only the calls of other starts, refused because a residual
is not finite, are left out. There are no more refreshes than taken steps. -/
theorem evaluations_within_budget [LawfulArithmetic α] (h : s.Run sys c calls tasks) :
    (s.evaluations + tasks.refusals = calls.length ∧
      s.evaluations = 1 + n + tasks.trials + n * tasks.refreshes ∧
      tasks.trials = s.iterations ∧ Asks [] calls (tasks.points c.differenceStep)) ∧
    (∀ x, .refused x ∈ tasks → ∃ f, ⟨x, .ok f⟩ ∈ calls ∧ f.isFinite = false) ∧
    (∀ (t : State α n) u a u', (t.iterate sys.logged c).run u = (a, u') →
      u'.2.length ≤ u.2.length + (n + 1) ∧ a.tasks.refreshes ≤ 1 ∧
        (t.jacobian.fresh = true → u'.2.length ≤ u.2.length + 1 ∧ a.tasks.refreshes = 0)) ∧
    tasks.refreshes ≤ tasks.taken ∧
    (∀ newer new between old older, tasks = newer ++ new :: (between ++ old :: older) →
      new.differenced?.isSome = true → old.differenced?.isSome = true →
        ∃ task ∈ between, task.isAccepted = true) ∧
    ∀ F, sys.Answers F → (tasks.differenced.map Prod.fst).Nodup := by
  have hledger := h.ledger
  have hlength := hledger.asked.length
  rw [List.length_nil, Nat.zero_add, hledger.spaced.length_points, ← hledger.evaluations] at hlength
  refine ⟨⟨hledger.evaluations, Nat.add_right_cancel hlength, h.trials_eq, hledger.asked⟩,
    hledger.refused, ?_, ?_, ?_, ?_⟩
  · intro t u a u' hrun
    have hcalls := iterate_calls_le hrun
    have hrefreshes := iterate_refreshes_le hrun
    cases hfresh : t.jacobian.fresh with
    | true =>
      rw [Jacobian.allowance_of_fresh hfresh] at hcalls hrefreshes
      exact ⟨by omega, by omega, fun _ => ⟨by omega, by omega⟩⟩
    | false =>
      rw [Jacobian.allowance_of_updated hfresh] at hcalls hrefreshes
      exact ⟨by omega, hrefreshes, nofun⟩
  · exact (Nat.le_add_right _ _).trans hledger.spaced.refreshes_le_taken
  · rintro newer new between old older rfl
    exact hledger.spaced.exists_taken
  · intro F hsys
    have hanswers := h.differenced_answers hsys
    rw [List.Nodup, List.pairwise_map]
    refine hledger.ordered.imp_of_mem fun hnew hold hlt hsame => ?_
    rw [hanswers _ hnew, hanswers _ hold, hsame] at hlt
    exact not_lt_self _ hlt

theorem Run.iterateUpTo {sys : Equations (StateM σ) α n} {k : Nat} {s t : State α n}
    {calls calls' : List (Call α n)} {tasks : Agenda α n} {w w' : σ}
    {result : Option (Except (Breakdown α n) (Report α n))} (hs : s.Run sys c calls tasks)
    (h : (s.iterateUpTo sys.logged c k).run (w, calls) = ((t, result), (w', calls')))
    (hok : ∀ b, result ≠ some (.error b)) : ∃ tasks, t.Run sys c calls' tasks := by
  induction k generalizing s calls tasks w with
  | zero =>
    cases h
    exact ⟨tasks, hs⟩
  | succ k ih =>
    obtain ⟨a, ⟨v, more⟩, ha⟩ := exists_run (s.iterate sys.logged c) (w, calls)
    rw [State.iterateUpTo, run_bind_of_eq ha] at h
    cases hr : a.result with
    | error b =>
      simp only [hr] at h
      cases h
      exact absurd rfl (hok b)
    | ok report =>
      have hnext := hs.iterate ha (by simp [hr])
      by_cases hk : k = 0 ∨ a.state.status.isTerminal = true
      · simp only [hr, if_pos hk] at h
        cases h
        exact ⟨_, hnext⟩
      · simp only [hr, if_neg hk] at h
        exact ih hnext h

/-- What is checked of a closed run in which no iteration breaks down holds of a run that keeps its
books. -/
theorem exists_run_of_closed (sys : Equations (StateM σ) α n) (c : Settings α) (point : List α)
    (k : Nat) (w : σ) (P : State α n → σ × List (Call α n) → Bool)
    (h : (match (State.create sys.logged c point).run (w, []) with
      | (.ok s, u) =>
        match (s.iterateUpTo sys.logged c k).run u with
        | ((_, some (.error _)), _) => false
        | ((t, _), u') => P t u'
      | (.error _, _) => false) = true) :
    ∃ s u tasks, Run sys c s u.2 tasks ∧ P s u = true := by
  obtain ⟨answer, ⟨v, calls⟩, hc⟩ := exists_run (State.create sys.logged c point) (w, [])
  rw [hc] at h
  cases answer with
  | error e => cases h
  | ok s =>
    obtain ⟨⟨t, result⟩, ⟨v', calls'⟩, hi⟩ := exists_run (s.iterateUpTo sys.logged c k) (v, calls)
    simp only [hi] at h
    split at h
    · cases h
    · next hnone heq =>
      cases heq
      obtain ⟨tasks, hrun⟩ := (Run.create hc).iterateUpTo hi fun b hb => by
        subst hb
        exact hnone b rfl
      exact ⟨t, (v', calls'), tasks, hrun, h⟩

end State

/-- Four iterations make five calls besides the two of the start: the Jacobian is refreshed once. -/
theorem State.evaluations_within_budget_lifted :
    ∃ (s : State Float 1) (calls : List (Call Float 1)) (tasks : Agenda Float 1),
      s.Run (interrupted [] lifted) .standard calls tasks ∧ s.iterations = 4 ∧ calls.length = 7 ∧
      tasks.refreshes = 1 ∧ 1 ≤ tasks.taken ∧ (tasks.differenced.map Prod.fst).Nodup := by
  obtain ⟨s, u, tasks, hrun, h⟩ := exists_run_of_closed (interrupted [] lifted) .standard [3]
    4 0 (fun s u => decide (s.iterations = 4 ∧ s.evaluations = 7 ∧ u.2.length = 7))
    (by decide +kernel)
  obtain ⟨hfour, hseven, hcalls⟩ := of_decide_eq_true h
  obtain ⟨⟨-, htotal, htrials, -⟩, -, -, htaken, -, hpoints⟩ := evaluations_within_budget hrun
  have hone : tasks.refreshes = 1 := by omega
  exact ⟨s, u.2, tasks, hrun, hfour, hcalls, hone, by omega,
    hpoints _ (interrupted_answers [] fun x => Vector.mk #[Vec.first x * Vec.first x + 1] rfl)⟩

/-- So far out that a square is no longer finite another start is refused. The call is answered,
and not counted. -/
theorem State.evaluations_may_leave_out :
    ∃ (s : State Float 1) (e : SolveError) (a : Attempt Float 1) (report : Report Float 1)
      (u v w : Nat × List (Call Float 1)) (tasks : Agenda Float 1),
      (State.create (interrupted [] lifted).logged .standard [3]).run (0, []) = (.ok s, u) ∧
      (s.restart (interrupted [] lifted).logged .standard [1e200]).run u = ((s, .error e), v) ∧
      (s.iterate (interrupted [] lifted).logged .standard).run v = (a, w) ∧
      a.result = .ok report ∧ a.state.Run (interrupted [] lifted) .standard w.2 tasks ∧
      (∀ call ∈ w.2, call.answer.isOk = true) ∧ a.state.evaluations = 3 ∧ w.2.length = 4 := by
  have h : (((State.create (interrupted [] lifted).logged .standard [3]).run (0, [])).1.toOption.any
      fun s =>
        let u := ((State.create (interrupted [] lifted).logged .standard [3]).run (0, [])).2
        let v := (s.restart (interrupted [] lifted).logged .standard [1e200]).run u
        let w := (v.1.1.iterate (interrupted [] lifted).logged .standard).run v.2
        !v.1.2.isOk && w.1.result.isOk && v.2.2.all (·.answer.isOk) && w.2.2.all (·.answer.isOk) &&
          w.1.state.evaluations == 3 && w.2.2.length == 4) = true := by decide +kernel
  obtain ⟨answer, u, hc⟩ :=
    exists_run (State.create (interrupted [] lifted).logged .standard [3]) (0, [])
  rw [hc] at h
  cases answer with
  | error e => cases h
  | ok s =>
    obtain ⟨⟨t, reply⟩, v, hr⟩ :=
      exists_run (s.restart (interrupted [] lifted).logged .standard [1e200]) u
    obtain ⟨a, w, ha⟩ := exists_run (t.iterate (interrupted [] lifted).logged .standard) v
    simp only [Except.toOption, Option.any_some, hr, ha, Bool.and_eq_true, List.all_eq_true,
      beq_iff_eq] at h
    obtain ⟨⟨⟨⟨⟨hrefused, hdone⟩, hok⟩, hok'⟩, hthree⟩, hfour⟩ := h
    cases reply with
    | ok => cases hrefused
    | error e =>
      obtain ⟨rfl, -⟩ := restart_refused hr hok
      cases hresult : a.result with
      | error b =>
        rw [hresult] at hdone
        cases hdone
      | ok report =>
        have hrun := ((Run.create hc).refused hr hok).iterate ha (by simp [hresult])
        exact ⟨t, e, a, report, u, v, w, _, hc, hr, ha, hresult, hrun, hok', hthree, hfour⟩

end RootFinder
