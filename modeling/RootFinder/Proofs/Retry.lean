import RootFinder.Proofs.Atomicity

/-! Retrying a failed iteration. A system answers every call with the values of one function, but
for a single call that fails. The iteration that failed is made again, and ends where an iteration
without the failure would have ended. Only the trial call can be made twice, so at most one
evaluation is counted more. -/

namespace RootFinder

variable {α : Type} {n : Nat}

/-- The system that counts its calls from one and answers with the values of `F`, but for call `k`
that fails. There is no call zero, so `k = 0` lets every call succeed. -/
def failingAt (F : Vec α n → Vec α n) (k : Nat) (e : EvalError) :
    Equations (StateM Nat) α n := fun x => do
  let call := (← get) + 1
  set call
  if call = k then pure (.error e) else pure (.ok (F x))

/-- Call `k` is none of the `q` calls that follow the first `v`. -/
def Misses (k v q : Nat) : Prop :=
  k ≤ v ∨ v + q < k

variable {F : Vec α n → Vec α n} {k v : Nat} {e : EvalError}

theorem failingAt_misses (hk : Misses k v 1) (x : Vec α n) :
    (failingAt F k e x).run v = (.ok (F x), v + 1) := by
  have hne : v + 1 ≠ k := by
    unfold Misses at hk
    omega
  change ((if v + 1 = k then _ else _ : StateM Nat _).run (v + 1)) = _
  rw [if_neg hne]
  rfl

theorem failingAt_hits (hk : v + 1 = k) (x : Vec α n) :
    (failingAt F k e x).run v = (.error e, k) := by
  change ((if v + 1 = k then _ else _ : StateM Nat _).run (v + 1)) = _
  rw [if_pos hk, hk]
  rfl

variable [Scalar α]

namespace Jacobian

def differenced (F : Vec α n → Vec α n) (relative : α) (x f : Vec α n) (js : List (Fin n))
    (a : Mat α n) : Mat α n :=
  js.foldl (fun a j =>
    a.setColumn j (slopes (increment relative (x.get j)) f (F (neighbour relative x j)))) a

theorem differenceColumns_misses (relative : α) (x f : Vec α n) (js : List (Fin n))
    (hk : Misses k v js.length) (a : Mat α n) :
    (differenceColumns (failingAt F k e) relative x f js a).run v =
      ((differenced F relative x f js a, js.length, none), v + js.length) := by
  induction js generalizing a v with
  | nil => rfl
  | cons j js ih =>
    have hj : Misses k v 1 := by
      simp only [Misses, List.length_cons] at hk ⊢
      omega
    have hjs : Misses k (v + 1) js.length := by
      simp only [Misses, List.length_cons] at hk ⊢
      omega
    rw [differenceColumns, run_bind_of_eq (failingAt_misses hj _)]
    change (differenceColumns (failingAt F k e) relative x f js _ >>= _).run (v + 1) = _
    have hv : v + 1 + js.length = v + (js.length + 1) := by omega
    rw [run_bind_of_eq (ih hjs _), hv]
    rfl

theorem differenceColumns_hits (relative : α) (x f : Vec α n) (js : List (Fin n))
    (hv : v < k) (hk : k ≤ v + js.length) (a : Mat α n) :
    ∃ b q, (differenceColumns (failingAt F k e) relative x f js a).run v = ((b, q, some e), k) := by
  induction js generalizing a v with
  | nil =>
    simp only [List.length_nil] at hk
    omega
  | cons j js ih =>
    by_cases hj : v + 1 = k
    · rw [differenceColumns, run_bind_of_eq (failingAt_hits hj _)]
      exact ⟨a, 0, rfl⟩
    · simp only [List.length_cons] at hk
      have hm : Misses k v 1 := .inr (by omega)
      obtain ⟨b, q, hb⟩ := ih (by omega : v + 1 < k) (by omega)
        (a.setColumn j (slopes (increment relative (x.get j)) f (F (neighbour relative x j))))
      rw [differenceColumns, run_bind_of_eq (failingAt_misses hm _)]
      change ∃ b q, (differenceColumns (failingAt F k e) relative x f js _ >>= _).run (v + 1) = _
      rw [run_bind_of_eq hb]
      exact ⟨b, q + 1, rfl⟩

end Jacobian

namespace State

def renewedBy (F : Vec α n → Vec α n) (c : Settings α) (s : State α n) : State α n :=
  s.renewed c ⟨⟨Jacobian.differenced F c.differenceStep s.x s.f (List.finRange n)
    s.jacobian.matrix, true, false⟩, n, none⟩

theorem refresh_misses (c : Settings α) (s : State α n) (hk : Misses k v n) :
    (s.refresh (failingAt F k e) c).run v = (.ok (s.renewedBy F c), v + n) := by
  have hd := Jacobian.differenceColumns_misses (F := F) (e := e) c.differenceStep s.x s.f
    (List.finRange n) (by simpa using hk) s.jacobian.matrix
  rw [List.length_finRange] at hd
  have hj : (s.jacobian.difference (failingAt F k e) c.differenceStep s.x s.f).run v = _ :=
    run_bind_of_eq hd
  rw [refresh, run_bind_of_eq hj]
  rfl

theorem refresh_hits (c : Settings α) (s : State α n) (hv : v < k) (hk : k ≤ v + n) :
    (s.refresh (failingAt F k e) c).run v = (.error e, k) := by
  obtain ⟨b, q, hd⟩ := Jacobian.differenceColumns_hits (F := F) (e := e) c.differenceStep s.x s.f
    (List.finRange n) hv (by simpa using hk) s.jacobian.matrix
  have hj : (s.jacobian.difference (failingAt F k e) c.differenceStep s.x s.f).run v = _ :=
    run_bind_of_eq hd
  rw [refresh, run_bind_of_eq hj]
  rfl

@[simp]
theorem renewedBy_counted (c : Settings α) (s : State α n) :
    s.counted.renewedBy F c = (s.renewedBy F c).counted := by
  simp only [renewedBy, renewed, counted, Nat.add_right_comm]

/-- The evaluations have no part in the judgement of a step. -/
@[simp]
theorem commit_counted (c : Settings α) (s : State α n) (t : Trial α n) :
    s.counted.commit c t = (s.commit c t).counted := by
  unfold commit
  cases t.accepted <;> rfl

end State

namespace Preparation

def trialBy (F : Vec α n → Vec α n) (c : Settings α) (p : Preparation α n)
    (step : Step α n) : Trial α n :=
  p.trial c step (F (p.state.x.addScaled 1 step.move))

def tryingCalls (F : Vec α n → Vec α n) (c : Settings α) (p : Preparation α n)
    (step : Step α n) : Nat :=
  if (p.trialBy F c step).refreshed then 1 + n else 1

def triedBy (F : Vec α n → Vec α n) (c : Settings α) (p : Preparation α n)
    (step : Step α n) : Attempt α n :=
  let t := p.trialBy F c step
  let s := if t.refreshed then (p.tested step).renewedBy F c else p.tested step
  ⟨s.commit c t, .ok (.tried p t)⟩

end Preparation

namespace State

theorem tryStep_misses (c : Settings α) (p : Preparation α n) (step : Step α n)
    (hk : Misses k v (p.tryingCalls F c step)) :
    (tryStep (failingAt F k e) c p step).run v =
      (p.triedBy F c step, v + p.tryingCalls F c step) := by
  unfold Preparation.tryingCalls Preparation.triedBy at *
  cases hr : (p.trialBy F c step).refreshed with
  | false =>
    simp only [hr] at hk ⊢
    exact (Tries.judged (failingAt_misses hk _) hr).run
  | true =>
    simp only [hr, if_true, ← Nat.add_assoc] at hk ⊢
    have hcall : Misses k v 1 := by
      unfold Misses at *
      omega
    have hrefresh : Misses k (v + 1) n := by
      unfold Misses at *
      omega
    exact (Tries.refreshed (failingAt_misses hcall _) hr (refresh_misses c _ hrefresh)).run

variable [SingularValues α]

def preparingCalls (c : Settings α) (s : State α n) : Nat :=
  if s.mustRecompute c then n else 0

def preparedBy (F : Vec α n → Vec α n) (c : Settings α) (s : State α n) : Preparation α n :=
  if s.mustRecompute c then s.preparedAnew c (s.renewedBy F c) else s.preparedAsIs c

theorem prepare_misses (c : Settings α) (s : State α n) (hk : Misses k v (s.preparingCalls c)) :
    (s.prepare (failingAt F k e) c).run v =
      (.ok (s.preparedBy F c), v + s.preparingCalls c) := by
  unfold preparingCalls preparedBy at *
  cases hm : s.mustRecompute c with
  | false => exact (Prepares.asIs hm).run
  | true =>
    simp only [hm, if_true] at hk ⊢
    exact (Prepares.anew hm (refresh_misses c s hk)).run

theorem prepare_hits (c : Settings α) (s : State α n) (hv : v < k)
    (hk : k ≤ v + s.preparingCalls c) :
    (s.prepare (failingAt F k e) c).run v = (.error e, k) := by
  unfold preparingCalls at hk
  cases hm : s.mustRecompute c with
  | false =>
    simp [hm] at hk
    omega
  | true =>
    simp only [hm, if_true] at hk
    exact (Prepares.failed hm (refresh_hits c s hv hk)).run

/-- A Jacobian with which a step can be looked for is taken as it is when it is met again. -/
theorem prepared_again {σ : Type} {sys : Equations (StateM σ) α n} {c : Settings α}
    {s t : State α n} {p : Preparation α n} {w w' : σ}
    (hp : (s.prepare sys c).run w = (.ok p, w')) (ht : t.jacobian = p.state.jacobian) :
    t.mustRecompute c = false ∧ t.factored c = (p.linear, p.finalRefusal?) := by
  cases prepare_prepares hp with
  | asIs hs =>
    have hf : t.factored c = s.factored c := by
      rw [factored, ht]
      rfl
    have hm : t.mustRecompute c = false := by
      rw [mustRecompute, hf, ht]
      exact hs
    exact ⟨hm, hf⟩
  | @anew r _ hs hr =>
    have hf : t.factored c = r.factored c := by
      rw [factored, ht]
      rfl
    have hfresh : t.jacobian.fresh = true := ht ▸ refresh_fresh hr
    exact ⟨by simp [mustRecompute, hfresh], hf⟩

/-- From a state with the same model and region the same step is tried. -/
theorem iterate_again {σ : Type} {sys : Equations (StateM σ) α n} {c : Settings α}
    {s t : State α n} {p : Preparation α n} {step : Step α n} {w v u u' : σ} {a : Attempt α n}
    (hp : (s.prepare sys c).run w = (.ok p, v)) (hd : p.isUndetermined = false)
    (hstep : p.step? = some step) (ht : t.Active c) (hj : t.jacobian = p.state.jacobian)
    (hf : t.f = p.state.f) (hscaling : t.scaling = p.state.scaling)
    (hradius : t.radius = p.state.radius)
    (h : (tryStep sys c (t.preparedAsIs c) step).run u = (a, u')) :
    (t.iterate sys c).run u = (a, u') := by
  obtain ⟨hm, hfactored⟩ := prepared_again hp hj
  have hrefusal : (t.preparedAsIs c).finalRefusal? = p.finalRefusal? := congrArg Prod.snd hfactored
  have hd' : (t.preparedAsIs c).isUndetermined = false := by
    rw [Preparation.isUndetermined, hrefusal]
    exact hd
  have hstep' : (t.preparedAsIs c).step? = some step := by
    simpa only [Preparation.step?, preparedAsIs, hfactored, hj, hf, hscaling, hradius] using hstep
  exact (Iterates.tried ht (Prepares.asIs hm).run hd' hstep' h).run

/-- The iteration rejects a step and then fails to difference the Jacobian anew. -/
def FailsAfterRejection {σ : Type} (sys : Equations (StateM σ) α n) (c : Settings α)
    (s : State α n) (w : σ) : Prop :=
  ∃ p step value u v e w', (s.prepare sys c).run w = (.ok p, u) ∧ p.step? = some step ∧
    (sys (p.state.x.addScaled 1 step.move)).run u = (.ok value, v) ∧
    (p.trial c step value).refreshed = true ∧
    ((p.tested step).refresh sys c).run v = (.error e, w')

theorem active_of_calls {c : Settings α} {s : State α n} {b : Attempt α n} {w : Nat}
    (h : (s.iterate (failingAt F k e) c).run 0 = (b, w)) (hw : 0 < w) : s.Active c := by
  cases iterate_iterates h with
  | ended => omega
  | exhausted => omega
  | atRoot => omega
  | unprepared hs => exact hs
  | undetermined hs => exact hs
  | singular hs => exact hs
  | tried hs => exact hs

/-- Behind the failing call an iteration goes as it would without one. -/
theorem iterate_behind {c : Settings α} {s : State α n} {b : Attempt α n} {w : Nat}
    (h : (s.iterate (failingAt F 0 e) c).run 0 = (b, w)) :
    ∃ u, (s.iterate (failingAt F k e) c).run k = (b, u) := by
  have hp₀ : (s.prepare (failingAt F 0 e) c).run 0 = _ := prepare_misses c s (.inl (by omega))
  have hp : (s.prepare (failingAt F k e) c).run k = _ := prepare_misses c s (.inl (by omega))
  cases iterate_iterates h with
  | ended hs => exact ⟨k, (Iterates.ended hs).run⟩
  | exhausted hs hi => exact ⟨k, (Iterates.exhausted hs hi).run⟩
  | atRoot hs hi hf => exact ⟨k, (Iterates.atRoot hs hi hf).run⟩
  | unprepared _ hr =>
    rw [hp₀] at hr
    cases hr
  | undetermined hs hr hd =>
    rw [hp₀] at hr
    cases hr
    exact ⟨_, (Iterates.undetermined hs hp hd).run⟩
  | singular hs hr hd hstep =>
    rw [hp₀] at hr
    cases hr
    exact ⟨_, (Iterates.singular hs hp hd hstep).run⟩
  | tried hs hr hd hstep ht =>
    rw [hp₀] at hr
    cases hr
    rw [tryStep_misses c _ _ (.inl (by omega))] at ht
    cases ht
    exact ⟨_, (Iterates.tried hs hp hd hstep (tryStep_misses c _ _ (.inl (by omega)))).run⟩

theorem retry_of_unprepared {c : Settings α} {s : State α n} (hs : s.Active c) (hv : 0 < k)
    (hk : k ≤ s.preparingCalls c) :
    (s.iterate (failingAt F k e) c).run 0 = (⟨s, .error (.eval e)⟩, k) ∧
      ¬ s.FailsAfterRejection (failingAt F k e) c 0 := by
  have hp : (s.prepare (failingAt F k e) c).run 0 = _ := prepare_hits c s hv (by omega)
  refine ⟨(Iterates.unprepared hs hp).run, ?_⟩
  rintro ⟨p, step, value, u, v, e', w', hp', -⟩
  rw [hp] at hp'
  cases hp'

/-- A failed trial leaves the proposed step, and the next iteration proposes it again. -/
theorem retry_of_failed_trial {c : Settings α} {s : State α n} {p : Preparation α n}
    {step : Step α n} (hs : s.Active c) (hp : (s.prepare (failingAt F k e) c).run 0 = (.ok p, v))
    (hd : p.isUndetermined = false) (hstep : p.step? = some step) (hk : v + 1 = k) :
    (s.iterate (failingAt F k e) c).run 0 = (⟨p.state.propose step, .error (.eval e)⟩, k) ∧
      ¬ s.FailsAfterRejection (failingAt F k e) c 0 ∧
      ∃ a u, ((p.state.propose step).iterate (failingAt F k e) c).run k = (a, u) ∧
        a.answer = (p.triedBy F c step).answer ∧ a.state = (p.triedBy F c step).state := by
  have hactive := hs.of_samePlace (prepare_samePlace hp)
  refine ⟨(Iterates.tried hs hp hd hstep (Tries.failed (failingAt_hits hk _)).run).run, ?_, ?_⟩
  · rintro ⟨p', step', value, u, v', e', w', hp', hstep', hcall, -⟩
    rw [hp] at hp'
    cases hp'
    rw [failingAt_hits hk] at hcall
    cases hcall
  · have hagain := tryStep_misses (F := F) (e := e) c ((p.state.propose step).preparedAsIs c) step
      (.inl (Nat.le_refl k))
    have ht : (p.state.propose step).Active c :=
      ⟨hactive.running, hactive.inBudget, hactive.notAtRoot⟩
    exact ⟨_, _, iterate_again hp hd hstep ht rfl rfl rfl rfl hagain, rfl, rfl⟩

/-- A failed refresh leaves the evaluation of the trial point, which the next iteration makes
again. -/
theorem retry_of_failed_refresh {c : Settings α} {s : State α n} {p : Preparation α n}
    {step : Step α n} (hs : s.Active c) (hp : (s.prepare (failingAt F k e) c).run 0 = (.ok p, v))
    (hd : p.isUndetermined = false) (hstep : p.step? = some step)
    (hr : (p.trialBy F c step).refreshed = true) (hv : v + 1 < k) (hk : k ≤ v + 1 + n) :
    (s.iterate (failingAt F k e) c).run 0 = (⟨p.tested step, .error (.eval e)⟩, k) ∧
      s.FailsAfterRejection (failingAt F k e) c 0 ∧
      ∃ a u, ((p.tested step).iterate (failingAt F k e) c).run k = (a, u) ∧
        a.answer = (p.triedBy F c step).answer ∧
        a.state = (p.triedBy F c step).state.counted := by
  have hactive := hs.of_samePlace (prepare_samePlace hp)
  have hcall := failingAt_misses (F := F) (e := e) (.inr hv) (p.state.x.addScaled 1 step.move)
  have hrefresh := refresh_hits (F := F) (e := e) c (p.tested step) hv hk
  refine ⟨(Iterates.tried hs hp hd hstep (Tries.unrefreshed hcall hr hrefresh).run).run,
    ⟨p, step, _, v, v + 1, e, k, hp, hstep, hcall, hr, hrefresh⟩, ?_⟩
  have hagain := tryStep_misses (F := F) (e := e) c ((p.tested step).preparedAsIs c) step
    (.inl (Nat.le_refl k))
  have ht : (p.tested step).Active c := ⟨hactive.running, hactive.inBudget, hactive.notAtRoot⟩
  have hsame : ((p.tested step).preparedAsIs c).trialBy F c step = p.trialBy F c step := rfl
  have htested : ((p.tested step).preparedAsIs c).tested step = (p.tested step).counted := rfl
  refine ⟨_, _, iterate_again hp hd hstep ht rfl rfl rfl rfl hagain, ?_, ?_⟩
  · simp only [Preparation.triedBy, Attempt.answer, hsame, htested, hr, if_true,
      renewedBy_counted, commit_counted]
    rfl
  · simp only [Preparation.triedBy, hsame, htested, hr, if_true, renewedBy_counted,
      commit_counted]

/-- Whichever call of an iteration fails, the next iteration ends as the first would have ended
without the failure. It has made one evaluation more if the refresh after a rejection failed. -/
theorem retry_completes {c : Settings α} {s : State α n} {b : Attempt α n} {w : Nat}
    (hb : (s.iterate (failingAt F 0 e) c).run 0 = (b, w)) (hv : 0 < k) (hk : k ≤ w) :
    ∃ a a' u, (s.iterate (failingAt F k e) c).run 0 = (a, k) ∧ a.result = .error (.eval e) ∧
      (a.state.iterate (failingAt F k e) c).run k = (a', u) ∧ a'.answer = b.answer ∧
      (¬ s.FailsAfterRejection (failingAt F k e) c 0 → a'.state = b.state) ∧
      (s.FailsAfterRejection (failingAt F k e) c 0 → a'.state = b.state.counted) := by
  have hs : s.Active c := active_of_calls hb (by omega)
  by_cases hprep : k ≤ s.preparingCalls c
  · obtain ⟨hfirst, hnot⟩ := retry_of_unprepared (F := F) (e := e) hs hv hprep
    obtain ⟨u, hretry⟩ := iterate_behind (k := k) hb
    exact ⟨_, b, u, hfirst, rfl, hretry, rfl, fun _ => rfl, fun h => absurd h hnot⟩
  have hp₀ : (s.prepare (failingAt F 0 e) c).run 0 = _ := prepare_misses c s (.inl (by omega))
  have hp : (s.prepare (failingAt F k e) c).run 0 = _ := prepare_misses c s (.inr (by omega))
  cases iterate_iterates hb with
  | ended => omega
  | exhausted => omega
  | atRoot => omega
  | unprepared _ hr =>
    rw [hp₀] at hr
    cases hr
  | undetermined _ hr =>
    rw [hp₀] at hr
    cases hr
    omega
  | singular _ hr =>
    rw [hp₀] at hr
    cases hr
    omega
  | @tried p step _ _ _ _ hr hd hstep ht =>
    rw [hp₀] at hr
    cases hr
    rw [tryStep_misses c _ _ (.inl (by omega))] at ht
    cases ht
    by_cases htrial : 0 + s.preparingCalls c + 1 = k
    · obtain ⟨hfirst, hnot, a, u, hretry, hanswer, hstate⟩ :=
        retry_of_failed_trial hs hp hd hstep htrial
      exact ⟨_, a, u, hfirst, rfl, hretry, hanswer, fun _ => hstate, fun h => absurd h hnot⟩
    · rw [Preparation.tryingCalls] at hk
      cases hrefreshed : ((s.preparedBy F c).trialBy F c step).refreshed with
      | false =>
        simp only [hrefreshed, Bool.false_eq_true, if_false] at hk
        omega
      | true =>
        rw [if_pos hrefreshed] at hk
        obtain ⟨hfirst, hyes, a, u, hretry, hanswer, hstate⟩ :=
          retry_of_failed_refresh hs hp hd hstep hrefreshed (by omega) (by omega)
        exact ⟨_, a, u, hfirst, rfl, hretry, hanswer, fun h => absurd hyes h, fun _ => hstate⟩

/-- In its second iteration the run across the jump makes two calls for a new Jacobian and a third
where the step leads; the third fails. -/
theorem retry_completes_jumping :
    ∃ (s : State Float 2) (b : Attempt Float 2) (w : Nat),
      (s.iterate (failingAt jumping 0 (.nonFinite 0)) .standard).run 0 = (b, w) ∧ 3 ≤ w ∧
      ∃ (a a' : Attempt Float 2) (u : Nat),
        (s.iterate (failingAt jumping 3 (.nonFinite 0)) .standard).run 0 = (a, 3) ∧
        a.result = .error (.eval (.nonFinite 0)) ∧
        (a.state.iterate (failingAt jumping 3 (.nonFinite 0)) .standard).run 3 = (a', u) ∧
        a'.answer = b.answer ∧
        (¬ s.FailsAfterRejection (failingAt jumping 3 (.nonFinite 0)) .standard 0 →
          a'.state = b.state) ∧
        (s.FailsAfterRejection (failingAt jumping 3 (.nonFinite 0)) .standard 0 →
          a'.state = b.state.counted) := by
  obtain ⟨s, w, -, h⟩ := exists_reachable (failingAt jumping 0 (.nonFinite 0)) .standard [0, 0] 1 0
    (fun s _ =>
      decide (3 ≤ ((s.iterate (failingAt jumping 0 (.nonFinite 0)) .standard).run 0).2))
    (by decide +kernel)
  have hk := of_decide_eq_true h
  exact ⟨s, _, _, rfl, hk, retry_completes rfl (by decide) hk⟩

end State

end RootFinder
