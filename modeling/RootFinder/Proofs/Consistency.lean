import RootFinder.Proofs.Comparison
import RootFinder.Proofs.Record
import RootFinder.Sweep
import RootFinder.Systems.Restricted

/-! Residuals belong to their point. The calls of a system may fail in any pattern, but those that
succeed answer with the values of one function. Then every state that a run can reach, and every
point that a search shows or ends with, has the values of that function as its residuals, and
these are finite. A trial point where they are not is rejected. -/

namespace RootFinder

variable {σ α : Type} {n : Nat}

/-- Calls that succeed answer with the values of `F`. -/
def Equations.Answers (sys : Equations (StateM σ) α n) (F : Vec α n → Vec α n) : Prop :=
  ∀ x w f w', (sys x).run w = (.ok f, w') → f = F x

theorem interrupted_answers (failing : List Nat) (F : Vec α n → Vec α n) :
    (interrupted failing fun x => .ok (F x)).Answers F := by
  intro x w f w' h
  change (if w + 1 ∈ failing then _ else _ : StateM Nat _).run (w + 1) = _ at h
  by_cases hcall : w + 1 ∈ failing
  · rw [if_pos hcall] at h
    cases h
  · rw [if_neg hcall] at h
    cases h
    rfl

variable [Scalar α]

def Consistent (F : Vec α n → Vec α n) (x f : Vec α n) : Prop :=
  f = F x ∧ f.isFinite = true

theorem Gain.ofTrial_ratio_of_nonFinite {J : Mat α n} {f step value : Vec α n}
    (h : value.isFinite = false) : (ofTrial J f step value).ratio = 0 := by
  simp [ofTrial, h]

namespace State

/-- No ratio but a positive one is accepted. -/
theorem isFinite_of_accepted [LawfulComparison α] {c : Settings α} (hc : c.Valid) {s : State α n}
    {step : Step α n} {value : Vec α n} (h : (s.judge c step value).accepted = true) :
    value.isFinite = true := by
  cases hv : value.isFinite with
  | true => rfl
  | false =>
    have hle := of_decide_eq_true h
    rw [Gain.ofTrial_ratio_of_nonFinite hv] at hle
    exact absurd hle (Scalar.not_le_of_lt hc.acceptThreshold_pos)

theorem start_consistent {sys : Equations (StateM σ) α n} {F : Vec α n → Vec α n}
    (hsys : sys.Answers F) {c : Settings α} {point : List α} {w w' : σ} {s : State α n}
    (h : (start sys c point).run w = (.ok s, w')) : Consistent F s.x s.f := by
  obtain ⟨x, f, d, v, -, hf, hn, -, -, rfl⟩ := start_eq_ok h
  exact ⟨hsys x w f v hf, Vec.firstNonFinite?_eq_none_iff.mp hn⟩

theorem tryStep_consistent [LawfulComparison α] {sys : Equations (StateM σ) α n}
    {F : Vec α n → Vec α n} (hsys : sys.Answers F) {c : Settings α} (hc : c.Valid)
    {p : Preparation α n} {step : Step α n} {w w' : σ} {a : Attempt α n}
    (hp : Consistent F p.state.x p.state.f) (h : (tryStep sys c p step).run w = (a, w')) :
    Consistent F a.state.x a.state.f := by
  cases tryStep_tries h with
  | failed => exact hp
  | unrefreshed => exact hp
  | @judged value _ hcall =>
    rw [commit_x, commit_f]
    cases haccepted : (p.trial c step value).accepted with
    | false => exact hp
    | true => exact ⟨hsys _ _ _ _ hcall, isFinite_of_accepted hc haccepted⟩
  | refreshed _ hr hf =>
    obtain ⟨hx, hres⟩ := commit_stays c _ (not_accepted_of_refreshed hr)
    have hplace := refresh_samePlace hf
    rw [hx, hres, hplace.x, hplace.f]
    exact hp

variable [SingularValues α]

theorem iterate_consistent [LawfulComparison α] {sys : Equations (StateM σ) α n}
    {F : Vec α n → Vec α n} (hsys : sys.Answers F) {c : Settings α} (hc : c.Valid)
    {s : State α n} {w w' : σ} {a : Attempt α n} (hs : Consistent F s.x s.f)
    (h : (s.iterate sys c).run w = (a, w')) : Consistent F a.state.x a.state.f := by
  refine iterate_keeps (P := fun t => Consistent F t.x t.f) h hs ?_ (fun _ _ ht => ht) ?_
  · intro r v v' hr
    obtain ⟨hx, hf⟩ := refresh_samePlace hr
    rw [hx, hf]
    exact hs
  · intro p step v b v' hp _ _ ht
    exact tryStep_consistent hsys hc hp ht

theorem Reachable.consistent [LawfulComparison α] {sys : Equations (StateM σ) α n}
    {F : Vec α n → Vec α n} (hsys : sys.Answers F) {c : Settings α} {s : State α n}
    (h : s.Reachable sys c) : Consistent F s.x s.f :=
  h.invariant (fun _ _ _ _ hstart => start_consistent hsys hstart)
    (fun _ _ _ _ hs hiterate => iterate_consistent hsys h.valid hs hiterate)

/-- The iteration gets the value where its step leads. -/
structure Evaluates (sys : Equations (StateM σ) α n) (c : Settings α) (s : State α n) (w : σ)
    (p : Preparation α n) (step : Step α n) (value : Vec α n) (v : σ) : Prop where
  active : s.Active c
  determined : p.isUndetermined = false
  proposed : p.step? = some step
  called : ∃ u, (s.prepare sys c).run w = (.ok p, u) ∧
    (sys (p.state.x.addScaled 1 step.move)).run u = (.ok value, v)

theorem Evaluates.tries {sys : Equations (StateM σ) α n} {c : Settings α} {s : State α n}
    {w v w' : σ} {p : Preparation α n} {step : Step α n} {value : Vec α n} {a : Attempt α n}
    (he : Evaluates sys c s w p step value v) (h : (s.iterate sys c).run w = (a, w')) :
    ∃ u, (sys (p.state.x.addScaled 1 step.move)).run u = (.ok value, v) ∧
      Tries sys c p step u a w' := by
  obtain ⟨hs, hd, hstep, u, hp, hcall⟩ := he
  rw [hs.iterate_eq, run_bind_of_eq hp] at h
  simp only [hd, hstep] at h
  exact ⟨u, hcall, tryStep_tries h⟩

/-- How a judgement is carried out: in the prepared state, or in that state with the Jacobian that
was differenced anew because of it. -/
inductive Commits (sys : Equations (StateM σ) α n) (c : Settings α) (s : State α n) (w : σ)
    (p : Preparation α n) (t : Trial α n) : Attempt α n → σ → Prop
  | kept {v : σ} (he : Evaluates sys c s w p t.step t.value v)
      (hj : t = p.trial c t.step t.value) (hr : t.refreshed = false) :
      Commits sys c s w p t ⟨(p.tested t.step).commit c t, .ok (.tried p t)⟩ v
  | renewed {v w' : σ} {r : State α n} (he : Evaluates sys c s w p t.step t.value v)
      (hj : t = p.trial c t.step t.value) (hr : t.refreshed = true)
      (hf : ((p.tested t.step).refresh sys c).run v = (.ok r, w')) :
      Commits sys c s w p t ⟨r.commit c t, .ok (.tried p t)⟩ w'

theorem commits_of_tried {sys : Equations (StateM σ) α n} {c : Settings α} {s : State α n}
    {w w' : σ} {a : Attempt α n} {p : Preparation α n} {t : Trial α n}
    (h : (s.iterate sys c).run w = (a, w')) (hr : a.result = .ok (.tried p t)) :
    Commits sys c s w p t a w' := by
  cases iterate_iterates h with
  | ended => cases hr
  | exhausted => cases hr
  | atRoot => cases hr
  | unprepared => cases hr
  | undetermined => cases hr
  | singular => cases hr
  | tried hs hp hd hstep ht =>
    cases tryStep_tries ht with
    | failed => cases hr
    | unrefreshed => cases hr
    | judged hcall hkept =>
      cases hr
      exact .kept ⟨hs, hd, hstep, _, hp, hcall⟩ rfl hkept
    | refreshed hcall hrenewed hf =>
      cases hr
      exact .renewed ⟨hs, hd, hstep, _, hp, hcall⟩ rfl hrenewed hf

theorem evaluates_of_tried {sys : Equations (StateM σ) α n} {c : Settings α} {s : State α n}
    {w w' : σ} {a : Attempt α n} {p : Preparation α n} {t : Trial α n}
    (h : (s.iterate sys c).run w = (a, w')) (hr : a.result = .ok (.tried p t)) :
    ∃ v, Evaluates sys c s w p t.step t.value v := by
  cases commits_of_tried h hr with
  | kept he => exact ⟨_, he⟩
  | renewed he => exact ⟨_, he⟩

/-- A step to a value that is not finite is rejected. Only a call that fails when the Jacobian is
differenced anew because of the rejection can make the iteration fail. -/
theorem nonFinite_rejected [LawfulComparison α] {sys : Equations (StateM σ) α n} {c : Settings α}
    (hc : c.Valid) {s : State α n} {w v w' : σ} {p : Preparation α n} {step : Step α n}
    {value : Vec α n} {a : Attempt α n} (he : Evaluates sys c s w p step value v)
    (hvalue : value.isFinite = false) (h : (s.iterate sys c).run w = (a, w')) :
    a.state.x = s.x ∧ a.state.f = s.f ∧
      (((p.trial c step value).accepted = false ∧
          a.result = .ok (.tried p (p.trial c step value))) ∨
        ∃ e j u, a.result = .error (.eval e) ∧
          (sys (Jacobian.neighbour c.differenceStep s.x j)).run u = (.error e, w')) := by
  obtain ⟨u, hcall, htries⟩ := he.tries h
  obtain ⟨-, -, -, u', hp, -⟩ := he
  obtain ⟨hx, hf⟩ := prepare_samePlace hp
  have hrejected : (p.trial c step value).accepted = false := by
    cases hacc : (p.trial c step value).accepted with
    | false => rfl
    | true =>
      rw [isFinite_of_accepted hc hacc] at hvalue
      cases hvalue
  cases htries with
  | failed hcall' =>
    rw [hcall] at hcall'
    cases hcall'
  | judged hcall' =>
    rw [hcall] at hcall'
    cases hcall'
    obtain ⟨hx', hf'⟩ := commit_stays c (p.tested step) hrejected
    exact ⟨hx'.trans hx, hf'.trans hf, .inl ⟨hrejected, rfl⟩⟩
  | unrefreshed hcall' _ hfail =>
    obtain ⟨j, u, hj⟩ := refresh_eq_error hfail
    exact ⟨hx, hf, .inr ⟨_, j, u, rfl, hx ▸ hj⟩⟩
  | refreshed hcall' _ hr =>
    rw [hcall] at hcall'
    cases hcall'
    have hplace := refresh_samePlace hr
    obtain ⟨hx', hf'⟩ := commit_stays c _ hrejected
    exact ⟨hx'.trans (hplace.x.trans hx), hf'.trans (hplace.f.trans hf),
      .inl ⟨hrejected, rfl⟩⟩

end State

def Outcome.IsConsistent (F : Vec α n → Vec α n) : Outcome α n → Prop
  | .ok root => Consistent F root.x root.f
  | .error failure => ∀ values, failure.f = some values →
    ∃ x f : Vec α n, failure.x = x.toList ∧ values = f.toList ∧ Consistent F x f

theorem State.Yields.consistent {F : Vec α n → Vec α n} {s : State α n} {o : Outcome α n}
    (h : s.Yields o) (hs : Consistent F s.x s.f) : o.IsConsistent F := by
  have hfailure (values : List α) (hv : some s.f.toList = some values) :
      ∃ x f : Vec α n, s.x.toList = x.toList ∧ values = f.toList ∧ Consistent F x f :=
    ⟨s.x, s.f, rfl, (Option.some.inj hv).symm, hs⟩
  cases h with
  | root => exact hs
  | failure => exact hfailure
  | brokenDown => exact hfailure

variable [SingularValues α] [LawfulComparison α]

/-- Residuals are those of their point and finite, in every reachable state and in all that a
search shows and tells; a trial point where they are not finite is rejected. -/
theorem consistent_of_answers {sys : Equations (StateM σ) α n} {F : Vec α n → Vec α n}
    (hsys : sys.Answers F) (c : Settings α) :
    (∀ s, State.Reachable sys c s → Consistent F s.x s.f) ∧
    (∀ s w p step value v a w', State.Reachable sys c s →
      State.Evaluates sys c s w p step value v → value.isFinite = false →
      (s.iterate sys c).run w = (a, w') →
      a.state.x = s.x ∧ a.state.f = s.f ∧
        (((p.trial c step value).accepted = false ∧
            a.result = .ok (.tried p (p.trial c step value))) ∨
          ∃ e j u, a.result = .error (.eval e) ∧
            (sys (Jacobian.neighbour c.differenceStep s.x j)).run u = (.error e, w'))) ∧
    (∀ observe point w o w', (search sys observe c point).run w = (o, w') →
      o.IsConsistent F ∧
      ∃ shots, (search (sys.beside _) (recording observe) c point).run (w, []) =
          (o, (w', shots)) ∧
        ∀ shot ∈ shots, Consistent F shot.state.x shot.state.f) := by
  refine ⟨fun s hs => hs.consistent hsys, ?_, ?_⟩
  · intro s w p step value v a w' hs he hvalue h
    exact State.nonFinite_rejected hs.valid he hvalue h
  · intro observe point w o w' h
    obtain ⟨shots, hrecord, hshots, hend⟩ := search_recorded h
    refine ⟨?_, shots, hrecord, fun shot hshot => (hshots shot hshot).consistent hsys⟩
    rcases hend with ⟨e, rfl⟩ | ⟨t, ht, hyields⟩
    · intro values hvalues
      cases hvalues
    · exact hyields.consistent (ht.consistent hsys)

/-- Two linear equations, the first without a value from one half on. -/
def walled (x : Vec Float 2) : Vec Float 2 :=
  let u := Vec.first x
  let v := Vec.first (Vec.tail x)
  Vector.mk #[if u < 0.5 then u - 1 else 0 / 0, 2 * v - 1] rfl

theorem consistent_of_answers_walled :
    ∃ s w p step value v a w',
      State.Reachable (interrupted [5] fun x => .ok (walled x)) .standard s ∧
      State.Evaluates (interrupted [5] fun x => .ok (walled x)) .standard s w p step value v ∧
      value.isFinite = false ∧
      (s.iterate (interrupted [5] fun x => .ok (walled x)) .standard).run w = (a, w') ∧
      Consistent walled s.x s.f ∧ a.state.x = s.x ∧ a.state.f = s.f := by
  obtain ⟨hreachable, hrejected, -⟩ :=
    consistent_of_answers (interrupted_answers [5] walled) .standard
  obtain ⟨s, w, hs, h⟩ := State.exists_reachable (interrupted [5] fun x => .ok (walled x))
    .standard [0, 0] 0 0
    (fun s w =>
      match ((s.iterate (interrupted [5] fun x => .ok (walled x)) .standard).run w).1.result with
      | .ok (.tried _ t) => !t.value.isFinite
      | _ => false)
    (by decide +kernel)
  split at h
  · next p t hr =>
    obtain ⟨v, he⟩ := State.evaluates_of_tried rfl hr
    have hvalue : t.value.isFinite = false := by simpa using h
    obtain ⟨hx, hf, -⟩ := hrejected s w p t.step t.value v _ _ hs he hvalue rfl
    exact ⟨s, w, p, t.step, t.value, v, _, _, hs, he, hvalue, rfl, hreachable s hs, hx, hf⟩
  · cases h

end RootFinder
