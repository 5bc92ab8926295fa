import RootFinder.Proofs.Differencing
import RootFinder.Proofs.Success

/-! What a fresh Jacobian is. It is the one that differencing gives, but not always at the point of
the run: a step too short for a secant update moves the point and leaves the Jacobian fresh, though
stale. A Jacobian that is fresh and not stale belongs to the point. -/

namespace RootFinder

variable {σ α : Type} [Scalar α] {n : Nat}

/-- Steps too short for an update lead from one point to the other, at least one if the Jacobian
is stale. -/
inductive Drift : Vec α n → Vec α n → Bool → Prop
  | here (x : Vec α n) : Drift x x false
  | short {x y step : Vec α n} {stale : Bool} (h : Drift x y stale)
      (hstep : Jacobian.isNegligible step = true) : Drift x (y.addScaled 1 step) true

theorem Drift.eq_of_not_stale {x y : Vec α n} {stale : Bool} (h : Drift x y stale)
    (hs : stale = false) : x = y := by
  cases h with
  | here => rfl
  | short => cases hs

theorem Jacobian.update_of_fresh {jac : Jacobian α n} {step df : Vec α n}
    (h : (jac.update step df).fresh = true) :
    isNegligible step = true ∧ jac.fresh = true ∧
      jac.update step df = { jac with stale := true } := by
  unfold update at *
  by_cases hstep : isNegligible step = true
  · rw [if_pos hstep] at h ⊢
    exact ⟨hstep, h, rfl⟩
  · rw [if_neg hstep] at h
    cases h

namespace State

structure Anchored (sys : Equations (StateM σ) α n) (F : Vec α n → Except EvalError (Vec α n))
    (c : Settings α) (s : State α n) : Prop where
  answers : F s.x = .ok s.f
  differenced : s.jacobian.fresh = true → ∃ x f, F x = .ok f ∧
    sys.Differences c.differenceStep x f s.jacobian.matrix ∧ Drift x s.x s.jacobian.stale

variable {sys : Equations (StateM σ) α n} {F : Vec α n → Except EvalError (Vec α n)}
  {c : Settings α}

theorem anchored_of_difference (hsys : sys.IsPure F) {t : State α n} {jac : Jacobian α n}
    {d : Differencing α n} {w w' : σ} (hs : F t.x = .ok t.f)
    (hd : (jac.difference sys c.differenceStep t.x t.f).run w = (d, w')) (hf : d.failure = none)
    (ht : t.jacobian = d.jacobian) : Anchored sys F c t := by
  refine ⟨hs, fun _ => ⟨t.x, t.f, hs, ?_, ?_⟩⟩
  · rw [ht]
    exact hsys.differences hd hf
  · obtain ⟨a, count, rfl, -⟩ := Jacobian.difference_eq_ok hd hf
    rw [ht]
    exact .here t.x

theorem start_anchored (hsys : sys.IsPure F) {point : List α} {w w' : σ} {s : State α n}
    (h : (start sys c point).run w = (.ok s, w')) : Anchored sys F c s := by
  obtain ⟨x, f, d, v, -, hx, -, hd, hfail, rfl⟩ := start_eq_ok h
  exact anchored_of_difference (t := initial c x f d) hsys (hsys.of_run hx) hd hfail rfl

theorem refresh_anchored (hsys : sys.IsPure F) {s r : State α n} {w w' : σ}
    (hs : Anchored sys F c s) (h : (s.refresh sys c).run w = (.ok r, w')) :
    Anchored sys F c r := by
  obtain ⟨d, hd, hfail, rfl⟩ := refresh_eq_ok h
  exact anchored_of_difference (t := s.renewed c d) hsys hs.answers hd hfail rfl

theorem commit_anchored {s : State α n} {t : Trial α n} (hs : Anchored sys F c s)
    (ht : t.accepted = true → F (s.x.addScaled 1 s.step) = .ok t.value) :
    Anchored sys F c (s.commit c t) := by
  cases haccepted : t.accepted with
  | false =>
    have hx : (s.commit c t).x = s.x := by rw [commit_x, haccepted]; rfl
    have hf : (s.commit c t).f = s.f := by rw [commit_f, haccepted]; rfl
    have hj : (s.commit c t).jacobian = s.jacobian := by rw [commit_jacobian, haccepted]; rfl
    constructor
    · rw [hx, hf]
      exact hs.answers
    · rw [hx, hj]
      exact hs.differenced
  | true =>
    have hx : (s.commit c t).x = s.x.addScaled 1 s.step := by rw [commit_x, if_pos haccepted]
    have hf : (s.commit c t).f = t.value := by rw [commit_f, if_pos haccepted]
    constructor
    · rw [hx, hf]
      exact ht haccepted
    · rw [hx, commit_jacobian, if_pos haccepted]
      intro hfresh
      -- An update that was carried out would have made the Jacobian no longer fresh.
      obtain ⟨hshort, hbefore, hleft⟩ := Jacobian.update_of_fresh hfresh
      obtain ⟨x, f, hanswer, hdiff, hdrift⟩ := hs.differenced hbefore
      rw [hleft]
      exact ⟨x, f, hanswer, hdiff, hdrift.short hshort⟩

theorem tryStep_anchored (hsys : sys.IsPure F) {p : Preparation α n} {step : Step α n} {w w' : σ}
    {a : Attempt α n} (hp : Anchored sys F c p.state)
    (h : (tryStep sys c p step).run w = (a, w')) : Anchored sys F c a.state := by
  have htested : Anchored sys F c (p.tested step) := ⟨hp.answers, hp.differenced⟩
  cases tryStep_tries h with
  | failed => exact ⟨hp.answers, hp.differenced⟩
  | unrefreshed => exact htested
  | judged hcall => exact commit_anchored htested fun _ => hsys.of_run hcall
  | refreshed _ hr hf =>
    have hrejected := not_accepted_of_refreshed hr
    refine commit_anchored (refresh_anchored hsys htested hf) fun haccepted => ?_
    rw [hrejected] at haccepted
    cases haccepted

variable [SingularValues α]

theorem iterate_anchored (hsys : sys.IsPure F) {s : State α n} {w w' : σ} {a : Attempt α n}
    (hs : Anchored sys F c s) (h : (s.iterate sys c).run w = (a, w')) :
    Anchored sys F c a.state :=
  iterate_keeps h hs (fun _ _ _ hr => refresh_anchored hsys hs hr)
    (fun _ _ ht => ⟨ht.answers, ht.differenced⟩)
    (fun _ _ _ _ _ hp _ _ ht => tryStep_anchored hsys hp ht)

theorem Reachable.anchored (hsys : sys.IsPure F) {s : State α n} (h : s.Reachable sys c) :
    Anchored sys F c s :=
  h.invariant (fun _ _ _ _ hstart => start_anchored hsys hstart)
    (fun _ _ _ _ hs hiterate => iterate_anchored hsys hs hiterate)

/-- A fresh Jacobian that is not stale is what differencing gives at the point of the run. One that
is stale too comes from a point from which only steps too short for an update have led here. -/
theorem fresh_jacobian_differenced (hsys : sys.IsPure F) {s : State α n} (hs : s.Reachable sys c)
    (hfresh : s.jacobian.fresh = true) :
    (s.jacobian.stale = false →
      sys.Differences c.differenceStep s.x s.f s.jacobian.matrix) ∧
    ∃ x f, F x = .ok f ∧ sys.Differences c.differenceStep x f s.jacobian.matrix ∧
      Drift x s.x s.jacobian.stale := by
  obtain ⟨hanswers, hdifferenced⟩ := hs.anchored hsys
  obtain ⟨x, f, hf, hdiff, hdrift⟩ := hdifferenced hfresh
  refine ⟨?_, x, f, hf, hdiff, hdrift⟩
  intro hstale
  have hx := hdrift.eq_of_not_stale hstale
  subst hx
  rw [hanswers] at hf
  cases hf
  exact hdiff

/-- The first step from 4 goes too far and is rejected. -/
theorem fresh_jacobian_differenced_reciprocal :
    ∃ s : State Float 1, s.Reachable (interrupted [] reciprocal) .standard ∧ s.iterations = 1 ∧
      s.jacobian.fresh = true ∧
      (interrupted [] reciprocal).Differences Settings.standard.differenceStep s.x s.f
        s.jacobian.matrix := by
  obtain ⟨s, -, hs, h⟩ := exists_reachable (interrupted [] reciprocal) .standard [4] 1 0
    (fun s _ => decide (s.iterations = 1 ∧ s.jacobian.fresh = true ∧ s.jacobian.stale = false))
    (by decide +kernel)
  obtain ⟨hone, hfresh, hstale⟩ := of_decide_eq_true h
  obtain ⟨hhere, -⟩ := fresh_jacobian_differenced (interrupted_isPure reciprocal) hs hfresh
  exact ⟨s, hs, hone, hfresh, hhere hstale⟩

end State

/-- Two equations for two unknowns, which change their form where the first unknown is tiny. -/
def drifting (x : Vec Float 2) : Except EvalError (Vec Float 2) :=
  let u := Vec.first x
  let v := Vec.first (Vec.tail x)
  if 0 ≤ u - 5e-157 then .ok (Vector.mk #[u, 2 * v] rfl)
  else .ok (Vector.mk #[-2.5e-157, v] rfl)

/-- The first step crosses to where the second slope is 1, but is too short for an update: the
Jacobian keeps the slope 2 of the other side and is still called fresh. -/
theorem fresh_jacobian_may_be_elsewhere :
    ∃ s : State Float 2, s.Reachable (interrupted [] drifting) .strict ∧ s.status = .running ∧
      s.jacobian.fresh = true ∧
      ¬ (interrupted [] drifting).Differences Settings.strict.differenceStep s.x s.f
        s.jacobian.matrix := by
  obtain ⟨s, w, hs, h⟩ := State.exists_reachable (interrupted [] drifting) .strict [1e-156, 0] 1 0
    (fun s w => decide (s.status = .running ∧ s.jacobian.fresh = true ∧
      ¬ s.jacobian.matrix.entry 1 1 < 1.5 ∧
      ((s.jacobian.difference (interrupted [] drifting) Settings.strict.differenceStep s.x
        s.f).run w).1.jacobian.matrix.entry 1 1 < 1.5))
    (by decide +kernel)
  obtain ⟨hrunning, hfresh, hkept, hanew⟩ := of_decide_eq_true h
  refine ⟨s, hs, hrunning, hfresh, ?_⟩
  intro hdiff
  rw [hdiff s.jacobian w] at hanew
  exact hkept hanew

end RootFinder
