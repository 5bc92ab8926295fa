import RootFinder.Proofs.Consistency

/-! What a judged step leaves. The step is judged in the prepared state, and what the judgement
says is carried out there too, or in that state with its Jacobian differenced anew. Only a step
that is accepted changes the point and its residuals. -/

namespace RootFinder

variable {σ α : Type} [Scalar α] {n : Nat}

namespace Preparation

variable (c : Settings α) (p : Preparation α n) (step : Step α n) (value : Vec α n)

@[simp]
theorem trial_gain :
    (p.trial c step value).gain =
      Gain.ofTrial p.state.jacobian.matrix p.state.f step.move value :=
  rfl

theorem trial_accepted_iff :
    (p.trial c step value).accepted = true ↔
      c.acceptThreshold ≤ (p.trial c step value).gain.ratio :=
  decide_eq_true_iff

end Preparation

namespace State

variable [SingularValues α]

/-- The iteration judges the step `t` that was found in the preparation `p`, and goes on from the
state `q`. -/
structure Judges (sys : Equations (StateM σ) α n) (c : Settings α) (s : State α n) (w : σ)
    (p : Preparation α n) (t : Trial α n) (q : State α n) : Prop where
  evaluates : ∃ v, Evaluates sys c s w p t.step t.value v
  judgement : t = p.trial c t.step t.value
  prepared : SamePlace s p.state
  place : SamePlace p.state q
  step : q.step = t.step.move

variable {sys : Equations (StateM σ) α n} {c : Settings α} {s : State α n} {w w' : σ}
  {a : Attempt α n}

theorem Judges.samePlace {p : Preparation α n} {t : Trial α n} {q : State α n}
    (h : Judges sys c s w p t q) : SamePlace s q :=
  h.prepared.trans h.place

-- Both kinds of judged steps carry the trial of the prepared state; they differ in the state that
-- the judgement is carried out in.
theorem judges_of_tried {p : Preparation α n} {t : Trial α n}
    (h : (s.iterate sys c).run w = (a, w')) (hr : a.result = .ok (.tried p t)) :
    ∃ q, Judges sys c s w p t q ∧ a.state = q.commit c t := by
  have htested := tested_samePlace p t.step
  cases commits_of_tried h hr with
  | kept he hj =>
    obtain ⟨u, hp, -⟩ := he.called
    exact ⟨_, ⟨⟨_, he⟩, hj, prepare_samePlace hp, htested, rfl⟩, rfl⟩
  | renewed he hj _ hf =>
    obtain ⟨u, hp, -⟩ := he.called
    have hplace := htested.trans (refresh_samePlace hf)
    obtain ⟨d, -, -, rfl⟩ := refresh_eq_ok hf
    exact ⟨_, ⟨⟨_, he⟩, hj, prepare_samePlace hp, hplace, rfl⟩, rfl⟩

theorem Judges.x_eq {p : Preparation α n} {t : Trial α n} {q : State α n}
    (h : Judges sys c s w p t q) : q.x = s.x :=
  h.place.x.trans h.prepared.x

/-- An iteration moves to another point only by a step that it accepts. -/
theorem iterate_stays_or_accepts (h : (s.iterate sys c).run w = (a, w')) :
    (a.state.x = s.x ∧ a.state.f = s.f) ∨
      ∃ p t, a.result = .ok (.tried p t) ∧ t.accepted = true := by
  cases iterate_iterates h with
  | ended => exact .inl ⟨rfl, rfl⟩
  | exhausted => exact .inl ⟨rfl, rfl⟩
  | atRoot => exact .inl ⟨rfl, rfl⟩
  | unprepared => exact .inl ⟨rfl, rfl⟩
  | undetermined _ hp => exact .inl ⟨(prepare_samePlace hp).x, (prepare_samePlace hp).f⟩
  | singular _ hp => exact .inl ⟨(prepare_samePlace hp).x, (prepare_samePlace hp).f⟩
  | @tried p step _ _ _ _ hp _ _ ht =>
    obtain ⟨hx, hf⟩ := prepare_samePlace hp
    cases tryStep_tries ht with
    | failed => exact .inl ⟨hx, hf⟩
    | unrefreshed => exact .inl ⟨hx, hf⟩
    | @judged value =>
      cases haccepted : (p.trial c step value).accepted with
      | true => exact .inr ⟨p, _, rfl, haccepted⟩
      | false =>
        obtain ⟨hx', hf'⟩ := commit_stays c (p.tested step) haccepted
        exact .inl ⟨hx'.trans hx, hf'.trans hf⟩
    | refreshed _ hr hrefresh =>
      have hplace := refresh_samePlace hrefresh
      obtain ⟨hx', hf'⟩ := commit_stays c _ (not_accepted_of_refreshed hr)
      exact .inl ⟨hx'.trans (hplace.x.trans hx), hf'.trans (hplace.f.trans hf)⟩

end State

end RootFinder
