import RootFinder.Proofs.Reachability
import RootFinder.Sweep
import RootFinder.Systems.Restricted

/-! What a failed call leaves of an iteration. The point, its residuals, the radius, the counts and
the status stay in any case. The Jacobian and the scaling stay unless a singular Jacobian that
carried updates was differenced anew before the call that failed: then the new Jacobian is kept. -/

namespace RootFinder

variable {σ α : Type} [Scalar α] {n : Nat}

namespace State

variable [SingularValues α]

/-- The iteration differences a singular Jacobian that carries updates anew, and no call fails
while it does so. -/
def Recomputes (sys : Equations (StateM σ) α n) (c : Settings α) (s : State α n) (w : σ) : Prop :=
  s.mustRecompute c = true ∧ ∃ r v, (s.refresh sys c).run w = (.ok r, v)

theorem matrix_ne_of_recomputed {c : Settings α} {s r : State α n} {step : Step α n}
    (hs : s.mustRecompute c = true) (h : (s.preparedAnew c r).step? = some step) :
    r.jacobian.matrix ≠ s.jacobian.matrix := by
  intro he
  have hf : r.factored c = s.factored c := by simp only [factored, he]
  obtain ⟨x, hx, -⟩ := Option.bind_eq_some_iff.mp h
  have hr : (r.factored c).2 = none := factored_of_solve? hx
  rw [hf] at hr
  simp [mustRecompute, hr] at hs

theorem kept_iff_not_recomputes {sys : Equations (StateM σ) α n} {c : Settings α}
    {s : State α n} {p : Preparation α n} {step : Step α n} {w v : σ}
    (hp : (s.prepare sys c).run w = (.ok p, v)) (hstep : p.step? = some step) :
    (p.state.jacobian.matrix = s.jacobian.matrix ∧ p.state.scaling = s.scaling) ↔
      ¬ s.Recomputes sys c w := by
  cases prepare_prepares hp with
  | asIs hs => simp [preparedAsIs, Recomputes, hs]
  | @anew r w' hs hr =>
    have hne := matrix_ne_of_recomputed hs hstep
    have hrec : s.Recomputes sys c w := ⟨hs, r, v, hr⟩
    simp [preparedAnew, hne, hrec]

/-- What stays after a failed call, and exactly when the Jacobian and the scaling stay as well. -/
theorem failed_call_keeps_jacobian_iff {sys : Equations (StateM σ) α n} {c : Settings α}
    {s : State α n} {w w' : σ} {a : Attempt α n} {e : EvalError}
    (h : (s.iterate sys c).run w = (a, w')) (he : a.result = .error (.eval e)) :
    SamePlace s a.state ∧
      ((a.state.jacobian.matrix = s.jacobian.matrix ∧ a.state.scaling = s.scaling) ↔
        ¬ s.Recomputes sys c w) := by
  cases iterate_iterates h with
  | ended => cases he
  | exhausted => cases he
  | atRoot => cases he
  | undetermined => cases he
  | singular => cases he
  | unprepared _ hp =>
    refine ⟨.refl s, fun _ => ?_, fun _ => ⟨rfl, rfl⟩⟩
    rintro ⟨hs, r, v, hr⟩
    cases prepare_prepares hp with
    | failed _ hr' =>
      rw [hr] at hr'
      cases hr'
  | tried _ hp _ hstep ht =>
    have hplace := prepare_samePlace hp
    have hkept := kept_iff_not_recomputes hp hstep
    -- The state of either failure differs from the prepared one in its last step and its count.
    cases tryStep_tries ht with
    | judged => cases he
    | refreshed => cases he
    | failed => exact ⟨hplace.trans (propose_samePlace _ _), hkept⟩
    | unrefreshed => exact ⟨hplace.trans (tested_samePlace _ _), hkept⟩

end State

/-- Two linear equations. From one half on the first residual is lower by a jump; a secant update
across the jump takes it for a slope and leaves a singular Jacobian. -/
def jumping (x : Vec Float 2) : Vec Float 2 :=
  let u := Vec.first x
  let v := Vec.first (Vec.tail x)
  Vector.mk #[u - 1 - (if 0.5 ≤ u then 1.25 else 0), 2 * v - 1] rfl

/-- Whether a call fails in the next iteration, and leaves the Jacobian in the relation `P` to the
one before. -/
def failsNext (sys : Equations (StateM Nat) Float 2) (P : Mat Float 2 → Mat Float 2 → Bool)
    (s : State Float 2) (w : Nat) : Bool :=
  match (s.iterate sys .standard).run w with
  | (⟨t, .error (.eval _)⟩, _) => P s.jacobian.matrix t.jacobian.matrix
  | _ => false

theorem failed_call_keeps_jacobian_jumping :
    ∃ s w a w' e,
      (s.iterate (interrupted [4] fun x => .ok (jumping x)) .standard).run w = (a, w') ∧
        a.result = .error (.eval e) ∧ State.SamePlace s a.state ∧
        ((a.state.jacobian.matrix = s.jacobian.matrix ∧ a.state.scaling = s.scaling) ↔
          ¬ s.Recomputes (interrupted [4] fun x => .ok (jumping x)) .standard w) := by
  obtain ⟨s, w, -, h⟩ := State.exists_reachable (interrupted [4] fun x => .ok (jumping x))
    .standard [0, 0] 0 0 (failsNext (interrupted [4] fun x => .ok (jumping x)) fun a b => a = b)
    (by decide +kernel)
  unfold failsNext at h
  split at h
  · next t e w' ha => exact ⟨s, w, _, w', e, ha, rfl, State.failed_call_keeps_jacobian_iff ha rfl⟩
  · cases h

/-- A call that fails after the Jacobian was differenced anew leaves the new one: the seventh of
the run from the origin, in its second iteration. -/
theorem failed_call_may_replace_jacobian :
    ∃ s w a w' e,
      State.Reachable (interrupted [7] fun x => .ok (jumping x)) .standard s ∧
        (s.iterate (interrupted [7] fun x => .ok (jumping x)) .standard).run w = (a, w') ∧
        a.result = .error (.eval e) ∧
        a.state.jacobian.matrix ≠ s.jacobian.matrix := by
  obtain ⟨s, w, hs, h⟩ := State.exists_reachable (interrupted [7] fun x => .ok (jumping x))
    .standard [0, 0] 1 0 (failsNext (interrupted [7] fun x => .ok (jumping x)) fun a b => a ≠ b)
    (by decide +kernel)
  unfold failsNext at h
  split at h
  · next t e w' ha =>
    exact ⟨s, w, _, w', e, hs, ha, rfl, fun he => of_decide_eq_true h he.symm⟩
  · cases h

end RootFinder
