import Mathlib.Tactic.SplitIfs
import RootFinder.Proofs.Double
import RootFinder.Proofs.Judgement

/-! The radius lies between its bounds in every state, whatever overflows or is undefined on the
way. Clamping lets an undefined radius through, and the radius is computed from lengths that may be
undefined. But a step has an undefined length only if it is not finite or zero throughout; then the
model promises nothing, the ratio is zero, and the length is not used. -/

namespace RootFinder

open Scalar LawfulArithmetic

variable {σ α : Type} [Scalar α] {n : Nat}

namespace Settings

/-- What valid settings say of the region and its radius. -/
structure Guards (c : Settings α) : Prop where
  minRadius_pos : 0 < c.minRadius
  maxRadius_finite : isFinite c.maxRadius = true
  minRadius_le : c.minRadius ≤ c.maxRadius
  initialRadius : match c.initialRadius with
    | .estimated factor => isFinite factor = true ∧ 0 < factor
    | .fixed radius => isFinite radius = true ∧ 0 < radius
  shrinkThreshold_pos : 0 < c.shrinkThreshold
  shrinkFactor : isFinite c.shrinkFactor = true ∧ 0 < c.shrinkFactor
  expandFactor : isFinite c.expandFactor = true ∧ 1 < c.expandFactor

theorem Valid.guards {c : Settings α} (h : c.Valid) : c.Guards := by
  have hr := valid_iff.mp h
  simp only [requirements, List.forall_mem_cons, isPositive, Bool.and_eq_true,
    decide_eq_true_iff] at hr
  obtain ⟨-, -, ⟨-, hmin⟩, ⟨⟨hmax, -⟩, hle⟩, hinitial, -, ⟨⟨-, hshrink⟩, -⟩, -, ⟨hfactor, -⟩, hgrow,
    -⟩ := hr
  refine ⟨hmin, hmax, hle, ?_, hshrink, hfactor, hgrow⟩
  cases hi : c.initialRadius <;> simpa [hi] using hinitial

/-- The radius lies between its bounds. -/
def Allows (c : Settings α) (radius : α) : Prop :=
  c.minRadius ≤ radius ∧ radius ≤ c.maxRadius

end Settings

variable [LawfulArithmetic α]

namespace Settings

variable {c : Settings α} {radius : α}

theorem Allows.pos (h : c.Allows radius) (hc : c.Guards) : 0 < radius :=
  lt_of_lt_of_le hc.minRadius_pos h.1

theorem Allows.isFinite (h : c.Allows radius) (hc : c.Guards) : Scalar.isFinite radius = true :=
  isFinite_of_le (le_of_lt (h.pos hc)) h.2 hc.maxRadius_finite

theorem Allows.isNaN (h : c.Allows radius) : Scalar.isNaN radius = false :=
  (isNaN_of_le h.1).2

end Settings

namespace Vec

omit [LawfulArithmetic α] in
theorem get_scaled (v : Vec α n) (a : α) (i : Fin n) : (v.scale a).get i = v.get i * a := by
  change (v.map (· * a))[i.val] = _
  rw [Vector.getElem_map]
  rfl

end Vec

namespace Step

variable {J : Mat α n} {f d p v w move : Vec α n} {radius : α}

/-- Not finite, or zero throughout. -/
def IsDegenerate (move : Vec α n) : Prop :=
  move.isFinite = false ∨ ∀ i, (move.get i == 0) = true

omit [LawfulArithmetic α] in
theorem isDegenerate_of_get {i : Fin n} (h : isFinite (move.get i) = false) :
    IsDegenerate move := by
  refine .inl (Bool.eq_false_iff.mpr fun hfinite => ?_)
  rw [Vec.isFinite_iff.mp hfinite i] at h
  cases h

/-- An undefined length comes from an infinite component or an infinite scale. -/
theorem isDegenerate_or_exists (h : isNaN (move.scaledNorm d) = true) :
    IsDegenerate move ∨ ∃ i, isFinite (d.get i) = false := by
  obtain ⟨i, hi⟩ := Vec.exists_of_isNaN_scaledNorm h
  rcases isNaN_mul_iff.mp hi with hN | hN | ⟨-, hinf⟩ | ⟨hinf, -⟩
  · exact .inl (isDegenerate_of_get (isFinite_eq_false_of_isNaN hN))
  · exact .inr ⟨i, isFinite_eq_false_of_isNaN hN⟩
  · exact .inr ⟨i, hinf⟩
  · exact .inl (isDegenerate_of_get hinf)

theorem scaledNorm_infinite {i : Fin n} (h : isFinite (d.get i) = false) :
    isFinite (v.scaledNorm d) = false := by
  refine Bool.eq_false_iff.mpr fun hfinite => ?_
  rw [(isFinite_of_mul (Vec.isFinite_of_scaledNorm hfinite i)).2] at h
  cases h

theorem isDegenerate_scale (hn : n ≠ 0) {a : α} (ha : isNaN a = true ∨ (a == 0) = true) :
    IsDegenerate (v.scale a) := by
  cases hfinite : (v.scale a).isFinite with
  | false => exact .inl hfinite
  | true =>
    have hparts (i : Fin n) : isFinite (v.get i) = true ∧ isFinite a = true :=
      isFinite_of_mul (Vec.get_scaled v a i ▸ Vec.isFinite_iff.mp hfinite i)
    rcases ha with hN | hzero
    · have ha := (hparts ⟨0, Nat.pos_of_ne_zero hn⟩).2
      rw [isFinite_eq_false_of_isNaN hN] at ha
      cases ha
    · refine .inr fun i => ?_
      rw [Vec.get_scaled]
      exact mul_zero (hparts i).1 hzero

/-- Scaling to the radius divides by the length; by an infinite one only zero is left. -/
theorem isDegenerate_of_scaled (hn : n ≠ 0) (hradius : isFinite radius = true)
    (h : isNaN ((v.scale (radius / v.scaledNorm d)).scaledNorm d) = true) :
    IsDegenerate (v.scale (radius / v.scaledNorm d)) := by
  rcases isDegenerate_or_exists h with hdegenerate | ⟨i, hi⟩
  · exact hdegenerate
  · apply isDegenerate_scale hn
    cases hN : isNaN (radius / v.scaledNorm d) with
    | true => exact .inl rfl
    | false => exact .inr (div_infinite hradius (scaledNorm_infinite hi) (isNaN_of_div hN).2)

theorem isNaN_boundaryFraction (h : isNaN (p.scaledNorm d) = true) :
    isNaN (boundaryFraction p w d radius) = true := by
  have hroom : isNaN ((radius - p.scaledNorm d) * (radius + p.scaledNorm d)) = true := by
    by_contra hroom
    rw [(isNaN_of_sub (isNaN_of_mul (Bool.eq_false_iff.mpr hroom)).1).2] at h
    cases h
  by_contra hfraction
  have hdefined := Bool.eq_false_iff.mpr hfraction
  unfold boundaryFraction at hdefined
  simp only at hdefined
  split at hdefined
  · have hroot := isNaN_of_sqrt (isNaN_of_sub (isNaN_of_div hdefined).1).1
    rw [(isNaN_of_mul (isNaN_of_add hroot).2).2] at hroom
    cases hroom
  · rw [(isNaN_of_div hdefined).1] at hroom
    cases hroom

theorem isDegenerate_of_between {cauchy way : Vec α n} (hn : n ≠ 0)
    (hradius : isNaN radius = false) (hinside : ¬ radius ≤ cauchy.scaledNorm d)
    (h : isNaN ((cauchy.addScaled (boundaryFraction cauchy way d radius) way).scaledNorm d) =
      true) :
    IsDegenerate (cauchy.addScaled (boundaryFraction cauchy way d radius) way) := by
  rcases isDegenerate_or_exists h with hdegenerate | ⟨i, hi⟩
  · exact hdegenerate
  · -- An infinite length would not be inside, so the length is undefined, and the fraction is too.
    have hlength : isNaN (cauchy.scaledNorm d) = true := by
      by_contra hdefined
      have hdefined := Bool.eq_false_iff.mpr hdefined
      have hshort := lt_of_not_le hradius hdefined hinside
      have hfinite := isFinite_of_lt (Vec.zero_le_scaledNorm hdefined) hshort
      rw [scaledNorm_infinite hi] at hfinite
      cases hfinite
    have hfraction : isNaN (boundaryFraction cauchy way d radius) = true :=
      isNaN_boundaryFraction hlength
    refine isDegenerate_of_get (i := ⟨0, Nat.pos_of_ne_zero hn⟩)
      (Bool.eq_false_iff.mpr fun hfinite => ?_)
    rw [Vec.addScaled, Vec.get_ofFn] at hfinite
    have hpart := (isFinite_of_mul (isFinite_of_add hfinite).2).1
    rw [isFinite_eq_false_of_isNaN hfraction] at hpart
    cases hpart

omit [LawfulArithmetic α] in
/-- A step that is not the Newton step is scaled to the radius, or reaches it from a point
inside. -/
theorem within_move (J : Mat α n) (f d p : Vec α n) (radius : α) :
    ∃ v : Vec α n, (within J f d p radius).move = v.scale (radius / v.scaledNorm d) ∨
      ¬ radius ≤ v.scaledNorm d ∧ ∃ way : Vec α n,
        (within J f d p radius).move = v.addScaled (boundaryFraction v way d radius) way := by
  unfold within
  simp only
  split_ifs with hgradient hcurvature houtside
  · exact ⟨p, .inl rfl⟩
  · exact ⟨_, .inl rfl⟩
  · exact ⟨_, .inr ⟨houtside, _, rfl⟩⟩
  · exact ⟨p, .inl rfl⟩

theorem isDegenerate_of_isNaN {linear : LinearSolver α n} {step : Step α n} (hn : n ≠ 0)
    (hradius : isFinite radius = true) (hstep : choose? linear J f d radius = some step)
    (h : isNaN (step.move.scaledNorm d) = true) : IsDegenerate step.move := by
  obtain ⟨p, -, hp⟩ := Option.bind_eq_some_iff.mp hstep
  by_cases hfits : p.scaledNorm d ≤ radius
  · rw [if_pos hfits] at hp
    cases hp
    rw [(isNaN_of_le hfits).1] at h
    cases h
  · rw [if_neg hfits] at hp
    cases hp
    obtain ⟨v, hscaled | ⟨hinside, way, hbetween⟩⟩ := within_move J f d p radius
    · rw [hscaled] at h ⊢
      exact isDegenerate_of_scaled hn hradius h
    · rw [hbetween] at h ⊢
      exact isDegenerate_of_between hn (isNaN_of_isFinite hradius) hinside h

end Step

namespace Gain

variable {J : Mat α n} {f move value : Vec α n}

omit [LawfulArithmetic α] in
theorem decrease?_of_not_lt {before after : α} (h : ¬ after < before) :
    decrease? before after = none :=
  if_neg h

/-- The model does not promise anything of a degenerate step. -/
theorem model_of_degenerate (hJ : J.isFinite = true) (h : Step.IsDegenerate move) :
    ¬ ((J.mulVec move).addScaled 1 f).norm < f.norm := by
  intro hlt
  have hfinite := Vec.isFinite_of_norm_lt hlt
  have hget (i : Fin n) : ((J.mulVec move).addScaled 1 f).get i =
      sum (fun j : Fin n => J.entry i j * move.get j) + 1 * f.get i := by
    simp [Vec.addScaled, Mat.mulVec]
  have hparts (i : Fin n) := isFinite_of_add (hget i ▸ Vec.isFinite_iff.mp hfinite i)
  rcases h with hinf | hzero
  · have hmove : move.isFinite = true := Vec.isFinite_iff.mpr fun j =>
      (isFinite_of_mul (isFinite_of_sum (hparts j).1 j)).2
    rw [hmove] at hinf
    cases hinf
  · have hsame : ((J.mulVec move).addScaled 1 f).norm = f.norm := by
      refine Vec.norm_congr fun i => ?_
      rw [hget, LawfulArithmetic.one_mul]
      refine zero_add (sum_eq_zero fun j => mul_zero (Mat.isFinite_iff.mp hJ i j) (hzero j)) ?_
      exact isNaN_of_isFinite (LawfulArithmetic.one_mul (f.get i) ▸ (hparts i).2)
    rw [hsame] at hlt
    exact not_lt_self _ hlt

theorem ratio_of_degenerate (hJ : J.isFinite = true) (h : Step.IsDegenerate move) :
    (ofTrial J f move value).ratio = 0 := by
  have hpredicted := decrease?_of_not_lt (model_of_degenerate (f := f) hJ h)
  have hzero : ¬ (0 : α) < 0 := not_lt_self 0
  simp only [ofTrial, hpredicted, Option.getD_none, hzero, false_and, if_false]

end Gain

omit [LawfulArithmetic α] in
theorem LinearSolver.isFinite_of_not_refused [SingularValues α] {tolerance : α} {a : Mat α n}
    (h : refusal? tolerance a = none) : a.isFinite = true := by
  cases hfinite : a.isFinite with
  | true => rfl
  | false => simp [refusal?, hfinite] at h

namespace State

variable {c : Settings α} {radius : α}

theorem clampRadius_allowed (hc : c.Guards) (h : isNaN radius = false) :
    c.Allows (clampRadius c radius) :=
  clamp_mem hc.minRadius_le h

theorem firstRadius_allowed (hc : c.Guards) (x scaling : Vec α n) :
    c.Allows (firstRadius c x scaling) := by
  have hinitial := hc.initialRadius
  refine clampRadius_allowed hc ?_
  cases hi : c.initialRadius with
  | fixed radius =>
    rw [hi] at hinitial
    exact isNaN_of_isFinite hinitial.1
  | estimated factor =>
    rw [hi] at hinitial
    simp only
    split
    · next hlength => exact isNaN_mul_of_pos hinitial.1 hinitial.2 (isNaN_of_lt hlength).2
    · exact isNaN_of_isFinite hinitial.1

theorem boundedRadius_allowed (hc : c.Guards) {s : State α n} (hs : c.Allows s.radius)
    (stepNorm : α) : c.Allows (s.boundedRadius c stepNorm) := by
  unfold boundedRadius
  split
  · next h => exact clampRadius_allowed hc (isNaN_of_lt h.2).1
  · exact hs

/-- An undefined length does no harm if the ratio makes the radius shrink. -/
theorem judgedRadius_allowed (hc : c.Guards) (hradius : c.Allows radius) {ratio stepNorm : α}
    (h : isNaN stepNorm = true → ratio < c.shrinkThreshold) (agreements : Nat) :
    c.Allows (judgedRadius c agreements radius ratio stepNorm).1 := by
  unfold judgedRadius
  split
  · refine clampRadius_allowed hc ?_
    rw [isNaN_mul_comm]
    exact isNaN_mul_of_pos hc.shrinkFactor.1 hc.shrinkFactor.2 hradius.isNaN
  · next hkeep =>
    have hgrow : 0 < c.expandFactor := lt_of_lt_of_le zero_lt_one (le_of_lt hc.expandFactor.2)
    have hlength : isNaN stepNorm = false := Bool.eq_false_iff.mpr fun hN => hkeep (h hN)
    have hreached := isNaN_mul_of_pos hc.expandFactor.1 hgrow hlength
    refine clampRadius_allowed hc ?_
    split
    · exact hreached
    · split
      · exact isNaN_maxNum hradius.isNaN
      · exact hradius.isNaN

theorem commit_allowed (hc : c.Guards) {s : State α n} {t : Trial α n} (hradius : c.Allows t.radius)
    (h : isNaN t.stepNorm = true → t.gain.ratio < c.shrinkThreshold) :
    c.Allows (s.commit c t).radius := by
  rw [commit_radius]
  exact judgedRadius_allowed hc hradius h _

variable [SingularValues α] {sys : Equations (StateM σ) α n}

/-- A judged step of undefined length has ratio zero, since its Jacobian was factored. -/
theorem trial_of_isNaN (hc : c.Guards) (hn : n ≠ 0) {s : State α n} {p : Preparation α n}
    {step : Step α n} {w w' : σ} (hs : c.Allows p.state.radius)
    (hp : (s.prepare sys c).run w = (.ok p, w')) (hstep : p.step? = some step)
    {value : Vec α n} (h : isNaN (p.trial c step value).stepNorm = true) :
    (p.trial c step value).gain.ratio < c.shrinkThreshold := by
  have hJ := LinearSolver.isFinite_of_not_refused (factored_of_step? hp hstep).1
  have hdegenerate := Step.isDegenerate_of_isNaN hn (hs.isFinite hc) hstep h
  rw [Preparation.trial_gain, Gain.ratio_of_degenerate hJ hdegenerate]
  exact hc.shrinkThreshold_pos

theorem iterate_allowed (hc : c.Guards) (hn : n ≠ 0) {s : State α n} {w w' : σ} {a : Attempt α n}
    (hs : c.Allows s.radius) (h : (s.iterate sys c).run w = (a, w')) : c.Allows a.state.radius := by
  refine iterate_keeps (P := fun t => c.Allows t.radius) h hs ?_ (fun _ _ ht => ht) ?_
  · intro r v v' hr
    rw [(refresh_samePlace hr).radius]
    exact hs
  · intro p step v b v' hradius hstep ⟨u, hp⟩ ht
    have hbounded (value : Vec α n) : c.Allows (p.trial c step value).radius :=
      boundedRadius_allowed (s := p.tested step) hc hradius _
    have hratio {value : Vec α n} (hN : isNaN (p.trial c step value).stepNorm = true) :
        (p.trial c step value).gain.ratio < c.shrinkThreshold :=
      trial_of_isNaN hc hn hradius hp hstep hN
    cases tryStep_tries ht with
    | failed => exact hradius
    | unrefreshed => exact hradius
    | judged => exact commit_allowed hc (hbounded _) hratio
    | refreshed => exact commit_allowed hc (hbounded _) hratio

theorem Reachable.allowed {s : State α n} (h : s.Reachable sys c) : c.Allows s.radius := by
  have hc := h.valid.guards
  refine h.invariant (P := fun t => c.Allows t.radius) ?_ ?_
  · intro point w t w' hstart
    obtain ⟨x, f, d, v, -, -, -, -, -, rfl⟩ := start_eq_ok hstart
    exact firstRadius_allowed hc x _
  · intro t w a w' ht hiterate
    exact iterate_allowed hc h.dimension_ne_zero ht hiterate

/-- The bounds are in order, and the radius is between them in every state of a run, positive and
never undefined. -/
theorem radius_between_bounds (sys : Equations (StateM σ) α n) {c : Settings α} (hc : c.Valid) :
    c.minRadius ≤ c.maxRadius ∧
    ∀ s : State α n, s.Reachable sys c →
      c.minRadius ≤ s.radius ∧ s.radius ≤ c.maxRadius ∧ 0 < s.radius ∧ isNaN s.radius = false := by
  refine ⟨hc.guards.minRadius_le, fun s hs => ?_⟩
  have hallowed := hs.allowed
  exact ⟨hallowed.1, hallowed.2, hallowed.pos hc.guards, hallowed.isNaN⟩

end State

def Settings.measured : Settings Float :=
  { Settings.standard with scaled := true }

/-- One equation, so steep that the square of its slope overflows. -/
def steep (x : Vec Float 1) : Except EvalError (Vec Float 1) :=
  .ok (Vector.mk #[1e200 * (Vec.first x - 1)] rfl)

/-- The unit is infinite and the first step zero, so that its length is undefined. -/
theorem State.radius_between_bounds_steep :
    Settings.measured.Valid ∧
    ∃ s : State Float 1, s.Reachable (interrupted [] steep) .measured ∧ s.iterations = 1 ∧
      isNaN (s.step.scaledNorm s.scaling) = true ∧
      Settings.measured.minRadius ≤ s.radius ∧ s.radius ≤ Settings.measured.maxRadius ∧
      0 < s.radius ∧ isNaN s.radius = false := by
  have hvalid : Settings.measured.Valid := by decide +kernel
  obtain ⟨-, hbetween⟩ := radius_between_bounds (interrupted [] steep) hvalid
  obtain ⟨s, -, hs, h⟩ := State.exists_reachable (interrupted [] steep) .measured [2] 1 0
    (fun s _ => decide (s.iterations = 1 ∧ isNaN (s.step.scaledNorm s.scaling) = true))
    (by decide +kernel)
  obtain ⟨hone, hundefined⟩ := of_decide_eq_true h
  exact ⟨hvalid, s, hs, hone, hundefined, hbetween s hs⟩

end RootFinder
