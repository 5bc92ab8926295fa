import Mathlib.Analysis.SpecialFunctions.Log.Base
import RootFinder.Proofs.Exact.Descent
import RootFinder.Proofs.Success

/-! A run ends on its own, whatever its budget. An iteration that makes the square of the norm fall
by a thousandth is accepted, and only so many of these are possible before the residuals pass the
test. Between two of them there are fewer iterations than make the run give up. -/

namespace RootFinder

variable {σ : Type} {n : Nat}

/-- The falls by a thousandth that the squared norm can take before the residual test is
passed. -/
noncomputable def fallBound (n : Nat) (norm tolerance : ℝ) : Nat :=
  ⌈Real.logb (1000 / 999) (n * norm ^ 2 / tolerance ^ 2)⌉₊

noncomputable def iterationBound (n : Nat) (norm tolerance : ℝ) (slowLimit : Nat) : Nat :=
  slowLimit * (fallBound n norm tolerance + 1)

theorem passed_of_normSquared_le {f : Vec ℝ n} {tolerance : ℝ} (htolerance : 0 ≤ tolerance)
    (h : n * f.norm ^ 2 ≤ tolerance ^ 2) : residualTest f tolerance = .success := by
  have hsum : f.normOne ^ 2 ≤ tolerance ^ 2 := by
    rw [Vec.norm_sq] at h
    exact f.normOne_sq_le.trans h
  have hle : f.normOne ≤ tolerance := le_of_sq_le_sq hsum htolerance
  simp [residualTest, hle, Verdict.ofBool]

theorem passed_after_fallBound (n : Nat) (norm : ℝ) {tolerance : ℝ} (htolerance : 0 < tolerance) :
    n * ((1 - 1e-3) ^ fallBound n norm tolerance * norm ^ 2) ≤ tolerance ^ 2 := by
  rcases (mul_nonneg n.cast_nonneg (sq_nonneg norm)).eq_or_lt with hzero | hpos
  · rw [mul_left_comm, ← hzero, mul_zero]
    positivity
  · have hquotient : 0 < n * norm ^ 2 / tolerance ^ 2 := by positivity
    have hfalls : n * norm ^ 2 / tolerance ^ 2 ≤ (1000 / 999) ^ fallBound n norm tolerance := by
      rw [← Real.rpow_natCast (1000 / 999)]
      have hbase : (1 : ℝ) < 1000 / 999 := by norm_num
      exact (Real.logb_le_iff_le_rpow hbase hquotient).mp (Nat.le_ceil _)
    have hinverse : ((1 : ℝ) - 1e-3) ^ fallBound n norm tolerance *
        (1000 / 999) ^ fallBound n norm tolerance = 1 := by
      rw [← mul_pow]
      norm_num
    rw [div_le_iff₀ (by positivity)] at hfalls
    calc n * ((1 - 1e-3) ^ fallBound n norm tolerance * norm ^ 2)
        = (1 - 1e-3) ^ fallBound n norm tolerance * (n * norm ^ 2) := by ring
      _ ≤ (1 - 1e-3) ^ fallBound n norm tolerance *
          ((1000 / 999) ^ fallBound n norm tolerance * tolerance ^ 2) :=
        mul_le_mul_of_nonneg_left hfalls (by norm_num)
      _ = tolerance ^ 2 := by rw [← mul_assoc, hinverse, one_mul]

namespace State

/-- The run goes on, and after so many more falls by a thousandth it would pass the test. -/
structure Lasting (c : Settings ℝ) (s : State ℝ n) (falls : Nat) : Prop where
  running : s.status = .running
  slow_lt : s.slow < c.slowLimit
  wellScaled : s.WellScaled c
  passed_after : n * ((1 - 1e-3) ^ falls * s.f.norm ^ 2) ≤ c.tolerance ^ 2

variable {sys : Equations (StateM σ) ℝ n} {c : Settings ℝ} {s : State ℝ n} {w w' : σ}
  {a : Attempt ℝ n}

theorem slow_lt_of_commit_running {t : Trial ℝ n} (h : (s.commit c t).status = .running) :
    (s.commit c t).slow < c.slowLimit := by
  rw [commit_status, verdict] at h
  split_ifs at h with hpassed hstuck
  exact not_le.mp fun hslow => hstuck (.inr hslow)

theorem Judges.accepted_of_fall (hc : c.InRange) (haccept : c.acceptThreshold ≤ 1e-3)
    (hs : s.WellScaled c) {p : Preparation ℝ n} {t : Trial ℝ n} {q : State ℝ n}
    (h : Judges sys c s w p t q) (hfall : 1e-3 ≤ t.gain.actual) : t.accepted = true := by
  obtain ⟨v, he⟩ := h.evaluates
  have hmodel := he.model_lt hc hs
  rw [h.judgement] at hfall ⊢
  rw [Preparation.trial_accepted_iff]
  exact haccept.trans (Gain.le_ratio_of_le_actual (by norm_num) hmodel hfall)

theorem Judges.norm_sq_le_of_fall {p : Preparation ℝ n} {t : Trial ℝ n} {q : State ℝ n}
    (h : Judges sys c s w p t q) (haccepted : t.accepted = true) (hfall : 1e-3 ≤ t.gain.actual) :
    (q.commit c t).f.norm ^ 2 ≤ (1 - 1e-3) * s.f.norm ^ 2 := by
  rw [commit_f, if_pos haccepted, ← h.prepared.f]
  rw [h.judgement] at hfall
  exact Gain.norm_sq_le_of_le_actual (by norm_num) hfall

/-- While a run goes on, each iteration either is one more without much progress or uses up one of
the falls that are left. -/
theorem Lasting.iterate (hc : c.Valid) (haccept : c.acceptThreshold ≤ 1e-3) {falls : Nat}
    (hs : s.Lasting c falls) (h : (s.iterate sys c).run w = (a, w')) {report : Report ℝ n}
    (hr : a.result = .ok report) (hrunning : a.state.status = .running) :
    (a.state.Lasting c falls ∧ a.state.slow = s.slow + 1) ∨
      ∃ fewer, falls = fewer + 1 ∧ a.state.Lasting c fewer := by
  have hrange := Settings.real_valid_iff.mp hc
  obtain ⟨p, t, rfl, -, -⟩ := tried_of_running h hr hrunning
  obtain ⟨q, hjudges, hstate⟩ := judges_of_tried h hr
  have hslow : a.state.slow = if 1e-3 ≤ t.gain.actual then 0 else s.slow + 1 := by
    rw [hstate, commit_slow, hjudges.place.slow, hjudges.prepared.slow]
  have hslowLt : a.state.slow < c.slowLimit := by
    rw [hstate] at hrunning ⊢
    exact slow_lt_of_commit_running hrunning
  have hwellScaled := iterate_wellScaled hrange hs.wellScaled h
  by_cases hfall : 1e-3 ≤ t.gain.actual
  · right
    have haccepted := hjudges.accepted_of_fall hrange haccept hs.wellScaled hfall
    have hnorm : a.state.f.norm ^ 2 ≤ (1 - 1e-3) * s.f.norm ^ 2 := by
      rw [hstate]
      exact hjudges.norm_sq_le_of_fall haccepted hfall
    have hnotPassed : residualTest a.state.f c.tolerance ≠ .success := by
      rw [hstate] at hrunning ⊢
      exact residualTest_of_commit_running haccepted hrunning
    cases falls with
    | zero =>
      have hpassed := hs.passed_after
      rw [pow_zero, one_mul] at hpassed
      refine absurd (passed_of_normSquared_le hrange.tolerance ?_) hnotPassed
      have hless : a.state.f.norm ^ 2 ≤ s.f.norm ^ 2 :=
        hnorm.trans (mul_le_of_le_one_left (sq_nonneg _) (by norm_num))
      exact (mul_le_mul_of_nonneg_left hless n.cast_nonneg).trans hpassed
    | succ fewer =>
      refine ⟨fewer, rfl, hrunning, hslowLt, hwellScaled, ?_⟩
      calc n * ((1 - 1e-3) ^ fewer * a.state.f.norm ^ 2)
          ≤ n * ((1 - 1e-3) ^ fewer * ((1 - 1e-3) * s.f.norm ^ 2)) := by gcongr
        _ = n * ((1 - 1e-3) ^ (fewer + 1) * s.f.norm ^ 2) := by ring
        _ ≤ c.tolerance ^ 2 := hs.passed_after
  · left
    rw [if_neg hfall] at hslow
    refine ⟨⟨hrunning, hslowLt, hwellScaled, ?_⟩, hslow⟩
    have hnorm : a.state.f.norm ^ 2 ≤ s.f.norm ^ 2 :=
      pow_le_pow_left₀ (Vec.norm_nonneg _) (iterate_norm_le hc h) 2
    calc n * ((1 - 1e-3) ^ falls * a.state.f.norm ^ 2)
        ≤ n * ((1 - 1e-3) ^ falls * s.f.norm ^ 2) := by gcongr
      _ ≤ c.tolerance ^ 2 := hs.passed_after

/-- The iterations that are left are those between the falls that are left. -/
theorem Lasting.ends (hc : c.Valid) (haccept : c.acceptThreshold ≤ 1e-3) {k falls : Nat}
    (hs : s.Lasting c falls) (hk : c.slowLimit * (falls + 1) ≤ k + s.slow) (w : σ) :
    ∃ t result w', (s.iterateUpTo sys c k).run w = ((t, some result), w') ∧
      ((∃ b, result = .error b) ∨ t.status.isTerminal = true) := by
  -- Induction on the iterations that are left. A state that lasts has at least one left, since its
  -- count of slow iterations is below the limit.
  induction k generalizing s falls w with
  | zero =>
    have hslow := hs.slow_lt
    rw [Nat.mul_succ] at hk
    omega
  | succ k ih =>
    obtain ⟨a, v, ha⟩ := exists_run (s.iterate sys c) w
    rw [State.iterateUpTo, run_bind_of_eq ha]
    cases hr : a.result with
    | error b => exact ⟨a.state, .error b, v, rfl, .inl ⟨b, rfl⟩⟩
    | ok report =>
      by_cases hterminal : a.state.status.isTerminal = true
      · simp only [if_pos (Or.inr hterminal)]
        exact ⟨a.state, .ok report, v, rfl, .inr hterminal⟩
      · have hrunning : a.state.status = .running := by simpa [Status.isTerminal] using hterminal
        have hnext : ∃ fewer, a.state.Lasting c fewer ∧
            c.slowLimit * (fewer + 1) ≤ k + a.state.slow := by
          rcases hs.iterate hc haccept ha hr hrunning with
            ⟨hlasting, hslow⟩ | ⟨fewer, rfl, hlasting⟩
          · exact ⟨falls, hlasting, by omega⟩
          · refine ⟨fewer, hlasting, ?_⟩
            have hslow := hs.slow_lt
            rw [Nat.mul_succ] at hk
            omega
        obtain ⟨fewer, hlasting, hleft⟩ := hnext
        have hmore : ¬ (k = 0 ∨ a.state.status.isTerminal = true) := by
          rintro (rfl | hend)
          · have hslow := hlasting.slow_lt
            rw [Nat.mul_succ] at hleft
            omega
          · exact hterminal hend
        simp only [if_neg hmore]
        exact ih hlasting hleft v

/-- A new run has reported how it ended, or an error, after a number of iterations that depends on
the dimension, the first residuals, the tolerance and the limit of slow iterations only. -/
theorem ends_within_iterationBound (htolerance : 0 < c.tolerance)
    (haccept : c.acceptThreshold ≤ 1e-3) {point : List ℝ}
    (h : (create sys c point).run w = (.ok s, w')) (v : σ) :
    ∃ t result v',
      (s.iterateUpTo sys c (iterationBound n s.f.norm c.tolerance c.slowLimit)).run v =
        ((t, some result), v') ∧
      ((∃ b, result = .error b) ∨ t.status.isTerminal = true) := by
  have hs := Reachable.create h
  have hrange := Settings.real_valid_iff.mp hs.valid
  obtain ⟨hrunning, -, hslow⟩ := create_running h
  have hlasting : s.Lasting c (fallBound n s.f.norm c.tolerance) := by
    refine ⟨hrunning, ?_, hs.wellScaled, passed_after_fallBound n _ htolerance⟩
    rw [hslow]
    exact hrange.slowLimit
  exact hlasting.ends hs.valid haccept (Nat.le_add_right _ _) v

theorem ends_within_iterationBound_slanted :
    ∃ s w, (create slanted .exact (Vec.zeros 2).toList).run 0 = (.ok s, w) ∧
      ∃ t result v,
        (s.iterateUpTo slanted .exact (iterationBound 2 s.f.norm 1e-7 10)).run w =
          ((t, some result), v) ∧
        ((∃ b, result = .error b) ∨ t.status.isTerminal = true) := by
  obtain ⟨d, w, hcreate, -⟩ :=
    create_tracks slanted_isPure Settings.exact_valid two_ne_zero (Vec.zeros 2) 0
  refine ⟨_, w, hcreate, ?_⟩
  exact ends_within_iterationBound (c := .exact) (by norm_num [Settings.exact])
    (by norm_num [Settings.exact]) hcreate w

end State

end RootFinder
