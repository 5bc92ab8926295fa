import RootFinder.Proofs.Calls
import RootFinder.Proofs.Exact.Affine
import RootFinder.Proofs.InPlace.Safety

/-! Forward differences. A differencing asks at the neighbours of its point in order, each of which
differs from the point in one component, until a call fails. The columns before the failure are
slopes and the others are as they were, whatever the system does. It is the same in place, where one
buffer holds a neighbour after the other, and the slopes of an affine system are its matrix. -/

namespace RootFinder

namespace Jacobian

variable {σ α : Type} [Scalar α] {n : Nat} {relative : α} {x f : Vec α n}

theorem get_neighbour (relative : α) (x : Vec α n) (j k : Fin n) :
    (neighbour relative x j).get k =
      if k = j then x.get j + increment relative (x.get j) else x.get k := by
  rw [neighbour, Vec.setAt, Vec.get_ofFn]

theorem estimate_in_place {sys : Equations (StateM σ) α n}
    {res : InPlace.Residuals σ α} (hres : InPlace.Writes (.exact σ) res sys) {jac : Jacobian α n}
    {w w' : σ} {d : Differencing α n} (h : (jac.difference sys relative x f).run w = (d, w'))
    (neighbour residuals scratch : Vec α n) (count : Nat) :
    ∃ residuals' scratch' : Vec α n,
      (InPlace.Estimator.estimate res x.toList f.toList
        (.holding relative jac neighbour residuals scratch) ⟨n, jac.matrix⟩ count).run w =
      .ok ((.holding relative d.jacobian x residuals' scratch', ⟨n, d.jacobian.matrix⟩,
        count + d.evaluations, d.failure), w') := by
  obtain ⟨b, c, v, hrun, hgoes, hestimates⟩ := InPlace.estimates_sim hres relative x f jac jac
    neighbour residuals scratch jac.matrix count w
  cases hgoes.symm.trans h
  rw [hrun]
  cases hestimates with
  | ok residuals' scratch' a calls => exact ⟨residuals', scratch', rfl⟩
  | error e residuals' scratch' a b' calls hsame =>
    rw [hsame rfl]
    exact ⟨residuals', scratch', rfl⟩

theorem difference_affine {A : Mat ℝ n} {b y : Vec ℝ n} {step : ℝ} (hstep : 0 < step)
    {sys : Equations (StateM σ) ℝ n} (hsys : sys.Answers (affine A b)) {jac : Jacobian ℝ n}
    {w w' : σ} {d : Differencing ℝ n}
    (h : (jac.difference sys step y (affine A b y)).run w = (d, w')) (hd : d.failure = none) :
    d.jacobian = ⟨A, true, false⟩ := by
  obtain ⟨a, count, rfl, hcolumns⟩ := difference_eq_ok h hd
  obtain ⟨-, hset, -⟩ := differenceColumns_eq_ok hcolumns
  have ha : a = A := by
    refine Mat.ext_column fun j => ?_
    obtain ⟨g, v, v', hcall, hcolumn⟩ := hset j (List.mem_finRange j)
    rw [hcolumn, hsys _ v g v' hcall, neighbour, slopes_affine (real_increment_pos hstep _).ne']
  rw [ha]

/-- A differencing takes its course for every system, and for one in place, which is left with the
point in the neighbours' buffer. An affine system is differenced to its matrix from any other. -/
theorem forward_differences (sys : Equations (StateM σ) α n) (relative : α) (x f : Vec α n)
    (jac : Jacobian α n) :
    (∀ j k, (neighbour relative x j).get k = if k = j then
      x.get j + ((x.get j + relative * Scalar.maxNum (Scalar.abs (x.get j)) 1) - x.get j)
      else x.get k) ∧
    (∀ u : σ × List (Call α n), ∃ d v more,
      (jac.difference sys.logged relative x f).run u = (d, (v, u.2 ++ more)) ∧
      Course relative x f jac more d ∧
      ∀ res, InPlace.Writes (.exact _) res sys.logged →
        ∀ (neighbour residuals scratch : Vec α n) (count : Nat),
          ∃ residuals' scratch' : Vec α n,
            (InPlace.Estimator.estimate res x.toList f.toList
              (.holding relative jac neighbour residuals scratch) ⟨n, jac.matrix⟩ count).run u =
            .ok ((.holding relative d.jacobian x residuals' scratch', ⟨n, d.jacobian.matrix⟩,
              count + d.evaluations, d.failure), (v, u.2 ++ more))) ∧
    ∀ (A : Mat ℝ n) (b y : Vec ℝ n) (step : ℝ), 0 < step → ∀ (τ : Type)
      (exact : Equations (StateM τ) ℝ n), exact.Answers (affine A b) →
      ∀ (jac : Jacobian ℝ n) (w : τ), ∃ d w',
        (jac.difference exact step y (affine A b y)).run w = (d, w') ∧
        (d.failure = none → d.jacobian = ⟨A, true, false⟩) ∧
        (exact.IsPure (fun p => .ok (affine A b p)) → d.failure = none) := by
  refine ⟨get_neighbour relative x, fun u => ?_, ?_⟩
  · obtain ⟨d, v, more, hrun, hcourse⟩ := difference_course sys relative x f jac u
    exact ⟨d, v, more, hrun, hcourse, fun res hres => estimate_in_place hres hrun⟩
  · intro A b y step hstep τ exact hanswers jac w
    obtain ⟨d, w', hrun⟩ := exists_run (jac.difference exact step y (affine A b y)) w
    refine ⟨d, w', hrun, difference_affine hstep hanswers hrun, fun hpure => ?_⟩
    obtain ⟨a, v, hall, -⟩ := difference_succeeds (f := affine A b y) hpure
      (fun j => ⟨_, rfl⟩) jac w
    rw [hall] at hrun
    cases hrun
    rfl

theorem forward_differences_slanted :
    ∃ (residuals scratch : Vec ℝ 2) (g : Fin 2 → Vec ℝ 2) (v : Nat),
      (InPlace.Estimator.estimate (.ofEquations slanted.logged) (Vec.zeros 2 : Vec ℝ 2).toList
        (affine sheared (Vec.ones 2) (Vec.zeros 2)).toList
        (.holding 1 (unknown 2) (Vec.zeros 2) (Vec.zeros 2) (Vec.zeros 2))
        ⟨2, .zeros 2⟩ 0).run (0, []) =
      .ok ((.holding 1 ⟨sheared, true, false⟩ (Vec.zeros 2) residuals scratch, ⟨2, sheared⟩, 2,
        none), (v, List.ofFn (answeredCall 1 (Vec.zeros 2) g))) := by
  have hpure : slanted.logged.IsPure fun x => .ok (affine sheared (Vec.ones 2) x) :=
    fun x u => slanted_isPure x u.1
  have hanswers : slanted.logged.Answers (affine sheared (Vec.ones 2)) :=
    fun x u f v h => (Except.ok.inj (hpure.of_run h)).symm
  obtain ⟨-, hruns, haffine⟩ := forward_differences slanted 1 (Vec.zeros 2)
    (affine sheared (Vec.ones 2) (Vec.zeros 2)) (unknown 2)
  obtain ⟨d, v, more, hrun, hcourse, hinPlace⟩ := hruns (0, [])
  obtain ⟨d', w', hrun', hmatrix, hnone⟩ := haffine sheared (Vec.ones 2) (Vec.zeros 2) 1
    one_pos _ slanted.logged hanswers (unknown 2) (0, [])
  cases hrun.symm.trans hrun'
  obtain ⟨residuals, scratch, hestimate⟩ := hinPlace _ (InPlace.ofEquations_writes slanted.logged)
    (Vec.zeros 2) (Vec.zeros 2) (Vec.zeros 2) 0
  have hd := hmatrix (hnone hpure)
  cases hcourse with
  | failed => cases hnone hpure
  | completed g a hset =>
    cases hd
    exact ⟨residuals, scratch, g, v, hestimate⟩

end Jacobian

end RootFinder
