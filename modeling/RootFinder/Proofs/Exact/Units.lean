import RootFinder.Proofs.Exact.Affine

/-! The units of the trust region. With scaling, no unit is ever shorter than its column of the
Jacobian, whichever of the two was replaced last, and none becomes shorter until a new start
succeeds. Without scaling all units are one. -/

namespace RootFinder

variable {σ : Type} {n : Nat}

noncomputable def Settings.unscaled : Settings ℝ :=
  { exact with scaled := false }

theorem Settings.unscaled_valid : unscaled.Valid := by
  rw [real_valid_iff]
  constructor <;> norm_num [unscaled, exact]

namespace State

variable {c : Settings ℝ} {s t u : State ℝ n}

theorem norm_column_le_firstScaling (hscaled : c.scaled = true) (a : Mat ℝ n) (j : Fin n) :
    (a.column j).norm ≤ (firstScaling c a).get j := by
  rw [firstScaling, if_pos hscaled, Vec.get_map, Mat.columnNorms, Vec.get_ofFn]
  split_ifs with hzero
  · rw [Scalar.real_beq, decide_eq_true_iff] at hzero
    rw [hzero]
    exact zero_le_one
  · exact le_rfl

theorem norm_column_le_grownScaling (hscaled : c.scaled = true) (scaling : Vec ℝ n) (a : Mat ℝ n)
    (j : Fin n) : (a.column j).norm ≤ (grownScaling c scaling a).get j := by
  rw [get_grownScaling, if_pos hscaled]
  exact le_max_right _ _

theorem firstScaling_of_unscaled (hscaled : c.scaled = false) (a : Mat ℝ n) :
    firstScaling c a = Vec.ones n := by
  simp [firstScaling, hscaled]

theorem grownScaling_of_unscaled (hscaled : c.scaled = false) (scaling : Vec ℝ n) (a : Mat ℝ n) :
    grownScaling c scaling a = scaling := by
  simp [grownScaling, hscaled]

/-- The units fit the Jacobian of the state. -/
structure Measures (c : Settings ℝ) (s : State ℝ n) : Prop where
  norm_column_le : c.scaled = true → ∀ j, (s.jacobian.matrix.column j).norm ≤ s.scaling.get j
  eq_one : c.scaled = false → ∀ j, s.scaling.get j = 1

theorem initial_measures (x f : Vec ℝ n) (d : Differencing ℝ n) : (initial c x f d).Measures c := by
  refine ⟨fun hscaled => norm_column_le_firstScaling hscaled _, fun hscaled j => ?_⟩
  change (firstScaling c _).get j = 1
  rw [firstScaling_of_unscaled hscaled, Vec.get_ones]

/-- The units of the second state fit its Jacobian, and none is shorter than in the first. -/
structure KeepsUnits (c : Settings ℝ) (s t : State ℝ n) : Prop where
  measures : t.Measures c
  le : ∀ j, s.scaling.get j ≤ t.scaling.get j

namespace KeepsUnits

theorem refl (hs : s.Measures c) : KeepsUnits c s s :=
  ⟨hs, fun _ => le_rfl⟩

theorem trans (h : KeepsUnits c s t) (h' : KeepsUnits c t u) : KeepsUnits c s u :=
  ⟨h'.measures, fun j => (h.le j).trans (h'.le j)⟩

theorem congr (h : KeepsUnits c s t) (hjacobian : u.jacobian = t.jacobian)
    (hscaling : u.scaling = t.scaling) : KeepsUnits c s u := by
  obtain ⟨⟨hcolumn, hone⟩, hle⟩ := h
  refine ⟨⟨?_, ?_⟩, ?_⟩
  · rw [hjacobian, hscaling]
    exact hcolumn
  · rw [hscaling]
    exact hone
  · rw [hscaling]
    exact hle

/-- Wherever the Jacobian is replaced, the units grow to fit it. -/
theorem grown (h : KeepsUnits c s t)
    (hscaling : u.scaling = grownScaling c t.scaling u.jacobian.matrix) : KeepsUnits c s u := by
  refine ⟨⟨fun hscaled j => ?_, fun hscaled j => ?_⟩, fun j => ?_⟩
  · rw [hscaling]
    exact norm_column_le_grownScaling hscaled _ _ j
  · rw [hscaling, grownScaling_of_unscaled hscaled]
    exact h.measures.eq_one hscaled j
  · rw [hscaling]
    exact (h.le j).trans (le_grownScaling c _ _ j)

variable {sys : Equations (StateM σ) ℝ n} {w w' : σ}

theorem refresh {r : State ℝ n} (h : KeepsUnits c s t)
    (hr : (t.refresh sys c).run w = (.ok r, w')) : KeepsUnits c s r := by
  obtain ⟨d, -, -, rfl⟩ := refresh_eq_ok hr
  exact h.grown rfl

theorem commit (h : KeepsUnits c s t) (trial : Trial ℝ n) : KeepsUnits c s (t.commit c trial) := by
  cases haccepted : trial.accepted with
  | true =>
    apply h.grown
    rw [commit_scaling, haccepted]
    rfl
  | false =>
    apply h.congr
    · rw [commit_jacobian, haccepted]
      rfl
    · rw [commit_scaling, haccepted]
      rfl

theorem tryStep {p : Preparation ℝ n} {step : Step ℝ n} {a : Attempt ℝ n}
    (h : KeepsUnits c s p.state) (ht : (tryStep sys c p step).run w = (a, w')) :
    KeepsUnits c s a.state := by
  have htested : KeepsUnits c s (p.tested step) := h.congr rfl rfl
  cases tryStep_tries ht with
  | failed => exact h.congr rfl rfl
  | unrefreshed => exact htested
  | judged => exact htested.commit _
  | refreshed _ _ hr => exact (htested.refresh hr).commit _

theorem iterate {a : Attempt ℝ n} (hs : s.Measures c)
    (h : (s.iterate sys c).run w = (a, w')) : KeepsUnits c s a.state :=
  iterate_keeps h (refl hs) (fun _ _ _ hr => (refl hs).refresh hr)
    (fun _ _ ht => ht.congr rfl rfl) (fun _ _ _ _ _ hp _ _ ht => hp.tryStep ht)

end KeepsUnits

variable {sys : Equations (StateM σ) ℝ n}

theorem Reachable.measures (h : s.Reachable sys c) : s.Measures c := by
  refine h.invariant (fun point w s w' hstart => ?_) (fun s w a w' hs ha => ?_)
  · obtain ⟨x, f, d, v, -, -, -, -, -, rfl⟩ := start_eq_ok hstart
    exact initial_measures x f d
  · exact (KeepsUnits.iterate hs ha).measures

end State

end RootFinder
