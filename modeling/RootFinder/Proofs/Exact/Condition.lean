import Mathlib.Analysis.InnerProductSpace.SingularValues
import RootFinder.LinearSolver
import RootFinder.Proofs.Exact.Elimination

/-! Singular values of real matrices, and what the linear solver makes of them. The reciprocal
condition is the last singular value over the first, so it is positive for the matrices that take
only zero to zero. A matrix that is not refused is one of these, and its equations are solved. -/

namespace RootFinder

open Matrix

variable {n : Nat}

namespace Mat

noncomputable def toLinearMap (a : Mat ℝ n) :
    EuclideanSpace ℝ (Fin n) →ₗ[ℝ] EuclideanSpace ℝ (Fin n) :=
  Matrix.toEuclideanLin a.toMatrix

/-- The singular values from the largest on, and zeros after the last. -/
noncomputable def singularValue (a : Mat ℝ n) (i : Nat) : ℝ :=
  a.toLinearMap.singularValues i

end Mat

noncomputable instance : SingularValues ℝ where
  singularValues? {n} a := some ((List.range n).map a.singularValue)

namespace Mat

theorem singularValue_nonneg (a : Mat ℝ n) (i : Nat) : 0 ≤ a.singularValue i :=
  a.toLinearMap.singularValues_nonneg i

theorem singularValue_antitone (a : Mat ℝ n) : Antitone a.singularValue :=
  a.toLinearMap.singularValues_antitone

theorem singularValue_of_le (a : Mat ℝ n) {i : Nat} (h : n ≤ i) : a.singularValue i = 0 :=
  a.toLinearMap.singularValues_of_finrank_le (by simpa using h)

theorem toLinearMap_toLp (a : Mat ℝ n) (v : Fin n → ℝ) :
    a.toLinearMap (WithLp.toLp 2 v) = WithLp.toLp 2 (a.toMatrix *ᵥ v) :=
  rfl

theorem nonsingular_iff_injective {a : Mat ℝ n} :
    a.Nonsingular ↔ Function.Injective a.toLinearMap := by
  rw [injective_iff_map_eq_zero, (WithLp.toLp_surjective 2).forall]
  simp only [toLinearMap_toLp, WithLp.toLp_eq_zero]
  rfl

theorem nonsingular_iff_singularValue_pos {a : Mat ℝ n} :
    a.Nonsingular ↔ ∀ i < n, 0 < a.singularValue i := by
  rw [nonsingular_iff_injective, LinearMap.injective_iff_forall_lt_finrank_singularValues_pos]
  simp [singularValue]

theorem foldl_max_le_iff {values : List ℝ} {first c : ℝ} :
    values.foldl Scalar.maxNum first ≤ c ↔ first ≤ c ∧ ∀ v ∈ values, v ≤ c := by
  induction values generalizing first with
  | nil => simp
  | cons v values ih => simp [ih, and_assoc]

theorem le_foldl_min_iff {values : List ℝ} {first c : ℝ} :
    c ≤ values.foldl Scalar.minNum first ↔ c ≤ first ∧ ∀ v ∈ values, c ≤ v := by
  induction values generalizing first with
  | nil => simp
  | cons v values ih => simp [ih, and_assoc]

/-- The smallest singular value over the largest. -/
noncomputable def condition (a : Mat ℝ n) : ℝ :=
  a.singularValue (n - 1) / a.singularValue 0

theorem real_reciprocalCondition? (a : Mat ℝ n) : a.reciprocalCondition? = some a.condition := by
  have hlargest : ((List.range n).map a.singularValue).foldl Scalar.maxNum 0 =
      a.singularValue 0 := by
    refine eq_of_forall_ge_iff fun c => ?_
    simp only [foldl_max_le_iff, List.mem_map, List.mem_range, forall_exists_index, and_imp,
      forall_apply_eq_imp_iff₂]
    constructor
    · rintro ⟨hzero, hall⟩
      by_cases hn : 0 < n
      · exact hall 0 hn
      · rw [singularValue_of_le a (not_lt.mp hn)]
        exact hzero
    · intro h
      exact ⟨(a.singularValue_nonneg 0).trans h,
        fun i _ => (a.singularValue_antitone (Nat.zero_le i)).trans h⟩
  have hsmallest : ((List.range n).map a.singularValue).foldl Scalar.minNum (a.singularValue 0) =
      a.singularValue (n - 1) := by
    refine eq_of_forall_le_iff fun c => ?_
    simp only [le_foldl_min_iff, List.mem_map, List.mem_range, forall_exists_index, and_imp,
      forall_apply_eq_imp_iff₂]
    constructor
    · rintro ⟨hzero, hall⟩
      by_cases hn : 0 < n
      · exact hall (n - 1) (by omega)
      · rwa [show n - 1 = 0 by omega]
    · intro h
      exact ⟨h.trans (a.singularValue_antitone (Nat.zero_le _)),
        fun i hi => h.trans (a.singularValue_antitone (by omega))⟩
  simp only [reciprocalCondition?, SingularValues.singularValues?, Option.bind_eq_bind,
    Option.bind_some]
  rw [hlargest, hsmallest]
  split_ifs with h
  · rfl
  · rw [condition, le_antisymm (not_lt.mp h) (a.singularValue_nonneg 0), div_zero]

theorem condition_pos_iff {a : Mat ℝ n} (hn : n ≠ 0) : 0 < a.condition ↔ a.Nonsingular := by
  rw [nonsingular_iff_singularValue_pos]
  constructor
  · intro h i hi
    have hlast : a.singularValue (n - 1) ≠ 0 := by
      intro hzero
      rw [condition, hzero, zero_div] at h
      exact lt_irrefl 0 h
    exact ((a.singularValue_nonneg _).lt_of_ne' hlast).trans_le
      (a.singularValue_antitone (by omega))
  · intro h
    exact div_pos (h _ (by omega)) (h 0 (by omega))

end Mat

namespace LinearSolver

variable {tolerance : ℝ} {a : Mat ℝ n}

theorem real_refusal?_eq_none_iff : refusal? tolerance a = none ↔ tolerance < a.condition := by
  rw [refusal?, if_pos a.real_isFinite, Mat.real_reciprocalCondition?]
  simp

theorem nonsingular_of_not_refused (htolerance : 0 ≤ tolerance) (h : refusal? tolerance a = none) :
    a.Nonsingular := by
  have hcondition := htolerance.trans_lt (real_refusal?_eq_none_iff.mp h)
  by_cases hn : n = 0
  · subst hn
    exact fun v _ => funext fun i => i.elim0
  · exact (Mat.condition_pos_iff hn).mp hcondition

theorem real_solve? {s : LinearSolver ℝ n} (h : s.factors = some a.eliminate) (b : Vec ℝ n) :
    s.solve? b = some (a.eliminate.solve b) := by
  simp [solve?, h]

end LinearSolver

end RootFinder
