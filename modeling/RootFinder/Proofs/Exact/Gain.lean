import RootFinder.Proofs.Exact.TrustStep
import RootFinder.Iteration

/-! What the gain of a step says about the norms of the residuals. A step whose ratio reaches a
positive threshold makes them smaller by that part of the predicted reduction; a step that makes
them smaller by a certain part has at least this part as its ratio, since no prediction exceeds
one. -/

namespace RootFinder

variable {n : Nat}

/-- The part by which the square of a norm falls. -/
noncomputable def reduction (before after : ℝ) : ℝ :=
  1 - (after / before) ^ 2

theorem reduction_pos {before after : ℝ} (hafter : 0 ≤ after) (h : after < before) :
    0 < reduction before after := by
  have hquotient : (after / before) ^ 2 < 1 :=
    pow_lt_one₀ (div_nonneg hafter (by linarith)) ((div_lt_one (by linarith)).mpr h) two_ne_zero
  rw [reduction]
  linarith

theorem reduction_le_one (before after : ℝ) : reduction before after ≤ 1 := by
  have := sq_nonneg (after / before)
  rw [reduction]
  linarith

theorem sq_eq_of_reduction {before : ℝ} (hbefore : before ≠ 0) (after : ℝ) :
    after ^ 2 = (1 - reduction before after) * before ^ 2 := by
  rw [reduction]
  field_simp
  ring

theorem real_decrease? (before after : ℝ) :
    decrease? before after = if after < before then some (reduction before after) else none := by
  simp [decrease?, reduction, pow_two]

namespace Gain

open Step

variable {J : Mat ℝ n} {f step value : Vec ℝ n}

theorem real_actual : (ofTrial J f step value).actual =
    if value.norm < f.norm then reduction f.norm value.norm else -1 := by
  simp only [ofTrial, Vec.real_isFinite, if_true, real_decrease?]
  split_ifs <;> rfl

theorem real_predicted : (ofTrial J f step value).predicted =
    if (model J f step).norm < f.norm then reduction f.norm (model J f step).norm else 0 := by
  simp only [ofTrial, real_decrease?]
  rw [← model]
  split_ifs <;> rfl

theorem real_ratio : (ofTrial J f step value).ratio =
    if 0 < (ofTrial J f step value).predicted then
      (ofTrial J f step value).actual / (ofTrial J f step value).predicted
    else 0 := by
  simp [ofTrial]

theorem predicted_le_one : (ofTrial J f step value).predicted ≤ 1 := by
  rw [real_predicted]
  split_ifs
  · exact reduction_le_one _ _
  · exact zero_le_one

theorem predicted_of_model_lt (value : Vec ℝ n) (h : (model J f step).norm < f.norm) :
    (ofTrial J f step value).predicted = reduction f.norm (model J f step).norm ∧
      0 < (ofTrial J f step value).predicted := by
  rw [real_predicted, if_pos h]
  exact ⟨rfl, reduction_pos (Vec.norm_nonneg _) h⟩

/-- A step with a positive ratio was predicted to make the norm smaller, and made it smaller. -/
theorem norm_lt_of_ratio_pos (h : 0 < (ofTrial J f step value).ratio) :
    (model J f step).norm < f.norm ∧ value.norm < f.norm := by
  rw [real_ratio] at h
  split_ifs at h with hpredicted
  · have hactual := (div_pos_iff_of_pos_right hpredicted).mp h
    rw [real_predicted] at hpredicted
    rw [real_actual] at hactual
    constructor
    · by_contra hmodel
      rw [if_neg hmodel] at hpredicted
      exact lt_irrefl 0 hpredicted
    · by_contra hvalue
      rw [if_neg hvalue] at hactual
      linarith
  · exact absurd h (lt_irrefl 0)

theorem norm_sq_le_of_le_ratio {threshold : ℝ} (hpos : 0 < threshold)
    (h : threshold ≤ (ofTrial J f step value).ratio) :
    value.norm ^ 2 ≤ (1 - threshold * reduction f.norm (model J f step).norm) * f.norm ^ 2 ∧
      (1 - threshold * reduction f.norm (model J f step).norm) * f.norm ^ 2 < f.norm ^ 2 := by
  obtain ⟨hmodel, hvalue⟩ := norm_lt_of_ratio_pos (hpos.trans_le h)
  obtain ⟨hpredicted, hppos⟩ := predicted_of_model_lt value hmodel
  have hf : 0 < f.norm := (Vec.norm_nonneg value).trans_lt hvalue
  rw [real_ratio, if_pos hppos, le_div_iff₀ hppos, real_actual, if_pos hvalue, hpredicted] at h
  rw [hpredicted] at hppos
  constructor
  · rw [sq_eq_of_reduction hf.ne' value.norm]
    exact mul_le_mul_of_nonneg_right (by linarith) (sq_nonneg _)
  · have := mul_pos (mul_pos hpos hppos) (pow_pos hf 2)
    linarith

theorem norm_sq_le_of_le_actual {part : ℝ} (hpart : 0 ≤ part)
    (h : part ≤ (ofTrial J f step value).actual) :
    value.norm ^ 2 ≤ (1 - part) * f.norm ^ 2 := by
  rw [real_actual] at h
  split_ifs at h with hvalue
  · have hf : 0 < f.norm := (Vec.norm_nonneg value).trans_lt hvalue
    rw [sq_eq_of_reduction hf.ne' value.norm]
    exact mul_le_mul_of_nonneg_right (by linarith) (sq_nonneg _)
  · linarith

theorem le_ratio_of_le_actual {part : ℝ} (hpart : 0 ≤ part)
    (hmodel : (model J f step).norm < f.norm) (h : part ≤ (ofTrial J f step value).actual) :
    part ≤ (ofTrial J f step value).ratio := by
  obtain ⟨-, hppos⟩ := predicted_of_model_lt value hmodel
  rw [real_ratio, if_pos hppos, le_div_iff₀ hppos]
  exact (mul_le_of_le_one_right hpart predicted_le_one).trans h

/-- A step that leads exactly where the model says has ratio one. -/
theorem ratio_eq_one (hmodel : (model J f step).norm < f.norm)
    (hvalue : value.norm = (model J f step).norm) : (ofTrial J f step value).ratio = 1 := by
  obtain ⟨hpredicted, hppos⟩ := predicted_of_model_lt value hmodel
  have hactual : (ofTrial J f step value).actual = (ofTrial J f step value).predicted := by
    rw [real_actual, hvalue, if_pos hmodel, hpredicted]
  rw [real_ratio, if_pos hppos, hactual, div_self hppos.ne']

end Gain

end RootFinder
