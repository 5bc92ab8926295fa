import RootFinder.Proofs.Arithmetic
import RootFinder.Proofs.Judgement

/-! What the gain of a step says in any arithmetic. The decrease that was found is never undefined,
and a step that is accepted has made the norm of the residuals smaller. -/

namespace RootFinder

open Scalar LawfulArithmetic

variable {σ α : Type} [Scalar α] [LawfulArithmetic α] {n : Nat}

/-- A relative decrease compares two norms of which the second is smaller, so it never divides zero
or infinity by itself. -/
theorem isNaN_of_decrease {before after a : α} (hafter : isNaN after = false → 0 ≤ after)
    (h : decrease? before after = some a) : isNaN a = false := by
  unfold decrease? at h
  split at h
  · next hlt =>
    cases h
    obtain ⟨hdefined, hbefore⟩ := isNaN_of_lt hlt
    have hpos := hafter hdefined
    have hfinite := isFinite_of_lt hpos hlt
    have hquotient : isNaN (after / before) = false := by
      refine Bool.eq_false_iff.mpr fun hN => ?_
      rcases isNaN_div hN with h | h | ⟨-, h⟩ | ⟨h, -⟩
      · rw [hdefined] at h
        cases h
      · rw [hbefore] at h
        cases h
      · exact not_pos_of_eq_zero h (lt_of_le_of_lt hpos hlt)
      · rw [hfinite] at h
        cases h
    exact isNaN_sub isFinite_one (isNaN_mul_self hquotient)
  · cases h

namespace Gain

variable {J : Mat α n} {f move value : Vec α n}

theorem isNaN_actual (J : Mat α n) (f move value : Vec α n) :
    isNaN (ofTrial J f move value).actual = false := by
  have hnone : isNaN (-1 : α) = false := (isNaN_neg 1).trans isNaN_one
  simp only [ofTrial]
  split
  · cases h : decrease? f.norm value.norm with
    | none => exact hnone
    | some a => exact isNaN_of_decrease Vec.zero_le_norm h
  · exact hnone

theorem norm_lt_of_pos (h : 0 < (ofTrial J f move value).ratio) : value.norm < f.norm := by
  by_contra hnot
  have hactual : (ofTrial J f move value).actual = -1 := by
    simp only [ofTrial, decrease?, if_neg hnot, Option.getD_none, ite_self]
  change 0 < if 0 < (ofTrial J f move value).predicted ∧ value.isFinite = true then
    (ofTrial J f move value).actual / (ofTrial J f move value).predicted else 0 at h
  split at h
  · next hpredicted =>
    rw [hactual] at h
    exact neg_one_div hpredicted.1 h
  · exact not_lt_self 0 h

end Gain

theorem Preparation.norm_lt_of_accepted {c : Settings α} (hc : c.Valid) {p : Preparation α n}
    {step : Step α n} {value : Vec α n} (h : (p.trial c step value).accepted = true) :
    value.norm < p.state.f.norm := by
  have hratio := (trial_accepted_iff c p step value).mp h
  exact Gain.norm_lt_of_pos (lt_of_lt_of_le hc.acceptThreshold_pos hratio)

end RootFinder
