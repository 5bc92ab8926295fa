import RootFinder.Scalar

/-! The laws of comparisons. Undefined values are left out of the order, and zero has two signs,
so `≤` is neither reflexive nor antisymmetric; what is left are the laws between the three
comparisons. Doubles have them, by their model as sign, significand and exponent. -/

namespace RootFinder

/-- Scalars whose strict comparison and equality are those that belong to `≤`. -/
class LawfulComparison (α : Type) [Scalar α] : Prop where
  lt_iff (a b : α) : a < b ↔ a ≤ b ∧ ¬ b ≤ a
  beq_iff (a b : α) : (a == b) = true ↔ a ≤ b ∧ b ≤ a

namespace Scalar

variable {α : Type} [Scalar α] [LawfulComparison α]

theorem not_le_of_lt {a b : α} (h : a < b) : ¬ b ≤ a :=
  ((LawfulComparison.lt_iff a b).mp h).2

theorem not_lt_of_beq {a b : α} (h : (a == b) = true) : ¬ b < a := by
  intro hlt
  exact not_le_of_lt hlt ((LawfulComparison.beq_iff a b).mp h).1

end Scalar

namespace Double

open Float.Model Float.Model.UnpackedFloat

theorem compare_sign_swap (s t : Sign) : compare t s = (compare s t).swap := by
  cases s <;> cases t <;> rfl

theorem compare_magnitude_swap (d e : Int) (m k : Nat) :
    (compare e d).then (compare k m) = ((compare d e).then (compare m k)).swap := by
  rw [Ordering.swap_then, ← Std.OrientedOrd.eq_swap, ← Std.OrientedOrd.eq_swap]

theorem compare_swap (a b : UnpackedFloat) : b.compare a = (a.compare b).map Ordering.swap := by
  cases a with
  | notANumber => cases b <;> rfl
  | infinity s =>
    cases b with
    | infinity t => exact congrArg some (compare_sign_swap s t)
    | finite t m e h => cases s <;> cases t <;> rfl
    | _ => cases s <;> rfl
  | zero s =>
    cases b with
    | infinity t => cases t <;> rfl
    | finite t m e h => cases t <;> rfl
    | _ => rfl
  | finite s m e h =>
    cases b with
    | infinity t => cases s <;> cases t <;> rfl
    | zero t => cases s <;> rfl
    | notANumber => cases s <;> rfl
    | finite t k d hk =>
      cases s with
      | positive =>
        cases t with
        | positive => exact congrArg some (compare_magnitude_swap e d m k)
        | negative => rfl
      | negative =>
        cases t with
        | positive => rfl
        | negative => exact congrArg (some ∘ Ordering.swap) (compare_magnitude_swap e d m k)

theorem lt_iff_compare (a b : Float) :
    a < b ↔ a.toModel.unpack.compare b.toModel.unpack = some .lt := by
  change decide (a.toModel.unpack.lt b.toModel.unpack = true) = true ↔ _
  rw [decide_eq_true_iff, UnpackedFloat.lt, beq_iff_eq]

theorem le_iff_compare (a b : Float) :
    a ≤ b ↔ ∃ o, a.toModel.unpack.compare b.toModel.unpack = some o ∧ o.isLE = true := by
  change decide (a.toModel.unpack.le b.toModel.unpack = true) = true ↔ _
  rw [decide_eq_true_iff, UnpackedFloat.le, Option.any_eq_true]

theorem beq_iff_compare (a b : Float) :
    (a == b) = true ↔ a.toModel.unpack.compare b.toModel.unpack = some .eq := by
  change (a.toModel.unpack.compare b.toModel.unpack == some .eq) = true ↔ _
  rw [beq_iff_eq]

end Double

open Double in
instance : LawfulComparison Float where
  lt_iff a b := by
    rw [lt_iff_compare, le_iff_compare, le_iff_compare, compare_swap a.toModel.unpack]
    cases a.toModel.unpack.compare b.toModel.unpack with
    | none => simp
    | some o => cases o <;> simp
  beq_iff a b := by
    rw [le_iff_compare, le_iff_compare, compare_swap a.toModel.unpack]
    refine (beq_iff_compare a b).trans ?_
    cases a.toModel.unpack.compare b.toModel.unpack with
    | none => simp
    | some o => cases o <;> simp

end RootFinder
