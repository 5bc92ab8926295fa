import Mathlib.Tactic.ByContra
import RootFinder.Mat
import RootFinder.Proofs.Comparison

/-! The laws of arithmetic with infinite and undefined values. Rounding is left open: what counts
here is where undefined values come from, how far infinite ones spread, and which signs are kept.
Sums and norms inherit these laws. -/

namespace RootFinder

open Scalar

class LawfulArithmetic (α : Type) [Scalar α] : Prop extends LawfulComparison α where
  le_trans {a b c : α} : a ≤ b → b ≤ c → a ≤ c
  le_or_le {a b : α} : isNaN a = false → isNaN b = false → a ≤ b ∨ b ≤ a
  isNaN_of_le {a b : α} : a ≤ b → isNaN a = false ∧ isNaN b = false
  isNaN_of_isFinite {a : α} : isFinite a = true → isNaN a = false
  isFinite_of_le {a b : α} : 0 ≤ a → a ≤ b → isFinite b = true → isFinite a = true
  /-- No scalar is above positive infinity. -/
  isFinite_of_lt {a b : α} : 0 ≤ a → a < b → isFinite a = true
  zero_lt_one : (0 : α) < 1
  isFinite_one : isFinite (1 : α) = true
  /-- The least decrease that counts as progress. -/
  permille_pos : (0 : α) < 1e-3
  neg_zero : ((-0 : α) == 0) = true
  isNaN_neg (a : α) : isNaN (-a) = isNaN a
  isFinite_of_add {a b : α} : isFinite (a + b) = true → isFinite a = true ∧ isFinite b = true
  isNaN_of_add {a b : α} : isNaN (a + b) = false → isNaN a = false ∧ isNaN b = false
  add_nonneg {a b : α} : 0 ≤ a → 0 ≤ b → 0 ≤ a + b
  zero_add {a b : α} : (a == 0) = true → isNaN b = false → (a + b == b) = true
  isNaN_of_sub {a b : α} : isNaN (a - b) = false → isNaN a = false ∧ isNaN b = false
  isNaN_sub {a b : α} : isFinite a = true → isNaN b = false → isNaN (a - b) = false
  isFinite_of_mul {a b : α} : isFinite (a * b) = true → isFinite a = true ∧ isFinite b = true
  /-- A product is undefined if a factor is, or for zero times infinity. -/
  isNaN_mul_iff {a b : α} : isNaN (a * b) = true ↔ isNaN a = true ∨ isNaN b = true ∨
    (a == 0) = true ∧ isFinite b = false ∨ isFinite a = false ∧ (b == 0) = true
  mul_zero {a b : α} : isFinite a = true → (b == 0) = true → (a * b == 0) = true
  one_mul (a : α) : 1 * a = a
  mul_self_nonneg {a : α} : isNaN a = false → 0 ≤ a * a
  mul_self_congr {a b : α} : (a == b) = true → a * a = b * b
  isNaN_of_div {a b : α} : isNaN (a / b) = false → isNaN a = false ∧ isNaN b = false
  /-- Apart from that, only zero or infinity divided by itself may be undefined. -/
  isNaN_div {a b : α} : isNaN (a / b) = true → isNaN a = true ∨ isNaN b = true ∨
    (a == 0) = true ∧ (b == 0) = true ∨ isFinite a = false ∧ isFinite b = false
  div_infinite {a b : α} : isFinite a = true → isFinite b = false → isNaN b = false →
    (a / b == 0) = true
  neg_one_div {b : α} : 0 < b → ¬ 0 < -1 / b
  isFinite_of_sqrt {a : α} : isFinite (sqrt a) = true → isFinite a = true
  isNaN_of_sqrt {a : α} : isNaN (sqrt a) = false → isNaN a = false
  sqrt_nonneg {a : α} : 0 ≤ a → 0 ≤ sqrt a

open LawfulArithmetic

namespace Scalar

variable {α : Type} [Scalar α] [LawfulArithmetic α] {a b c : α}

theorem le_of_lt (h : a < b) : a ≤ b :=
  ((LawfulComparison.lt_iff a b).mp h).1

theorem not_lt_self (a : α) : ¬ a < a := fun h => not_le_of_lt h (le_of_lt h)

theorem lt_of_lt_of_le (h : a < b) (h' : b ≤ c) : a < c :=
  (LawfulComparison.lt_iff a c).mpr
    ⟨le_trans (le_of_lt h) h', fun hle => not_le_of_lt h (le_trans h' hle)⟩

theorem lt_of_le_of_lt (h : a ≤ b) (h' : b < c) : a < c :=
  (LawfulComparison.lt_iff a c).mpr
    ⟨le_trans h (le_of_lt h'), fun hle => not_le_of_lt h' (le_trans hle h)⟩

theorem lt_of_not_le (ha : isNaN a = false) (hb : isNaN b = false) (h : ¬ a ≤ b) : b < a :=
  (LawfulComparison.lt_iff b a).mpr ⟨(le_or_le ha hb).resolve_left h, h⟩

theorem le_of_not_lt (ha : isNaN a = false) (hb : isNaN b = false) (h : ¬ a < b) : b ≤ a :=
  Classical.byContradiction fun hle => h (lt_of_not_le hb ha hle)

theorem le_refl_of_defined (ha : isNaN a = false) : a ≤ a :=
  (le_or_le ha ha).elim id id

theorem isNaN_of_lt (h : a < b) : isNaN a = false ∧ isNaN b = false :=
  isNaN_of_le (le_of_lt h)

theorem isNaN_one : isNaN (1 : α) = false :=
  (isNaN_of_lt zero_lt_one).2

theorem isFinite_eq_false_of_isNaN (h : isNaN a = true) : isFinite a = false := by
  cases hf : isFinite a with
  | false => rfl
  | true =>
    rw [isNaN_of_isFinite hf] at h
    cases h

theorem isFinite_of_eq_zero (h : (a == 0) = true) : isFinite a = true := by
  obtain ⟨hle, hge⟩ := (LawfulComparison.beq_iff a 0).mp h
  exact isFinite_of_lt hge (lt_of_le_of_lt hle zero_lt_one)

theorem beq_trans (h : (a == b) = true) (h' : (b == c) = true) : (a == c) = true := by
  obtain ⟨hab, hba⟩ := (LawfulComparison.beq_iff a b).mp h
  obtain ⟨hbc, hcb⟩ := (LawfulComparison.beq_iff b c).mp h'
  exact (LawfulComparison.beq_iff a c).mpr ⟨le_trans hab hbc, le_trans hcb hba⟩

theorem not_pos_of_eq_zero (h : (a == 0) = true) : ¬ 0 < a :=
  fun hpos => not_le_of_lt hpos ((LawfulComparison.beq_iff a 0).mp h).1

/-- A positive finite scalar makes no other scalar undefined. -/
theorem isNaN_mul_of_pos (ha : isFinite a = true) (hpos : 0 < a) (hb : isNaN b = false) :
    isNaN (a * b) = false := by
  cases h : isNaN (a * b) with
  | false => rfl
  | true =>
    rcases isNaN_mul_iff.mp h with hN | hN | ⟨hzero, -⟩ | ⟨hinf, -⟩
    · rw [isNaN_of_isFinite ha] at hN
      cases hN
    · rw [hb] at hN
      cases hN
    · exact absurd hpos (not_pos_of_eq_zero hzero)
    · rw [ha] at hinf
      cases hinf

theorem isNaN_mul_comm (a b : α) : isNaN (a * b) = isNaN (b * a) := by
  rw [Bool.eq_iff_iff, isNaN_mul_iff, isNaN_mul_iff, or_left_comm]
  exact or_congr_right (or_congr_right (or_comm.trans (or_congr and_comm and_comm)))

theorem isNaN_mul_self (ha : isNaN a = false) : isNaN (a * a) = false :=
  (isNaN_of_le (mul_self_nonneg ha)).2

theorem isNaN_of_mul (h : isNaN (a * b) = false) : isNaN a = false ∧ isNaN b = false := by
  cases ha : isNaN a with
  | true =>
    rw [isNaN_mul_iff.mpr (.inl ha)] at h
    cases h
  | false =>
    cases hb : isNaN b with
    | true =>
      rw [isNaN_mul_iff.mpr (.inr (.inl hb))] at h
      cases h
    | false => exact ⟨rfl, rfl⟩

theorem isNaN_maxNum (ha : isNaN a = false) : isNaN (maxNum a b) = false := by
  unfold maxNum
  split
  · next h =>
    rcases h with h | h
    · rw [ha] at h
      cases h
    · exact (isNaN_of_lt h).2
  · exact ha

/-- Clamping keeps to its bounds unless the scalar is undefined. -/
theorem clamp_mem {lo hi : α} (hbounds : lo ≤ hi) (ha : isNaN a = false) :
    lo ≤ clamp lo hi a ∧ clamp lo hi a ≤ hi := by
  obtain ⟨hlo, hhi⟩ := isNaN_of_le hbounds
  unfold clamp
  by_cases hlow : a < lo
  · rw [if_pos hlow]
    have hraised : ¬ hi < lo := fun h => not_le_of_lt h hbounds
    simp only [if_neg hraised]
    exact ⟨le_refl_of_defined hlo, hbounds⟩
  · rw [if_neg hlow]
    by_cases hhigh : hi < a
    · simp only [if_pos hhigh]
      exact ⟨hbounds, le_refl_of_defined hhi⟩
    · simp only [if_neg hhigh]
      exact ⟨le_of_not_lt ha hlo hlow, le_of_not_lt hhi ha hhigh⟩

omit [LawfulArithmetic α] in
theorem sum_succ {n : Nat} (f : Fin (n + 1) → α) :
    sum f = sum (fun i : Fin n => f i.castSucc) + f (Fin.last n) :=
  Fin.foldl_succ_last _ _

theorem isFinite_of_sum {n : Nat} {f : Fin n → α} (h : isFinite (sum f) = true) (i : Fin n) :
    isFinite (f i) = true := by
  induction n with
  | zero => exact i.elim0
  | succ n ih =>
    rw [sum_succ] at h
    obtain ⟨hrest, hlast⟩ := isFinite_of_add h
    cases i using Fin.lastCases with
    | last => exact hlast
    | cast i => exact ih hrest i

theorem isNaN_of_sum {n : Nat} {f : Fin n → α} (h : isNaN (sum f) = false) (i : Fin n) :
    isNaN (f i) = false := by
  induction n with
  | zero => exact i.elim0
  | succ n ih =>
    rw [sum_succ] at h
    obtain ⟨hrest, hlast⟩ := isNaN_of_add h
    cases i using Fin.lastCases with
    | last => exact hlast
    | cast i => exact ih hrest i

theorem sum_nonneg {n : Nat} {f : Fin n → α} (h : ∀ i, 0 ≤ f i) : 0 ≤ sum f := by
  induction n with
  | zero => exact ((LawfulComparison.beq_iff (-0 : α) 0).mp neg_zero).2
  | succ n ih =>
    rw [sum_succ]
    exact add_nonneg (ih fun i => h i.castSucc) (h (Fin.last n))

theorem sum_eq_zero {n : Nat} {f : Fin n → α} (h : ∀ i, (f i == 0) = true) :
    (sum f == 0) = true := by
  induction n with
  | zero => exact neg_zero
  | succ n ih =>
    have hlast := h (Fin.last n)
    rw [sum_succ]
    exact beq_trans (zero_add (ih fun i => h i.castSucc)
      (isNaN_of_isFinite (isFinite_of_eq_zero hlast))) hlast

end Scalar

namespace Vec

variable {α : Type} [Scalar α] [LawfulArithmetic α] {n : Nat} {v w d : Vec α n}

omit [LawfulArithmetic α] in
theorem isFinite_iff : v.isFinite = true ↔ ∀ i, Scalar.isFinite (v.get i) = true := by
  rw [isFinite, Vector.all_eq_true]
  exact ⟨fun h i => h i.val i.isLt, fun h i hi => h ⟨i, hi⟩⟩

theorem isNaN_of_scaledNorm (h : isNaN (v.scaledNorm d) = false) (i : Fin n) :
    isNaN (v.get i * d.get i) = false :=
  (isNaN_of_mul (isNaN_of_sum (isNaN_of_sqrt h) i)).1

theorem zero_le_scaledNorm (h : isNaN (v.scaledNorm d) = false) : 0 ≤ v.scaledNorm d :=
  sqrt_nonneg (sum_nonneg fun i => mul_self_nonneg (isNaN_of_scaledNorm h i))

theorem exists_of_isNaN_scaledNorm (h : isNaN (v.scaledNorm d) = true) :
    ∃ i, isNaN (v.get i * d.get i) = true := by
  by_contra hnone
  have hdefined (i : Fin n) : isNaN (v.get i * d.get i) = false :=
    Bool.eq_false_iff.mpr fun hi => hnone ⟨i, hi⟩
  have hnorm : 0 ≤ v.scaledNorm d := sqrt_nonneg (sum_nonneg fun i => mul_self_nonneg (hdefined i))
  rw [(isNaN_of_le hnorm).2] at h
  cases h

theorem isFinite_of_scaledNorm (h : Scalar.isFinite (v.scaledNorm d) = true) (i : Fin n) :
    Scalar.isFinite (v.get i * d.get i) = true :=
  (isFinite_of_mul (isFinite_of_sum (isFinite_of_sqrt h) i)).1

theorem isNaN_of_norm (h : isNaN v.norm = false) (i : Fin n) : isNaN (v.get i) = false := by
  have hsum : isNaN (sum fun i : Fin n => v.get i * v.get i) = false := isNaN_of_sqrt h
  exact (isNaN_of_mul (isNaN_of_sum hsum i)).1

theorem zero_le_norm (h : isNaN v.norm = false) : 0 ≤ v.norm :=
  sqrt_nonneg (sum_nonneg fun i => mul_self_nonneg (isNaN_of_norm h i))

theorem isFinite_of_norm (h : Scalar.isFinite v.norm = true) : v.isFinite = true := by
  have hsum : Scalar.isFinite (sum fun i : Fin n => v.get i * v.get i) = true := isFinite_of_sqrt h
  exact isFinite_iff.mpr fun i => (isFinite_of_mul (isFinite_of_sum hsum i)).1

/-- A norm below another one is the norm of a finite vector. -/
theorem isFinite_of_norm_lt {b : α} (h : v.norm < b) : v.isFinite = true :=
  isFinite_of_norm (isFinite_of_lt (zero_le_norm (isNaN_of_lt h).1) h)

theorem norm_congr (h : ∀ i, (v.get i == w.get i) = true) : v.norm = w.norm := by
  have hsum : v.normSquared = w.normSquared :=
    congrArg sum (funext fun i => mul_self_congr (h i))
  exact congrArg sqrt hsum

end Vec

namespace Mat

variable {α : Type} [Scalar α] {n : Nat} {a : Mat α n}

theorem isFinite_iff : a.isFinite = true ↔ ∀ i j, Scalar.isFinite (a.entry i j) = true := by
  rw [isFinite, Vector.all_eq_true]
  constructor
  · intro h i j
    have hrow : (a.get i).all Scalar.isFinite = true := h i.val i.isLt
    exact Vec.isFinite_iff.mp hrow j
  · intro h i hi
    exact Vec.isFinite_iff.mpr (h ⟨i, hi⟩)

end Mat

end RootFinder
