import RootFinder.Proofs.Exact.TrustStep

/-! Real numbers beside an undefined value. A quotient by zero and the root of a negative number are
undefined, and so is what is computed from them. The definitions of this library also have a
meaning over these scalars: where it is the one over the real numbers, no such quotient and no such
root went into it. -/

namespace RootFinder

inductive Checked
  | undefined
  | value (a : ℝ)

namespace Checked

def lift (op : ℝ → ℝ → ℝ) : Checked → Checked → Checked
  | value a, value b => value (op a b)
  | _, _ => undefined

def compare (r : ℝ → ℝ → Prop) : Checked → Checked → Prop
  | value a, value b => r a b
  | _, _ => False

noncomputable def divide : Checked → Checked → Checked
  | value a, value b => if b = 0 then undefined else value (a / b)
  | _, _ => undefined

noncomputable def root : Checked → Checked
  | value a => if a < 0 then undefined else value √a
  | undefined => undefined

def isDefined : Checked → Bool
  | value _ => true
  | undefined => false

end Checked

open Checked in
noncomputable instance : Scalar Checked where
  zero := value 0
  one := value 1
  add := lift (· + ·)
  sub := lift (· - ·)
  mul := lift (· * ·)
  div := divide
  neg
    | value a => value (-a)
    | undefined => undefined
  le := compare (· ≤ ·)
  lt := compare (· < ·)
  beq
    | value a, value b => decide (a = b)
    | _, _ => false
  ofScientific m s e := value (OfScientific.ofScientific m s e)
  decidableLE _ _ := Classical.propDecidable _
  decidableLT _ _ := Classical.propDecidable _
  sqrt := root
  abs
    | value a => value |a|
    | undefined => undefined
  isFinite := isDefined
  isNaN a := !a.isDefined
  isNormal
    | value a => decide (a ≠ 0)
    | undefined => false
  leastNormal := value Scalar.leastNormal

namespace Checked

variable (a b : ℝ)

theorem value_zero : value 0 = 0 :=
  rfl

theorem value_add : value a + value b = value (a + b) :=
  rfl

theorem value_sub : value a - value b = value (a - b) :=
  rfl

theorem value_mul : value a * value b = value (a * b) :=
  rfl

variable {a b}

theorem value_div (h : b ≠ 0) : value a / value b = value (a / b) :=
  if_neg h

theorem value_sqrt (h : 0 ≤ a) : Scalar.sqrt (value a) = value √a :=
  if_neg (not_lt.mpr h)

theorem value_le_value : value a ≤ value b ↔ a ≤ b :=
  Iff.rfl

theorem value_beq_value : (value a == value b) = decide (a = b) :=
  rfl

theorem isNormal_value : Scalar.isNormal (value a) = decide (a ≠ 0) :=
  rfl

theorem maxNum_value (a b : ℝ) : Scalar.maxNum (value a) (value b) = value (max a b) := by
  by_cases h : a < b
  · rw [max_eq_right h.le]
    exact if_pos (.inr h)
  · rw [max_eq_left (not_lt.mp h)]
    refine if_neg ?_
    rintro (hundefined | hlt)
    · cases hundefined
    · exact h hlt

theorem sum_value {n : Nat} (f : Fin n → ℝ) :
    Scalar.sum (fun i => value (f i)) = value (Scalar.sum f) := by
  unfold Scalar.sum
  induction n with
  | zero => rw [Fin.foldl_zero, Fin.foldl_zero]; rfl
  | succ n ih =>
    rw [Fin.foldl_succ_last, Fin.foldl_succ_last]
    exact congrArg (· + value (f (Fin.last n))) (ih fun i => f i.castSucc)

end Checked

open Checked

variable {n : Nat}

namespace Vec

def checked (v : Vec ℝ n) : Vec Checked n :=
  v.map value

@[simp]
theorem get_checked (v : Vec ℝ n) (i : Fin n) : v.checked.get i = value (v.get i) := by
  change (v.map value)[i.val] = value v[i.val]
  simp

theorem checked_ofFn (f : Fin n → ℝ) :
    checked (Vector.ofFn f) = Vector.ofFn fun i => value (f i) := by
  refine ext_get fun i => ?_
  simp

variable (v w d : Vec ℝ n)

theorem scale_checked (a : ℝ) : v.checked.scale (value a) = (v.scale a).checked := by
  simp only [scale, checked, Vector.map_map]
  rfl

theorem neg_checked : v.checked.neg = v.neg.checked :=
  v.scale_checked (-1)

theorem addScaled_checked (a : ℝ) :
    v.checked.addScaled (value a) w.checked = (v.addScaled a w).checked := by
  rw [addScaled, addScaled, checked_ofFn]
  simp only [get_checked, value_mul, value_add]

theorem dot_checked : v.checked.dot w.checked = value (v.dot w) := by
  simp only [dot, get_checked, value_mul, sum_value]

theorem normSquared_checked : v.checked.normSquared = value v.normSquared :=
  dot_checked v v

theorem scaledNormSquared_checked :
    v.checked.scaledNormSquared d.checked = value (v.scaledNormSquared d) := by
  simp only [scaledNormSquared, get_checked, value_mul, sum_value]

theorem scaledNorm_checked : v.checked.scaledNorm d.checked = value (v.scaledNorm d) := by
  rw [scaledNorm, scaledNormSquared_checked, value_sqrt (scaledNormSquared_nonneg v d)]
  rfl

theorem normMax_checked : v.checked.normMax = value v.normMax := by
  have hlist (values : List ℝ) (first : ℝ) :
      (values.map value).foldl (fun largest c => Scalar.maxNum largest (Scalar.abs c))
          (value first) =
        value (values.foldl (fun largest c => Scalar.maxNum largest (Scalar.abs c)) first) := by
    induction values generalizing first with
    | nil => rfl
    | cons c values ih =>
      have hstep : Scalar.maxNum (value first) (Scalar.abs (value c)) =
          value (Scalar.maxNum first (Scalar.abs c)) := by
        rw [Scalar.real_maxNum]
        exact maxNum_value first |c|
      rw [List.map_cons, List.foldl_cons, hstep, ih, List.foldl_cons]
  rw [normMax, normMax, ← Vector.foldl_toList, ← Vector.foldl_toList, checked, Vector.toList_map]
  exact hlist v.toList 0

end Vec

namespace Mat

def checked (a : Mat ℝ n) : Mat Checked n :=
  ofFn fun i j => value (a.entry i j)

theorem entry_checked (a : Mat ℝ n) (i j : Fin n) : a.checked.entry i j = value (a.entry i j) :=
  entry_ofFn _ i j

theorem mulVec_checked (a : Mat ℝ n) (v : Vec ℝ n) :
    a.checked.mulVec v.checked = (a.mulVec v).checked := by
  rw [mulVec, mulVec, Vec.checked_ofFn]
  simp only [entry_checked, Vec.get_checked, value_mul, sum_value]

theorem transposeMulVec_checked (a : Mat ℝ n) (v : Vec ℝ n) :
    a.checked.transposeMulVec v.checked = (a.transposeMulVec v).checked := by
  rw [transposeMulVec, transposeMulVec, Vec.checked_ofFn]
  simp only [entry_checked, Vec.get_checked, value_mul, sum_value]

end Mat

namespace Elimination

def checked : {n : Nat} → Elimination ℝ n → Elimination Checked n
  | _, .done => .done
  | _, .stage p q pivot across multiples rest =>
    .stage p q (value pivot) across.checked multiples.checked rest.checked

def HasPivots : {n : Nat} → Elimination ℝ n → Prop
  | _, .done => True
  | _, .stage _ _ pivot _ _ rest => pivot ≠ 0 ∧ rest.HasPivots

theorem foldr_value {f : Fin n → ℝ → ℝ} {g : Fin n → Checked → Checked}
    (h : ∀ i a, g i (value a) = value (f i a)) (a : ℝ) :
    Fin.foldr n g (value a) = value (Fin.foldr n f a) := by
  induction n with
  | zero => rw [Fin.foldr_zero, Fin.foldr_zero]
  | succ n ih =>
    rw [Fin.foldr_succ, Fin.foldr_succ, ih fun i => h i.succ]
    exact h 0 _

theorem cons_checked (a : ℝ) (v : Vec ℝ n) :
    Vec.cons (value a) v.checked = (Vec.cons a v).checked := by
  refine Vec.ext_get fun i => ?_
  cases i using Fin.cases with
  | zero => simp [Vec.cons]
  | succ i => simp [Vec.get_cons_succ]

theorem insertAt_checked (v : Vec ℝ n) (p : Fin (n + 1)) (a : ℝ) :
    v.checked.insertAt p (value a) = (v.insertAt p a).checked := by
  refine Vec.ext_get fun i => ?_
  revert i
  refine forall_of_skip (p := p) ?_ fun i => ?_
  · rw [Vec.get_checked, Vec.get_insertAt_self, Vec.get_insertAt_self]
  · rw [Vec.get_checked, Vec.get_insertAt_skip, Vec.get_insertAt_skip, Vec.get_checked]

theorem byColumn_checked (e : Elimination ℝ n) (v : Vec ℝ n) :
    e.checked.byColumn v.checked = (e.byColumn v).checked := by
  induction e with
  | done => rfl
  | stage p q pivot across multiples rest ih =>
    have htail : Vec.tail v.checked = (Vec.tail v).checked := by
      rw [Vec.tail, Vec.tail, Vec.checked_ofFn]
      simp only [Vec.get_checked]
    have hfirst : Vec.first v.checked = value (Vec.first v) := Vec.get_checked v _
    rw [checked, byColumn, byColumn, htail, hfirst, ih, insertAt_checked]

theorem unknowns_checked {e : Elimination ℝ n} (he : e.HasPivots) (size : Nat) (b : Vec ℝ n) :
    e.checked.unknowns size b.checked = (e.unknowns size b).checked := by
  induction e with
  | done => rfl
  | stage p q pivot across multiples rest ih =>
    obtain ⟨hpivot, hrest⟩ := he
    have hreduced : (Vector.ofFn fun i => b.checked.get (skip p i) -
        multiples.checked.get i * b.checked.get p) =
        Vec.checked (Vector.ofFn fun i => b.get (skip p i) - multiples.get i * b.get p) := by
      rw [Vec.checked_ofFn]
      simp only [Vec.get_checked, value_mul, value_sub]
    have hinverse : 1 / value pivot = value (1 / pivot) := value_div hpivot
    rw [checked, unknowns, unknowns, hreduced, ih hrest, hinverse, ← cons_checked]
    simp only [Vec.get_checked, value_mul]
    generalize rest.unknowns size _ = later
    have hothers (mates : Nat) :
        (Scalar.sum fun i => if i.val < mates then 0 else value (across.get i * later.get i)) =
          value (Scalar.sum fun i => if i.val < mates then 0 else across.get i * later.get i) := by
      rw [← sum_value]
      congr 1
      funext i
      split_ifs <;> rfl
    rw [hothers, value_sub, value_mul, foldr_value]
    intro i a
    split_ifs <;> rfl

theorem solve_checked {e : Elimination ℝ n} (he : e.HasPivots) (b : Vec ℝ n) :
    e.checked.solve b.checked = (e.solve b).checked := by
  rw [solve, solve, unknowns_checked he, byColumn_checked]

end Elimination

theorem Mat.Nonsingular.hasPivots {a : Mat ℝ n} (ha : a.Nonsingular) : a.eliminate.HasPivots := by
  induction n with
  | zero => trivial
  | succ n ih =>
    obtain ⟨p, q, hpq⟩ : ∃ p q, a.largestEntry = (p, q) := ⟨_, _, rfl⟩
    have hpivot : a.entry p q ≠ 0 := by
      have h := ha.largestEntry_ne_zero
      rwa [hpq] at h
    rw [eliminate_of_pivot hpq hpivot]
    exact ⟨hpivot, ih (ha.remaining hpivot)⟩

namespace LinearSolver

def checked (s : LinearSolver ℝ n) : LinearSolver Checked n :=
  ⟨value s.tolerance, s.factors.map Elimination.checked⟩

theorem solve?_checked {s : LinearSolver ℝ n} {a : Mat ℝ n} (ha : a.Nonsingular)
    (hs : s.factors = some a.eliminate) (b : Vec ℝ n) :
    s.checked.solve? b.checked = some (a.eliminate.solve b).checked := by
  have hfinite (v : Vec ℝ n) : v.checked.isFinite = true := by
    rw [Vec.isFinite, Vec.checked, Vector.all_map]
    simp [Scalar.isFinite, isDefined]
  simp [solve?, checked, hs, Elimination.solve_checked ha.hasPivots, hfinite]

end LinearSolver

end RootFinder
