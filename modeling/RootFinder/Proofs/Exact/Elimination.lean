import Mathlib.Algebra.BigOperators.Field
import Mathlib.Tactic.FieldSimp
import Mathlib.Tactic.LinearCombination
import Mathlib.Tactic.Ring
import RootFinder.Elimination
import RootFinder.Proofs.Exact.Vectors

/-! Elimination solves linear equations exactly. A matrix that takes only zero to zero has a pivot,
and the matrix that remains without the pivot's row and column is again such a matrix. The unknowns
of the remaining equations and the one of the pivot make up the solution. -/

namespace RootFinder

open Matrix

theorem skip_injective {n : Nat} (p : Fin (n + 1)) : Function.Injective (skip p) := by
  intro i j h
  unfold skip at h
  split_ifs at h with hi hj hj
  · exact Fin.succ_injective n (hi.trans hj.symm)
  · exact absurd h.symm (Fin.succ_ne_zero j)
  · exact absurd h (Fin.succ_ne_zero i)
  · exact Fin.succ_injective n h

theorem sum_skip {n : Nat} (p : Fin (n + 1)) (g : Fin (n + 1) → ℝ) :
    ∑ i, g i = g p + ∑ i, g (skip p i) := by
  have hothers : Finset.univ.erase p = Finset.univ.image (skip p) := by
    ext i
    simp only [Finset.mem_erase, Finset.mem_univ, and_true, Finset.mem_image, true_and]
    constructor
    · exact exists_skip_eq
    · rintro ⟨k, rfl⟩
      exact skip_ne p k
  rw [← Finset.add_sum_erase _ _ (Finset.mem_univ p), hothers,
    Finset.sum_image fun i _ j _ h => skip_injective p h]

theorem forall_of_skip {n : Nat} {p : Fin (n + 1)} {P : Fin (n + 1) → Prop} (hp : P p)
    (hskip : ∀ i, P (skip p i)) (i : Fin (n + 1)) : P i := by
  by_cases h : i = p
  · exact h ▸ hp
  · obtain ⟨k, rfl⟩ := exists_skip_eq h
    exact hskip k

/-- A search that never lets a size fall reaches the bound that each of its steps reaches. -/
theorem foldl_reaches {n : Nat} {ι : Type} {step : ι → Fin n → ι} (size : ι → ℝ) (bound : Fin n → ℝ)
    (hstep : ∀ best i, size best ≤ size (step best i) ∧ bound i ≤ size (step best i)) (best : ι) :
    size best ≤ size (Fin.foldl n step best) ∧ ∀ i, bound i ≤ size (Fin.foldl n step best) := by
  induction n with
  | zero => exact ⟨(Fin.foldl_zero step best).symm ▸ le_refl _, fun i => i.elim0⟩
  | succ n ih =>
    obtain ⟨hfirst, hearlier⟩ :=
      ih (fun i => bound i.castSucc) (fun best i => hstep best i.castSucc)
    rw [Fin.foldl_succ_last]
    obtain ⟨hkept, hlast⟩ :=
      hstep (Fin.foldl n (fun best i => step best i.castSucc) best) (Fin.last n)
    refine ⟨hfirst.trans hkept, fun i => ?_⟩
    cases i using Fin.lastCases with
    | last => exact hlast
    | cast i => exact (hearlier i).trans hkept

theorem foldr_sub {n : Nat} (g : Fin n → ℝ) (c : ℝ) :
    Fin.foldr n (fun i value => value - g i) c = c - ∑ i, g i := by
  induction n with
  | zero => simp
  | succ n ih =>
    rw [Fin.foldr_succ, ih, Fin.sum_univ_succ]
    ring

namespace Elimination

/-- Both vectors are reordered alike. -/
theorem byStage_dotProduct {n : Nat} (e : Elimination ℝ n) (v w : Vec ℝ n) :
    (e.byStage v).get ⬝ᵥ (e.byStage w).get = v.get ⬝ᵥ w.get := by
  induction e with
  | done => rfl
  | stage p q pivot across multiples rest ih =>
    have hrest := ih (v.without q) (w.without q)
    simp only [dotProduct] at hrest ⊢
    rw [Fin.sum_univ_succ, sum_skip q fun i => v.get i * w.get i]
    simp only [byStage, Vec.get_cons_succ, hrest]
    simp [Vec.cons, Vec.without]

/-- The unknown of a pivot makes up what the later ones leave of the pivot's equation. The blocks
only group the terms. -/
theorem unknowns_stage {n size : Nat} {p q : Fin (n + 1)} {pivot : ℝ} {across multiples : Vec ℝ n}
    {rest : Elimination ℝ n} {b : Vec ℝ (n + 1)} {later : Vec ℝ n}
    (hlater : rest.unknowns size
      (Vector.ofFn fun i => b.get (skip p i) - multiples.get i * b.get p) = later) :
    (stage p q pivot across multiples rest).unknowns size b =
      Vec.cons ((b.get p - across.get ⬝ᵥ later.get) / pivot) later := by
  let mates := blockMates size n
  have hfold (value : ℝ) :
      Fin.foldr n (fun i value =>
        if i.val < mates then value - across.get i * (1 / pivot) * later.get i else value) value =
      value - (∑ i : Fin n, if i.val < mates then across.get i * later.get i else 0) / pivot := by
    have hterm : (fun (i : Fin n) (value : ℝ) =>
        if i.val < mates then value - across.get i * (1 / pivot) * later.get i else value) =
        fun i value =>
          value - (if i.val < mates then across.get i * later.get i else 0) / pivot := by
      funext i value
      split_ifs <;> ring
    rw [hterm, foldr_sub, Finset.sum_div]
  have hsplit : across.get ⬝ᵥ later.get =
      (∑ i : Fin n, if i.val < mates then 0 else across.get i * later.get i) +
        ∑ i : Fin n, if i.val < mates then across.get i * later.get i else 0 := by
    rw [dotProduct, ← Finset.sum_add_distrib]
    refine Finset.sum_congr rfl fun i _ => ?_
    split_ifs <;> ring
  simp only [unknowns, hlater, Scalar.real_sum]
  rw [hfold, hsplit]
  congr 1
  ring

end Elimination

namespace Mat

def multiple {n : Nat} {α : Type} [Scalar α] (a : Mat α (n + 1)) (p q : Fin (n + 1))
    (i : Fin n) : α :=
  a.entry (skip p i) q * (1 / a.entry p q)

/-- The matrix without the row and column of the pivot, with multiples of the row subtracted. -/
def remaining {n : Nat} {α : Type} [Scalar α] (a : Mat α (n + 1)) (p q : Fin (n + 1)) : Mat α n :=
  ofFn fun i j => a.entry (skip p i) (skip q j) - a.multiple p q i * a.entry p (skip q j)

variable {n : Nat} {a : Mat ℝ (n + 1)} {p q : Fin (n + 1)}

/-- A vector solves the equations if its other components solve the remaining ones, and the pivot's
component makes up the rest of the pivot's equation. -/
theorem mulVec_insertAt (hpivot : a.entry p q ≠ 0) {b : Vec ℝ (n + 1)} {y : Vec ℝ n} {c : ℝ}
    (hc : a.entry p q * c + ∑ j, a.entry p (skip q j) * y.get j = b.get p)
    (hy : ∀ i, ((a.remaining p q).toMatrix *ᵥ y.get) i =
      b.get (skip p i) - a.multiple p q i * b.get p) :
    a.toMatrix *ᵥ (y.insertAt q c).get = b.get := by
  funext i
  rw [Matrix.mulVec, dotProduct, sum_skip q]
  simp only [toMatrix_apply, Vec.get_insertAt_self, Vec.get_insertAt_skip]
  revert i
  refine forall_of_skip (p := p) hc fun i => ?_
  have hrow := hy i
  simp only [Matrix.mulVec, dotProduct, toMatrix_apply, remaining, entry_ofFn, sub_mul,
    Finset.sum_sub_distrib, mul_assoc, ← Finset.mul_sum] at hrow
  have hmultiple : a.entry (skip p i) q = a.multiple p q i * a.entry p q := by
    rw [multiple]
    field_simp
  rw [hmultiple]
  linear_combination hrow + a.multiple p q i * hc

theorem Nonsingular.remaining (ha : a.Nonsingular) (hpivot : a.entry p q ≠ 0) :
    (a.remaining p q).Nonsingular := by
  intro v hv
  let y : Vec ℝ n := Vector.ofFn v
  have hy : y.get = v := funext fun i => Vec.get_ofFn v i
  let c := -(∑ j, a.entry p (skip q j) * y.get j) / a.entry p q
  have hzero : (y.insertAt q c).get = 0 := by
    refine ha _ ?_
    refine (mulVec_insertAt (b := Vec.zeros _) hpivot ?_ fun i => ?_).trans
      (funext fun i => Vec.get_zeros i)
    · rw [Vec.get_zeros, mul_div_cancel₀ _ hpivot, neg_add_cancel]
    · rw [hy, hv]
      simp
  funext i
  have hi := congrFun hzero (skip q i)
  rwa [Vec.get_insertAt_skip, hy] at hi

theorem abs_le_largestEntry (a : Mat ℝ (n + 1)) (i j : Fin (n + 1)) :
    |a.entry i j| ≤ |a.entry a.largestEntry.1 a.largestEntry.2| := by
  let size (place : Fin (n + 1) × Fin (n + 1)) : ℝ := |a.entry place.1 place.2|
  have hplace (i : Fin (n + 1)) (best : Fin (n + 1) × Fin (n + 1)) (j : Fin (n + 1)) :
      size best ≤ size (if size best < size (i, j) then (i, j) else best) ∧
        size (i, j) ≤ size (if size best < size (i, j) then (i, j) else best) := by
    split_ifs with h
    · exact ⟨h.le, le_refl _⟩
    · exact ⟨le_refl _, not_lt.mp h⟩
  have hrow (best : Fin (n + 1) × Fin (n + 1)) (i : Fin (n + 1)) :=
    foldl_reaches size (fun j => size (i, j)) (hplace i) best
  exact (foldl_reaches size (fun i => size (i, j))
    (fun best i => ⟨(hrow best i).1, (hrow best i).2 j⟩) (0, 0)).2 i

theorem Nonsingular.largestEntry_ne_zero (ha : a.Nonsingular) :
    a.entry a.largestEntry.1 a.largestEntry.2 ≠ 0 := by
  intro hzero
  have hentries (i j : Fin (n + 1)) : a.entry i j = 0 := by
    have h := a.abs_le_largestEntry i j
    rw [hzero, abs_zero] at h
    exact abs_nonpos_iff.mp h
  have hone := congrFun (ha 1 (funext fun i => by simp [Matrix.mulVec, dotProduct, hentries])) 0
  exact one_ne_zero hone

theorem eliminate_of_pivot (hpq : a.largestEntry = (p, q)) (hpivot : a.entry p q ≠ 0) :
    a.eliminate = .stage p q (a.entry p q)
      ((a.remaining p q).eliminate.byStage (Vec.without (a.get p) q))
      (Vector.ofFn (a.multiple p q)) (a.remaining p q).eliminate := by
  have hnormal : ¬ Scalar.isVanishing (a.entry p q) = true := by simpa using hpivot
  rw [eliminate]
  simp only [hpq, if_neg hnormal, Vec.get_ofFn, Vec.get_without]
  rfl

theorem Nonsingular.mulVec_unknowns {n : Nat} {a : Mat ℝ n} (ha : a.Nonsingular) (size : Nat)
    (b : Vec ℝ n) :
    a.toMatrix *ᵥ (a.eliminate.byColumn (a.eliminate.unknowns size b)).get = b.get := by
  induction n with
  | zero => exact funext fun i => i.elim0
  | succ n ih =>
    obtain ⟨p, q, hpq⟩ : ∃ p q, a.largestEntry = (p, q) := ⟨_, _, rfl⟩
    have hpivot : a.entry p q ≠ 0 := by
      have h := ha.largestEntry_ne_zero
      rwa [hpq] at h
    let e := (a.remaining p q).eliminate
    let across := Vec.without (a.get p) q
    obtain ⟨later, hlater⟩ : ∃ later, e.unknowns size (Vector.ofFn fun i =>
        b.get (skip p i) - (Vector.ofFn (a.multiple p q)).get i * b.get p) = later := ⟨_, rfl⟩
    have hreordered : (e.byStage across).get ⬝ᵥ later.get =
        across.get ⬝ᵥ (e.byColumn later).get := by
      have h := e.byStage_dotProduct across (e.byColumn later)
      rwa [Elimination.byStage_byColumn] at h
    have hrest := ih (ha.remaining hpivot) (Vector.ofFn fun i =>
      b.get (skip p i) - (Vector.ofFn (a.multiple p q)).get i * b.get p)
    rw [eliminate_of_pivot hpq hpivot, Elimination.unknowns_stage hlater]
    simp only [Elimination.byColumn, Vec.first_cons, Vec.tail_cons]
    refine mulVec_insertAt hpivot ?_ fun i => ?_
    · have hacross : across.get = fun j => a.entry p (skip q j) :=
        funext fun j => Vec.get_without _ q j
      rw [hreordered, mul_div_cancel₀ _ hpivot, hacross]
      exact sub_add_cancel _ _
    · rw [← hlater, hrest]
      simp

/-- Elimination solves the equations. -/
theorem Nonsingular.mulVec_solve {n : Nat} {a : Mat ℝ n} (ha : a.Nonsingular) (b : Vec ℝ n) :
    a.toMatrix *ᵥ (a.eliminate.solve b).get = b.get :=
  ha.mulVec_unknowns n b

/-- Elimination finds the one solution there is. -/
theorem Nonsingular.solve_eq {a : Mat ℝ n} (ha : a.Nonsingular) {b p : Vec ℝ n}
    (hp : a.toMatrix *ᵥ p.get = b.get) : a.eliminate.solve b = p := by
  have hdifference := ha ((a.eliminate.solve b).get - p.get) (by
    rw [mulVec_sub, ha.mulVec_solve, hp, sub_self])
  exact Vec.ext_get fun i => sub_eq_zero.mp (congrFun hdifference i)

end Mat

end RootFinder
