import RootFinder.Mat

/-! Elimination with full pivoting. Each stage takes the largest entry as its pivot, records the
pivot's row and the multiples of it to subtract, and goes on with the matrix without the pivot's
row and column. A matrix without an entry fit to be a pivot is recorded as it is.

The unknowns are found from the last stage to the first, in blocks of at most four. To divide by a
pivot is to multiply by its reciprocal. The unknowns of other blocks are taken off a row before
this division, those of its own block after it, so the quotients have to stay in range too. -/

namespace RootFinder

/-- The indices other than `p`, in order, save that the first takes the place of `p`. -/
def skip {n : Nat} (p : Fin (n + 1)) (i : Fin n) : Fin (n + 1) :=
  if i.succ = p then ⟨0, Nat.succ_pos n⟩ else i.succ

theorem skip_ne {n : Nat} (p : Fin (n + 1)) (i : Fin n) : skip p i ≠ p := by
  unfold skip
  split
  · next h => exact fun h0 => absurd (congrArg Fin.val (h.trans h0.symm)) (by simp)
  · next h => exact h

theorem exists_skip_eq {n : Nat} {p i : Fin (n + 1)} (h : i ≠ p) : ∃ k, skip p k = i := by
  have hne : i.val ≠ p.val := fun hv => h (Fin.ext hv)
  by_cases h0 : i.val = 0
  · refine ⟨⟨p.val - 1, by omega⟩, Fin.ext ?_⟩
    simp [skip, h0, show p.val - 1 + 1 = p.val by omega]
  · refine ⟨⟨i.val - 1, by omega⟩, Fin.ext ?_⟩
    simp [skip, Fin.ext_iff, show i.val - 1 + 1 = i.val by omega, hne]

namespace Vec

variable {α : Type} {n : Nat}

def without (v : Vec α (n + 1)) (p : Fin (n + 1)) : Vec α n :=
  Vector.ofFn fun i => v.get (skip p i)

theorem get_without (v : Vec α (n + 1)) (p : Fin (n + 1)) (i : Fin n) :
    (v.without p).get i = v.get (skip p i) := by
  simp [without]

/-- The vector with `c` as component `p` and the components of `v` as the others. -/
def insertAt (v : Vec α n) (p : Fin (n + 1)) (c : α) : Vec α (n + 1) :=
  let all := cons c v
  Vector.ofFn fun i => if i = p then c else if i.val = 0 then all.get p else all.get i

theorem get_insertAt_self (v : Vec α n) (p : Fin (n + 1)) (c : α) :
    (v.insertAt p c).get p = c := by
  simp [insertAt]

theorem get_insertAt_skip (v : Vec α n) (p : Fin (n + 1)) (c : α) (i : Fin n) :
    (v.insertAt p c).get (skip p i) = v.get i := by
  simp only [insertAt, get_ofFn, if_neg (skip_ne p i)]
  unfold skip
  split
  · next h => simp [← h, get_cons_succ]
  · simp [get_cons_succ]

theorem without_insertAt (v : Vec α n) (p : Fin (n + 1)) (c : α) :
    (v.insertAt p c).without p = v := by
  refine Vector.ext fun i hi => ?_
  exact (get_ofFn _ ⟨i, hi⟩).trans (get_insertAt_skip v p c ⟨i, hi⟩)

end Vec

/-- The record of an elimination, one stage for each unknown. A row goes on behind its pivot with
one entry for each later stage, in their order. -/
inductive Elimination (α : Type) : Nat → Type
  | done : Elimination α 0
  | stage {n : Nat} (row col : Fin (n + 1)) (pivot : α) (across : Vec α n) (multiples : Vec α n)
      (rest : Elimination α n) : Elimination α (n + 1)

namespace Elimination

variable {α : Type}

def byStage : {n : Nat} → Elimination α n → Vec α n → Vec α n
  | _, .done, v => v
  | _, .stage _ q _ _ _ rest, v => Vec.cons (v.get q) (rest.byStage (v.without q))

def byColumn : {n : Nat} → Elimination α n → Vec α n → Vec α n
  | _, .done, v => v
  | _, .stage _ q _ _ _ rest, v => (rest.byColumn (Vec.tail v)).insertAt q (Vec.first v)

theorem byStage_byColumn {n : Nat} (e : Elimination α n) (v : Vec α n) :
    e.byStage (e.byColumn v) = v := by
  induction e with
  | done => rfl
  | stage p q pivot across multiples rest ih =>
    simp only [byStage, byColumn, Vec.get_insertAt_self, Vec.without_insertAt, ih]
    exact Vec.cons_first_tail v

end Elimination

namespace Mat

variable {α : Type} [Scalar α]

/-- The first place, row by row, of an entry of largest magnitude. -/
def largestEntry {n : Nat} (a : Mat α (n + 1)) : Fin (n + 1) × Fin (n + 1) :=
  Fin.foldl (n + 1) (fun best i =>
    Fin.foldl (n + 1) (fun best j =>
      if Scalar.abs (a.entry best.1 best.2) < Scalar.abs (a.entry i j) then (i, j) else best)
      best) (0, 0)

/-- Subtracts multiples of the pivot's row, unless even the largest entry vanishes. -/
def eliminate : {n : Nat} → Mat α n → Elimination α n
  | 0, _ => .done
  | n + 1, a =>
    let (p, q) := a.largestEntry
    if Scalar.isVanishing (a.entry p q) then
      let first : Fin (n + 1) := ⟨0, Nat.succ_pos n⟩
      let rest := eliminate (Mat.ofFn fun i j => a.entry i.succ j.succ)
      .stage first first (a.entry first first) (rest.byStage (Vec.tail (a.get first)))
        (Vec.tail (a.column first)) rest
    else
      let across : Vec α n := Vec.without (a.get p) q
      let multiples : Vec α n := Vector.ofFn fun i => a.entry (skip p i) q * (1 / a.entry p q)
      let rest := eliminate (Mat.ofFn fun i j =>
        a.entry (skip p i) (skip q j) - multiples.get i * across.get j)
      .stage p q (a.entry p q) (rest.byStage across) multiples rest

end Mat

namespace Elimination

variable {α : Type} [Scalar α]

/-- Where a range of more than four unknowns is cut: in its middle, rounded up to whole multiples
of four, eight or sixteen if it is long. -/
def cut (size : Nat) : Nat :=
  let unit := if 32 ≤ size then 16 else if 16 ≤ size then 8 else if 8 ≤ size then 4 else 1
  (size / 2 + unit - 1) / unit * unit

theorem cut_pos {size : Nat} (h : 4 < size) : 0 < cut size := by
  unfold cut
  grind

theorem cut_lt {size : Nat} (h : 4 < size) : cut size < size := by
  unfold cut
  grind

/-- Of the `later` unknowns found before another one of `size`, how many are in its block. -/
def blockMates (size later : Nat) : Nat :=
  if size ≤ 4 then later
  else if later < cut size then blockMates (cut size) later
  else blockMates (size - cut size) (later - cut size)
termination_by size
decreasing_by
  · exact cut_lt (by omega)
  · have : 0 < cut size := cut_pos (by omega)
    omega

/-- The unknowns by stage, for one part of a problem with `size` unknowns. -/
def unknowns (size : Nat) : {n : Nat} → Elimination α n → Vec α n → Vec α n
  | _, .done, b => b
  | n + 1, .stage p _ pivot across multiples rest, b =>
    let later :=
      rest.unknowns size (Vector.ofFn fun i => b.get (skip p i) - multiples.get i * b.get p)
    let mates := blockMates size n
    let others := Scalar.sum fun i : Fin n =>
      if i.val < mates then 0 else across.get i * later.get i
    let inverse := 1 / pivot
    Vec.cons
      (Fin.foldr n
        (fun i value =>
          if i.val < mates then value - across.get i * inverse * later.get i else value)
        ((b.get p - others) * inverse))
      later

def solve {n : Nat} (e : Elimination α n) (b : Vec α n) : Vec α n :=
  e.byColumn (e.unknowns n b)

end Elimination

end RootFinder
