import RootFinder.Mat

/-! Bidiagonal form of floating-point matrices. Reflections of columns and rows in turn leave no
entry but those on the diagonal and right of it, and change no singular value but by rounding. The
lengths of columns stay in range; those of rows may vanish or leave it. -/

namespace RootFinder

namespace Bidiagonal

/-- A row of a bidiagonal matrix: its entry on the diagonal and the one right of it, which is zero
in the last row. -/
structure Row where
  diagonal : Float
  beside : Float

/-- The length of the hypotenuse, with no square out of range. -/
def hypotenuse (a b : Float) : Float :=
  let longer := Scalar.maxNum a.abs b.abs
  let shorter := Scalar.minNum a.abs b.abs
  if longer == 0 then 0
  else
    let ratio := shorter / longer
    longer * (1 + ratio * ratio).sqrt

/-- The length of a vector. Its components are scaled where their squares might leave the range. -/
def length {n : Nat} (v : Vec Float n) : Float :=
  let small := leastNormalFloat.sqrt
  let shrunk := (v.scale small).norm
  let grown := (v.scale (1 / small)).norm
  if 1 ≤ shrunk then shrunk / small else if grown ≤ 1 then grown * small else v.norm

/-- The reflection that takes `w` to `w - (v · w / weight) v`, where `v` is the direction. -/
structure Reflection (n : Nat) where
  direction : Vec Float n
  weight : Float

/-- A component that has lost digits counts as zero. -/
def flushed (v : Float) : Float :=
  if v.abs < leastNormalFloat then 0 else v

variable {n : Nat}

/-- The reflection of a vector onto the first axis, and the component it leaves there. The length
behind the first component is given. If it is zero, or has lost digits, no reflection is needed. -/
def reflect (v : Vec Float (n + 1)) (tailLength : Float) : Float × Option (Reflection (n + 1)) :=
  let head := flushed (Vec.first v)
  if tailLength < leastNormalFloat then (head, none)
  else
    let image := if head < 0 then hypotenuse head tailLength else -hypotenuse head tailLength
    let inverse := 1 / (head - image)
    let slope := tailLength * inverse
    (image, some ⟨Vec.cons 1 ((Vec.tail v).scale inverse), (1 + slope * slope) / 2⟩)

def mirrored (r : Option (Reflection n)) (w : Vec Float n) : Vec Float n :=
  match r with
  | none => w
  | some r => w.addScaled (-(r.direction.dot w * (1 / r.weight))) r.direction

/-- Reflects the top row onto its first entry and the rows below it likewise. The top row is first
divided by its length, and the entry then multiplied by it. Lengths of rows are roots of sums of
squares: an entry whose square vanishes is lost, and one whose square is out of range becomes
undefined. -/
def reflectRows : {n : Nat} → Vec Float n → Mat Float n → Float × Mat Float n
  | 0, _, below => (0, below)
  | _ + 1, top, below =>
    let size := top.norm
    let unit := if size == 0 then top else top.scale (1 / size)
    let (image, r) := reflect unit (Vec.tail unit).norm
    (image * size, below.map (mirrored r))

def ofMat : {n : Nat} → Mat Float n → List Row
  | 0, _ => []
  | n + 1, a =>
    let left := a.column ⟨0, Nat.succ_pos n⟩
    let (diagonal, r) := reflect left (length (Vec.tail left))
    let columns : Vec (Vec Float (n + 1)) n := Vector.ofFn fun j => mirrored r (a.column j.succ)
    let top := columns.map Vec.first
    let (beside, below) := reflectRows top (Mat.ofFn fun i j => (columns.get j).get i.succ)
    ⟨diagonal, beside⟩ :: ofMat below

end Bidiagonal

end RootFinder
