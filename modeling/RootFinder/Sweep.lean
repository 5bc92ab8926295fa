import RootFinder.Bidiagonal
import RootFinder.SingularValues

/-! Singular values of floating-point matrices. The bidiagonal form, in units of its largest entry,
falls into blocks where an entry beside the diagonal is negligible. A block of one row is a
singular value; a larger one is swept by plane rotations, which drive the entry beside its last
row but one to zero. -/

namespace RootFinder

namespace Sweep

open Bidiagonal

/-- Two to the power -52, the spacing of doubles at one. -/
def spacing : Float :=
  Float.ofBits 0x3cb0000000000000

/-- Whether the square of an entry beside the diagonal is lost against the product of its
neighbours, or against zero. -/
def isNegligible (row next : Row) : Bool :=
  decide (row.beside * row.beside ≤
    spacing * spacing * (row.diagonal * next.diagonal).abs + leastNormalFloat)

def blocks : List Row → List (List Row)
  | [] => []
  | [row] => [[row]]
  | row :: next :: rest =>
    if isNegligible row next then [⟨row.diagonal, 0⟩] :: blocks (next :: rest)
    else
      match blocks (next :: rest) with
      | [] => [[row]]
      | block :: others => (row :: block) :: others

structure Rotation where
  cosine : Float
  sine : Float

def Rotation.toAxis (y z : Float) : Rotation :=
  if z == 0 then ⟨if y < 0 then -1 else 1, 0⟩
  else if z.abs < y.abs then
    let ratio := z / y
    let root := (1 + ratio * ratio).sqrt
    let cosine := 1 / (if y < 0 then -root else root)
    ⟨cosine, -ratio * cosine⟩
  else
    let ratio := y / z
    let root := (1 + ratio * ratio).sqrt
    let sine := -1 / (if z < 0 then -root else root)
    ⟨-ratio * sine, sine⟩

def Rotation.first (r : Rotation) (y z : Float) : Float :=
  r.cosine * y - r.sine * z

def Rotation.second (r : Rotation) (y z : Float) : Float :=
  r.sine * y + r.cosine * z

/-- Rotates an entry that stands alone above these rows out of the matrix. -/
def expel (entry : Float) : List Row → List Row
  | [] => []
  | row :: rest =>
    let r := Rotation.toAxis row.diagonal entry
    ⟨r.first row.diagonal entry, r.cosine * row.beside⟩ :: expel (r.sine * row.beside) rest

/-- The rows separated at the first of them, other than the last, whose diagonal entry has a
square lost against zero. Sweeps no longer move such an entry. -/
def separated? : List Row → Option (List Row)
  | row :: next :: rest =>
    if row.diagonal * row.diagonal ≤ leastNormalFloat then
      some (⟨row.diagonal, 0⟩ :: expel row.beside (next :: rest))
    else (separated? (next :: rest)).map (row :: ·)
  | _ => none

/-- The eigenvalue nearest to the last entry of the last two rows and columns of the product of
the transpose and the matrix. -/
def shift (block : List Row) : Float :=
  match block.reverse with
  | last :: row :: before =>
    let above := (before.head?.map Row.beside).getD 0
    let upper := row.diagonal * row.diagonal + above * above
    let lower := last.diagonal * last.diagonal + row.beside * row.beside
    let mixed := row.diagonal * row.beside * (row.diagonal * row.beside)
    if mixed ≤ leastNormalFloat then lower
    else
      let half := (upper - lower) / 2
      let root := (half * half + mixed).sqrt
      lower - mixed / (half + if half < 0 then -root else root)
  | _ => 0

/-- Chases the entry that a rotation along `(y, z)` puts below the diagonal out of the matrix. The
first row is given by its entries; the result has the entry beside the row before it, too. -/
def chase (y z diagonal beside : Float) : List Row → Float × List Row
  | [] => (y, [⟨diagonal, 0⟩])
  | next :: rest =>
    let r := Rotation.toAxis y z
    let bulge := -r.sine * next.diagonal
    let d := r.first diagonal beside
    let e := r.second diagonal beside
    let q := Rotation.toAxis d bulge
    let lower := r.cosine * next.diagonal
    let (entry, rows) :=
      chase (q.first e lower) (-q.sine * next.beside) (q.second e lower) (q.cosine * next.beside)
        rest
    (r.first y z, ⟨q.first d bulge, entry⟩ :: rows)

def sweep : List Row → List Row
  | [] => []
  | row :: rest =>
    let y := row.diagonal * row.diagonal - shift (row :: rest)
    (chase y (row.diagonal * row.beside) row.diagonal row.beside rest).2

/-- The singular values of blocks, with a bound on the number of steps and values. -/
def values? : Nat → List (List Row) → Option (List Float)
  | _, [] => some []
  | 0, _ => none
  | limit + 1, [row] :: others => (values? limit others).map (row.diagonal.abs :: ·)
  | limit + 1, block :: others =>
    values? limit (blocks ((separated? block).getD (sweep block)) ++ others)

def largest (rows : List Row) : Float :=
  rows.foldl (fun size row => Scalar.maxNum size (Scalar.maxNum row.diagonal.abs row.beside.abs)) 0

/-- A bidiagonal form with an entry out of range has no singular values. -/
def singularValues? {n : Nat} (a : Mat Float n) : Option (List Float) :=
  let rows := ofMat a
  if a.isFinite ∧ rows.all fun row => row.diagonal.isFinite && row.beside.isFinite then
    let size := largest rows
    let unit := if size == 0 then 1 else size
    let scaled := rows.map fun row => Row.mk (row.diagonal / unit) (row.beside / unit)
    (values? (33 * n * n + 1) (blocks scaled)).map (·.map (· * unit))
  else none

end Sweep

instance : SingularValues Float where
  singularValues? := Sweep.singularValues?

end RootFinder
