import RootFinder.Vec

/-! Square matrices, stored by rows. -/

namespace RootFinder

abbrev Mat (α : Type) (n : Nat) := Vector (Vector α n) n

namespace Mat

variable {α : Type} {n : Nat}

def ofFn (f : Fin n → Fin n → α) : Mat α n :=
  Vector.ofFn fun i => Vector.ofFn fun j => f i j

def entry (a : Mat α n) (i j : Fin n) : α :=
  (a.get i).get j

@[simp]
theorem entry_ofFn (f : Fin n → Fin n → α) (i j : Fin n) : (ofFn f).entry i j = f i j := by
  simp [entry, ofFn]

/-- The rows as a matrix, if there are `n` of them with `n` entries each. -/
def ofRows? (n : Nat) (rows : List (List α)) : Option (Mat α n) := do
  Vec.ofList? n (← rows.mapM (Vec.ofList? n))

def column (a : Mat α n) (j : Fin n) : Vec α n :=
  Vector.ofFn fun i => a.entry i j

def setColumn (a : Mat α n) (j : Fin n) (v : Vec α n) : Mat α n :=
  ofFn fun i k => if k = j then v.get i else a.entry i k

@[simp]
theorem get_column (a : Mat α n) (j i : Fin n) : (a.column j).get i = a.entry i j := by
  simp [column]

theorem ext_column {a b : Mat α n} (h : ∀ j, a.column j = b.column j) : a = b := by
  refine Vec.ext_get fun i => Vec.ext_get fun j => ?_
  have hj := congrArg (fun v : Vec α n => v.get i) (h j)
  simpa only [get_column, entry] using hj

theorem column_setColumn_self (a : Mat α n) (j : Fin n) (v : Vec α n) :
    (a.setColumn j v).column j = v := by
  refine Vec.ext_get fun i => ?_
  simp [setColumn]

theorem column_setColumn_of_ne (a : Mat α n) {j k : Fin n} (h : k ≠ j) (v : Vec α n) :
    (a.setColumn j v).column k = a.column k := by
  refine Vec.ext_get fun i => ?_
  simp [setColumn, h]

def setEntry (a : Mat α n) (i j : Fin n) (c : α) : Mat α n :=
  ofFn fun k l => if k = i ∧ l = j then c else a.entry k l

variable [Scalar α]

def zeros (n : Nat) : Mat α n :=
  ofFn fun _ _ => 0

def isFinite (a : Mat α n) : Bool :=
  a.all fun row => row.all Scalar.isFinite

def mulVec (a : Mat α n) (v : Vec α n) : Vec α n :=
  Vector.ofFn fun i => Scalar.sum fun j : Fin n => a.entry i j * v.get j

def transposeMulVec (a : Mat α n) (v : Vec α n) : Vec α n :=
  Vector.ofFn fun j => Scalar.sum fun i : Fin n => a.entry i j * v.get i

def columnNorms (a : Mat α n) : Vec α n :=
  Vector.ofFn fun j => (a.column j).norm

/-- `a + c u vᵀ`. -/
def addRankOne (a : Mat α n) (c : α) (u v : Vec α n) : Mat α n :=
  ofFn fun i j => a.entry i j + u.get i * (c * v.get j)

end Mat

end RootFinder
