import RootFinder.Scalar

/-! Vectors of a fixed length, with the products and norms of the method. -/

namespace RootFinder

abbrev Vec (α : Type) (n : Nat) := Vector α n

namespace Vec

variable {α : Type} {n : Nat}

def ofList? (n : Nat) (values : List α) : Option (Vec α n) :=
  if h : values.length = n then some ⟨values.toArray, by simpa using h⟩ else none

theorem ofList?_eq_none_iff {values : List α} : ofList? n values = none ↔ values.length ≠ n := by
  by_cases h : values.length = n <;> simp [ofList?, h]

theorem ofList?_toList (v : Vec α n) : ofList? n v.toList = some v := by
  obtain ⟨a, h⟩ := v
  simp [ofList?, h]

theorem eq_toList_of_ofList? {values : List α} {v : Vec α n} (h : ofList? n values = some v) :
    values = v.toList := by
  unfold ofList? at h
  split at h
  · cases h
    simp
  · cases h

def setAt (v : Vec α n) (i : Fin n) (c : α) : Vec α n :=
  Vector.ofFn fun k => if k = i then c else v.get k

def first (v : Vec α (n + 1)) : α :=
  v.get ⟨0, Nat.succ_pos n⟩

def tail (v : Vec α (n + 1)) : Vec α n :=
  Vector.ofFn fun i => v.get i.succ

def cons (c : α) (v : Vec α n) : Vec α (n + 1) :=
  Vector.ofFn (Fin.cases c v.get)

@[simp]
theorem get_ofFn (f : Fin n → α) (i : Fin n) : (Vector.ofFn f).get i = f i := by
  show (Vector.ofFn f)[i.val] = f i
  simp

theorem ext_get {v w : Vec α n} (h : ∀ i, v.get i = w.get i) : v = w :=
  Vector.ext fun i hi => h ⟨i, hi⟩

theorem first_cons (c : α) (v : Vec α n) : first (cons c v) = c := by
  simp [first, cons, Fin.cases]

theorem get_cons_succ (c : α) (v : Vec α n) (i : Fin n) : (cons c v).get i.succ = v.get i := by
  simp [cons]

theorem tail_cons (c : α) (v : Vec α n) : tail (cons c v) = v := by
  refine Vector.ext fun i hi => ?_
  exact (get_ofFn _ ⟨i, hi⟩).trans (get_cons_succ c v ⟨i, hi⟩)

theorem cons_first_tail (v : Vec α (n + 1)) : cons (first v) (tail v) = v := by
  refine Vector.ext fun i hi => ?_
  cases i with
  | zero => exact first_cons _ _
  | succ k =>
    have h := get_cons_succ (first v) (tail v) ⟨k, by omega⟩
    exact h.trans (get_ofFn _ _)

variable [Scalar α]

def zeros (n : Nat) : Vec α n :=
  Vector.replicate n 0

def ones (n : Nat) : Vec α n :=
  Vector.replicate n 1

def isFinite (v : Vec α n) : Bool :=
  v.all Scalar.isFinite

def firstNonFinite? (v : Vec α n) : Option (Fin n) :=
  v.findFinIdx? fun c => !Scalar.isFinite c

theorem firstNonFinite?_eq_none_iff {v : Vec α n} :
    v.firstNonFinite? = none ↔ v.isFinite = true := by
  rw [firstNonFinite?, isFinite, Vector.findFinIdx?_eq_none_iff,
    Vector.all_eq_true_iff_forall_mem]
  simp

def scale (v : Vec α n) (a : α) : Vec α n :=
  v.map (· * a)

def neg (v : Vec α n) : Vec α n :=
  v.scale (-1)

/-- `v + a w` in each component. -/
def addScaled (v : Vec α n) (a : α) (w : Vec α n) : Vec α n :=
  Vector.ofFn fun i => v.get i + a * w.get i

def dot (v w : Vec α n) : α :=
  Scalar.sum fun i : Fin n => v.get i * w.get i

def normSquared (v : Vec α n) : α :=
  v.dot v

def norm (v : Vec α n) : α :=
  Scalar.sqrt v.normSquared

def normOne (v : Vec α n) : α :=
  Scalar.sum fun i : Fin n => Scalar.abs (v.get i)

def normMax (v : Vec α n) : α :=
  v.foldl (fun largest c => Scalar.maxNum largest (Scalar.abs c)) 0

/-- The square of the scaled norm: each component is multiplied by its scale first. -/
def scaledNormSquared (v d : Vec α n) : α :=
  Scalar.sum fun i : Fin n => (v.get i * d.get i) * (v.get i * d.get i)

/-- The Euclidean norm in the units given by the scales `d`. -/
def scaledNorm (v d : Vec α n) : α :=
  Scalar.sqrt (v.scaledNormSquared d)

end Vec

end RootFinder
