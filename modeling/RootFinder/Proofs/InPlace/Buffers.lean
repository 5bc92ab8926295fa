import RootFinder.LinearSolver

/-! Buffers of any length. A vector or a matrix says in its type how long it is; a buffer does not,
so that what is done with several of them is a fault unless their lengths agree. -/

namespace RootFinder

namespace InPlace

/-- What stops a program: buffers of different lengths, an index past the end, or bounds in the
wrong order. -/
inductive Fault
  | length
  | index
  | bounds
  deriving DecidableEq

variable {α β : Type} {n : Nat}

def asVec (n : Nat) (buffer : List α) : Except Fault (Vec α n) :=
  match Vec.ofList? n buffer with
  | some v => .ok v
  | none => .error .length

theorem asVec_toList (v : Vec α n) : asVec n v.toList = .ok v := by
  rw [asVec, Vec.ofList?_toList]

theorem exists_vec {buffer : List α} (h : buffer.length = n) : ∃ v : Vec α n, buffer = v.toList :=
  ⟨⟨buffer.toArray, by simpa using h⟩, by simp⟩

def alone (op : {k : Nat} → Vec α k → β) (v : List α) : Except Fault β := do
  let a ← asVec v.length v
  pure (op a)

def both (op : {k : Nat} → Vec α k → Vec α k → β) (v w : List α) : Except Fault β := do
  let a ← asVec v.length v
  let b ← asVec v.length w
  pure (op a b)

theorem alone_toList (op : {k : Nat} → Vec α k → β) (v : Vec α n) :
    alone op v.toList = .ok (op v) := by
  rw [alone, Vector.length_toList, asVec_toList]
  rfl

theorem both_toList (op : {k : Nat} → Vec α k → Vec α k → β) (v w : Vec α n) :
    both op v.toList w.toList = .ok (op v w) := by
  rw [both, Vector.length_toList, asVec_toList, asVec_toList]
  rfl

def copyFrom (target source : List α) : Except Fault (List α) :=
  both (fun _ w => w.toList) target source

theorem copyFrom_toList (v w : Vec α n) : copyFrom v.toList w.toList = .ok w.toList :=
  both_toList _ v w

def read (buffer : List α) (i : Nat) : Except Fault α :=
  match buffer[i]? with
  | some c => .ok c
  | none => .error .index

def write (buffer : List α) (i : Nat) (c : α) : Except Fault (List α) :=
  if i < buffer.length then .ok (buffer.set i c) else .error .index

theorem read_toList (v : Vec α n) (i : Fin n) : read v.toList i = .ok (v.get i) := by
  have h : v.toList[i.val]? = some (v.get i) := by
    rw [Vector.getElem?_toList]
    exact Vector.getElem?_eq_getElem i.isLt
  rw [read, h]

theorem write_toList (v : Vec α n) (i : Fin n) (c : α) :
    write v.toList i c = .ok (v.setAt i c).toList := by
  have hlength : i.val < v.toList.length := by
    rw [Vector.length_toList]
    exact i.isLt
  rw [write, if_pos hlength]
  refine congrArg Except.ok (List.ext_getElem ?_ fun k hk hk' => ?_)
  · rw [List.length_set, Vector.length_toList, Vector.length_toList]
  · have hkn : k < n := by
      rw [Vector.length_toList] at hk'
      exact hk'
    change _ = (v.setAt i c).get ⟨k, hkn⟩
    rw [List.getElem_set, Vec.setAt, Vec.get_ofFn]
    by_cases hik : i.val = k
    · rw [if_pos hik, if_pos (Fin.ext hik.symm)]
    · rw [if_neg hik, if_neg fun h => hik (congrArg Fin.val h).symm]
      rfl

theorem fill_toList (v : Vec α n) (c : α) :
    (v.toList.map fun _ => c) = (Vector.replicate n c).toList := by
  rw [List.map_const', Vector.length_toList, Vector.toList_replicate]

variable [Scalar α]

/-- Adds `a` times the second buffer to the first. -/
def addScaled (a : α) : List α → List α → Except Fault (List α) :=
  both fun v w => (Vec.addScaled v a w).toList

def scale (buffer : List α) (a : α) : List α :=
  buffer.map (· * a)

theorem addScaled_toList (a : α) (v w : Vec α n) :
    addScaled a v.toList w.toList = .ok (v.addScaled a w).toList :=
  both_toList _ v w

theorem scale_toList (v : Vec α n) (a : α) : scale v.toList a = (v.scale a).toList := by
  rw [Vec.scale, Vector.toList_map, scale]

def clamp (lo hi a : α) : Except Fault α :=
  if lo ≤ hi then .ok (Scalar.clamp lo hi a) else .error .bounds

structure Square (α : Type) where
  dim : Nat
  entries : Mat α dim

namespace Square

def zeros (n : Nat) : Square α :=
  ⟨n, Mat.zeros n⟩

omit [Scalar α] in
/-- A product with a buffer, put into another one. -/
def times (op : {k : Nat} → Mat α k → Vec α k → Vec α k) (a : Square α) (v out : List α) :
    Except Fault (List α) := do
  let u ← asVec a.dim v
  let _ ← asVec a.dim out
  pure (op a.entries u).toList

def setColumn (a : Square α) (j : Nat) (values : List α) : Except Fault (Square α) := do
  let v ← asVec a.dim values
  if h : j < a.dim then pure ⟨a.dim, a.entries.setColumn ⟨j, h⟩ v⟩ else throw .index

def addRankOne (a : Square α) (c : α) (u v : List α) : Except Fault (Square α) := do
  let u ← asVec a.dim u
  let v ← asVec a.dim v
  pure ⟨a.dim, a.entries.addRankOne c u v⟩

def columnNorms (a : Square α) : List α :=
  a.entries.columnNorms.toList

variable (a : Mat α n)

omit [Scalar α] in
theorem times_toList (op : {k : Nat} → Mat α k → Vec α k → Vec α k) (v out : Vec α n) :
    times op ⟨n, a⟩ v.toList out.toList = .ok (op a v).toList := by
  rw [times, asVec_toList, asVec_toList]
  rfl

omit [Scalar α] in
theorem setColumn_toList (j : Fin n) (v : Vec α n) :
    setColumn ⟨n, a⟩ j v.toList = .ok ⟨n, a.setColumn j v⟩ := by
  rw [setColumn, asVec_toList]
  exact dif_pos j.isLt

theorem addRankOne_toList (c : α) (u v : Vec α n) :
    addRankOne ⟨n, a⟩ c u.toList v.toList = .ok ⟨n, a.addRankOne c u v⟩ := by
  rw [addRankOne, asVec_toList, asVec_toList]
  rfl

end Square

structure Factors (α : Type) where
  tolerance : α
  factored : Option ((k : Nat) × Elimination α k)

namespace Factors

def factor [SingularValues α] (s : Factors α) (a : Square α) : Factors α × Option SolveError :=
  match LinearSolver.refusal? s.tolerance a.entries with
  | none => ({ s with factored := some ⟨a.dim, a.entries.eliminate⟩ }, none)
  | some r => ({ s with factored := none }, some r.error)

/-- Overwrites the right side with the solution, and tells whether there is one that is finite. -/
def solve (s : Factors α) (right : List α) : Except Fault (List α × Bool) :=
  match s.factored with
  | none => pure (right, false)
  | some ⟨k, e⟩ => do
    let b ← asVec k right
    pure ((e.solve b).toList, (e.solve b).isFinite)

end Factors

end InPlace

end RootFinder
