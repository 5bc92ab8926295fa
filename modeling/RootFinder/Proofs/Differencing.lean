import RootFinder.Proofs.Purity

/-! What a differencing leaves. When no call fails, every column is the slope to its neighbour, so
nothing of the matrix before is left; a pure system gives the same matrix each time. -/

namespace RootFinder

variable {σ α : Type} [Scalar α] {n : Nat} {sys : Equations (StateM σ) α n} {relative : α}
  {x f : Vec α n}

namespace Jacobian

theorem differenceColumns_eq_ok {js : List (Fin n)} {a b : Mat α n} {count : Nat} {w w' : σ}
    (h : (differenceColumns sys relative x f js a).run w = ((b, count, none), w')) :
    count = js.length ∧
      (∀ j ∈ js, ∃ g v v', (sys (neighbour relative x j)).run v = (.ok g, v') ∧
        b.column j = slopes (increment relative (x.get j)) f g) ∧
      ∀ j, j ∉ js → b.column j = a.column j := by
  induction js generalizing a count w with
  | nil =>
    cases h
    exact ⟨rfl, by simp, fun _ _ => rfl⟩
  | cons j js ih =>
    obtain ⟨answer, v, hcall⟩ := exists_run (sys (neighbour relative x j)) w
    rw [differenceColumns, run_bind_of_eq hcall] at h
    cases answer with
    | error e => cases h
    | ok g =>
      obtain ⟨⟨b', count', failure⟩, v', hrest⟩ := exists_run (differenceColumns sys relative x f js
        (a.setColumn j (slopes (increment relative (x.get j)) f g))) v
      change (differenceColumns sys relative x f js _ >>= _).run v = _ at h
      rw [run_bind_of_eq hrest] at h
      cases h
      obtain ⟨hcount, hset, hkept⟩ := ih hrest
      refine ⟨by rw [hcount, List.length_cons], ?_, ?_⟩
      · intro k hk
        by_cases hlater : k ∈ js
        · exact hset k hlater
        · have hkj : k = j := by simpa [hlater] using hk
          subst hkj
          exact ⟨g, w, v, hcall, (hkept k hlater).trans (a.column_setColumn_self k _)⟩
      · intro k hk
        have hne : k ≠ j := fun he => hk (he ▸ List.mem_cons_self)
        have hlater : k ∉ js := fun hmem => hk (List.mem_cons_of_mem j hmem)
        exact (hkept k hlater).trans (a.column_setColumn_of_ne hne _)

theorem differenceColumns_succeeds {F : Vec α n → Except EvalError (Vec α n)} (hsys : sys.IsPure F)
    {js : List (Fin n)} (h : ∀ j ∈ js, ∃ g, F (neighbour relative x j) = .ok g) (a : Mat α n)
    (w : σ) :
    ∃ b w', (differenceColumns sys relative x f js a).run w = ((b, js.length, none), w') := by
  induction js generalizing a w with
  | nil => exact ⟨a, w, rfl⟩
  | cons j js ih =>
    obtain ⟨g, hg⟩ := h j List.mem_cons_self
    obtain ⟨v, hcall⟩ := hsys.run hg w
    obtain ⟨b, w', hrest⟩ := ih (fun k hk => h k (List.mem_cons_of_mem j hk))
      (a.setColumn j (slopes (increment relative (x.get j)) f g)) v
    refine ⟨b, w', ?_⟩
    rw [differenceColumns, run_bind_of_eq hcall]
    change (differenceColumns sys relative x f js _ >>= _).run v = _
    rw [run_bind_of_eq hrest]
    rfl

/-- A pure system that answers at all neighbours can be differenced, and each column is the slope
to its neighbour. -/
theorem difference_succeeds {F : Vec α n → Except EvalError (Vec α n)} (hsys : sys.IsPure F)
    (h : ∀ j, ∃ g, F (neighbour relative x j) = .ok g) (jac : Jacobian α n) (w : σ) :
    ∃ a w', (jac.difference sys relative x f).run w = (⟨⟨a, true, false⟩, n, none⟩, w') ∧
      ∀ j g, F (neighbour relative x j) = .ok g →
        a.column j = slopes (increment relative (x.get j)) f g := by
  obtain ⟨a, w', hrun⟩ := differenceColumns_succeeds (f := f) hsys
    (fun j (_ : j ∈ List.finRange n) => h j) jac.matrix w
  obtain ⟨-, hset, -⟩ := differenceColumns_eq_ok hrun
  rw [List.length_finRange] at hrun
  refine ⟨a, w', ?_, ?_⟩
  · rw [difference, run_bind_of_eq hrun]
    rfl
  · intro j g hg
    obtain ⟨g', v, v', hcall, hcolumn⟩ := hset j (List.mem_finRange j)
    have hsame := hsys.of_run hcall
    rw [hg] at hsame
    cases hsame
    exact hcolumn

end Jacobian

/-- Differencing at `x`, where the residuals are `f`, gives the matrix `a`, whatever it starts
from. -/
def Equations.Differences (sys : Equations (StateM σ) α n) (relative : α) (x f : Vec α n)
    (a : Mat α n) : Prop :=
  ∀ (jac : Jacobian α n) (w : σ),
    ((jac.difference sys relative x f).run w).1 = ⟨⟨a, true, false⟩, n, none⟩

/-- A pure system that could be differenced once is differenced to the same matrix each time. -/
theorem Equations.IsPure.differences {F : Vec α n → Except EvalError (Vec α n)}
    (hsys : sys.IsPure F) {jac : Jacobian α n} {w w' : σ} {d : Differencing α n}
    (h : (jac.difference sys relative x f).run w = (d, w')) (hf : d.failure = none) :
    sys.Differences relative x f d.jacobian.matrix := by
  obtain ⟨a, count, rfl, hcolumns⟩ := Jacobian.difference_eq_ok h hf
  obtain ⟨-, hset, -⟩ := Jacobian.differenceColumns_eq_ok hcolumns
  have hanswers (j : Fin n) : ∃ g, F (Jacobian.neighbour relative x j) = .ok g ∧
      a.column j = Jacobian.slopes (Jacobian.increment relative (x.get j)) f g := by
    obtain ⟨g, u, u', hcall, hcolumn⟩ := hset j (List.mem_finRange j)
    exact ⟨g, hsys.of_run hcall, hcolumn⟩
  intro jac' v
  obtain ⟨b, v', hagain, hset'⟩ := Jacobian.difference_succeeds (f := f) hsys
    (fun j => (hanswers j).imp fun _ hg => hg.1) jac' v
  have hsame : b = a := by
    refine Mat.ext_column fun j => ?_
    obtain ⟨g, hg, hcolumn⟩ := hanswers j
    rw [hcolumn, hset' j g hg]
  rw [hagain, hsame]

/-- A run of a pure system starts where all that it asks for is answered. -/
theorem State.start_succeeds {F : Vec α n → Except EvalError (Vec α n)} (hsys : sys.IsPure F)
    {c : Settings α} (hx : F x = .ok f) (hf : f.isFinite = true)
    (h : ∀ j, ∃ g, F (Jacobian.neighbour c.differenceStep x j) = .ok g) (w : σ) :
    ∃ a w', (start sys c x.toList).run w =
        (.ok (initial c x f ⟨⟨a, true, false⟩, n, none⟩), w') ∧
      ∀ j g, F (Jacobian.neighbour c.differenceStep x j) = .ok g →
        a.column j = Jacobian.slopes (Jacobian.increment c.differenceStep (x.get j)) f g := by
  obtain ⟨v, hcall⟩ := hsys.run hx w
  obtain ⟨a, w', hrun, hcolumns⟩ := Jacobian.difference_succeeds (f := f) hsys h
    (Jacobian.unknown n) v
  refine ⟨a, w', ?_, hcolumns⟩
  rw [start]
  simp only [Vec.ofList?_toList]
  rw [run_bind_of_eq hcall]
  simp only [Vec.firstNonFinite?_eq_none_iff.mpr hf]
  rw [run_bind_of_eq hrun]
  rfl

end RootFinder
