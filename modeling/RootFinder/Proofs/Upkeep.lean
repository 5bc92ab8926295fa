import RootFinder.Proofs.Freshness

/-! The upkeep of a Jacobian. What was done to it since it was last differenced decides whether it
is outdated: an update must have been carried out, and another one left out unless the rejections
suffice. Where every update was left out the Jacobian counts as fresh, and none of them has it
differenced anew. -/

namespace RootFinder

/-- What is done to keep a Jacobian up to date. -/
inductive Care
  | differenced (failure : Option EvalError)
  | updated (carriedOut : Bool)
  deriving DecidableEq

def Care.isAnew (care : Care) : Bool :=
  decide (care = .differenced none)

/-- The part of a history, the latest first, that comes after the last successful differencing. -/
def sinceAnew (cares : List Care) : List Care :=
  cares.takeWhile fun care => !care.isAnew

theorem sinceAnew_anew (cares : List Care) : sinceAnew (.differenced none :: cares) = [] := by
  simp [sinceAnew, Care.isAnew]

theorem sinceAnew_cons {care : Care} (h : care ≠ .differenced none) (cares : List Care) :
    sinceAnew (care :: cares) = care :: sinceAnew cares := by
  simp [sinceAnew, Care.isAnew, h]

/-- When the Jacobian with this history ought to be differenced anew: it was updated since, and an
update was left out or the rejections suffice. -/
def RefreshDue (cares : List Care) (rejections limit : Nat) : Prop :=
  (∃ carriedOut, .updated carriedOut ∈ sinceAnew cares) ∧
    (.updated false ∈ sinceAnew cares ∨ limit ≤ rejections)

namespace Jacobian

variable {σ α : Type} [Scalar α] {n : Nat}

/-- A Jacobian and what was done to it from a first successful differencing on, the latest first.
The matrix may be replaced in between. -/
inductive Kept (σ : Type) : Jacobian α n → List Care → Prop
  | first {sys : Equations (StateM σ) α n} {relative : α} {jac : Jacobian α n} {x f : Vec α n}
      {w w' : σ} {d : Differencing α n}
      (h : (jac.difference sys relative x f).run w = (d, w')) (hd : d.failure = none) :
      Kept σ d.jacobian [.differenced none]
  | differenced {sys : Equations (StateM σ) α n} {relative : α} {jac : Jacobian α n}
      {cares : List Care} {x f : Vec α n} {w w' : σ} {d : Differencing α n}
      (hjac : Kept σ jac cares) (h : (jac.difference sys relative x f).run w = (d, w')) :
      Kept σ d.jacobian (.differenced d.failure :: cares)
  | updated {jac : Jacobian α n} {cares : List Care} (hjac : Kept σ jac cares)
      (step df : Vec α n) :
      Kept σ (jac.update step df) (.updated (!isNegligible step) :: cares)
  | replaced {jac : Jacobian α n} {cares : List Care} (hjac : Kept σ jac cares)
      (matrix : Mat α n) : Kept σ { jac with matrix } cares

/-- What the two marks of a Jacobian say about its history. -/
structure Marked (jac : Jacobian α n) (cares : List Care) : Prop where
  fresh : jac.fresh = false ↔ .updated true ∈ sinceAnew cares
  stale : jac.stale = true ↔ .updated false ∈ sinceAnew cares

theorem difference_keeps_marks {sys : Equations (StateM σ) α n} {relative : α}
    {jac : Jacobian α n} {x f : Vec α n} {w w' : σ} {d : Differencing α n} {e : EvalError}
    (h : (jac.difference sys relative x f).run w = (d, w')) (hd : d.failure = some e) :
    d.jacobian.fresh = jac.fresh ∧ d.jacobian.stale = jac.stale := by
  obtain ⟨⟨a, count, failure⟩, v, hcolumns⟩ :=
    exists_run (differenceColumns sys relative x f (List.finRange n) jac.matrix) w
  rw [difference, run_bind_of_eq hcolumns] at h
  cases failure with
  | none =>
    cases h
    cases hd
  | some e' =>
    cases h
    exact ⟨rfl, rfl⟩

theorem marked_of_difference {sys : Equations (StateM σ) α n} {relative : α}
    {jac : Jacobian α n} {x f : Vec α n} {w w' : σ} {d : Differencing α n}
    (h : (jac.difference sys relative x f).run w = (d, w')) (hd : d.failure = none)
    (cares : List Care) : Marked d.jacobian (.differenced none :: cares) := by
  obtain ⟨a, count, rfl, -⟩ := difference_eq_ok h hd
  constructor <;> simp [sinceAnew_anew]

theorem Marked.updated {jac : Jacobian α n} {cares : List Care} (h : Marked jac cares)
    (step df : Vec α n) :
    Marked (jac.update step df) (.updated (!isNegligible step) :: cares) := by
  unfold update
  cases hstep : isNegligible step with
  | true =>
    constructor
    · simpa [sinceAnew_cons] using h.fresh
    · simp [sinceAnew_cons]
  | false =>
    constructor
    · simp [sinceAnew_cons]
    · simpa [sinceAnew_cons] using h.stale

theorem Kept.marked {jac : Jacobian α n} {cares : List Care} (h : Kept σ jac cares) :
    Marked jac cares := by
  induction h with
  | first h hd => exact marked_of_difference h hd []
  | @differenced _ _ _ cares _ _ _ _ d _ h ih =>
    cases hd : d.failure with
    | none => exact marked_of_difference h hd cares
    | some e =>
      obtain ⟨hfresh, hstale⟩ := difference_keeps_marks h hd
      constructor
      · simpa [sinceAnew_cons, hfresh] using ih.fresh
      · simpa [sinceAnew_cons, hstale] using ih.stale
  | updated _ step df ih => exact ih.updated step df
  | replaced _ _ ih => exact ⟨ih.fresh, ih.stale⟩

omit [Scalar α] in
theorem Marked.isOutdated_iff {jac : Jacobian α n} {cares : List Care} (h : Marked jac cares)
    (rejections limit : Nat) :
    jac.isOutdated rejections limit = true ↔ .updated true ∈ sinceAnew cares ∧
      (.updated false ∈ sinceAnew cares ∨ limit ≤ rejections) := by
  rw [← h.fresh, ← h.stale]
  simp [isOutdated]

/-- A Jacobian is outdated exactly if an update was carried out since it was differenced, and another
one was left out or the rejections suffice. This is what is due unless every update was left out.
Differencing that fails changes nothing. -/
theorem Kept.outdated_by_history {jac : Jacobian α n} {cares : List Care} (h : Kept σ jac cares) :
    (∀ rejections limit, jac.isOutdated rejections limit = true ↔
      .updated true ∈ sinceAnew cares ∧
        (.updated false ∈ sinceAnew cares ∨ limit ≤ rejections)) ∧
    ((∀ rejections limit, jac.isOutdated rejections limit = true ↔
        RefreshDue cares rejections limit) ↔
      (.updated false ∈ sinceAnew cares → .updated true ∈ sinceAnew cares)) ∧
    ∀ (sys : Equations (StateM σ) α n) relative x f w d w' e,
      (jac.difference sys relative x f).run w = (d, w') → d.failure = some e →
      ∀ rejections limit, d.jacobian.isOutdated rejections limit =
        jac.isOutdated rejections limit := by
  have hlaw := h.marked.isOutdated_iff
  refine ⟨hlaw, ⟨?_, ?_⟩, ?_⟩
  · intro hdue hleft
    exact ((hlaw 0 0).mp ((hdue 0 0).mpr ⟨⟨false, hleft⟩, .inl hleft⟩)).1
  · intro hcarried rejections limit
    rw [hlaw, RefreshDue]
    refine and_congr_left fun _ => ⟨fun hupdated => ⟨true, hupdated⟩, ?_⟩
    rintro ⟨_ | _, hupdated⟩
    · exact hcarried hupdated
    · exact hupdated
  · intro sys relative x f w d w' e hrun hd rejections limit
    obtain ⟨hfresh, hstale⟩ := difference_keeps_marks hrun hd
    simp only [isOutdated, hfresh, hstale]

/-- One update is carried out, the next one is left out, and the differencing after them fails:
no rejection is needed. -/
theorem Kept.outdated_by_history_reciprocal :
    ∃ (jac : Jacobian Float 1) (e : EvalError), jac.Kept Nat
      [.differenced (some e), .updated false, .updated true, .differenced none] ∧
      jac.isOutdated 0 1 = true := by
  let sys := interrupted [2] reciprocal
  let one : Vec Float 1 := Vec.ones 1
  let nought : Vec Float 1 := Vec.zeros 1
  obtain ⟨d, v, hfirst⟩ := exists_run ((unknown 1).difference sys 0.5 one one) 0
  obtain ⟨d', v', hlast⟩ := exists_run
    (((d.jacobian.update one one).update nought one).difference sys 0.5 one one) v
  have hdone : (((unknown 1).difference sys 0.5 one one).run 0).1.failure = none := by
    decide +kernel
  have hfails : ((fun r : Differencing Float 1 × Nat =>
      ((r.1.jacobian.update one one).update nought one).difference sys 0.5 one one |>.run r.2)
      (((unknown 1).difference sys 0.5 one one).run 0)).1.failure.isSome = true := by
    decide +kernel
  have hcarried : isNegligible one = false := by decide +kernel
  have hleft : isNegligible nought = true := by decide +kernel
  rw [hfirst] at hdone hfails
  simp only [hlast] at hfails
  obtain ⟨e, he⟩ := Option.isSome_iff_exists.mp hfails
  have hkept := (((Kept.first hfirst hdone).updated one one).updated nought one).differenced hlast
  rw [hcarried, hleft, he] at hkept
  refine ⟨d'.jacobian, e, hkept, (hkept.outdated_by_history.1 0 1).mpr ?_⟩
  simp [sinceAnew, Care.isAnew]

/-- The only update since the differencing is left out, and no number of rejections makes the
Jacobian outdated. -/
theorem left_out_update_forgotten :
    ∃ jac : Jacobian Float 2, jac.Kept Nat [.updated false, .differenced none] ∧
      ∀ rejections limit, RefreshDue [.updated false, .differenced none] rejections limit ∧
        jac.isOutdated rejections limit = false := by
  let sys := interrupted [] drifting
  let x : Vec Float 2 := Vector.mk #[1e-156, 0] rfl
  let step : Vec Float 2 := Vector.mk #[-1e-156, 0] rfl
  let df : Vec Float 2 := Vector.mk #[-1.25e-156, 0] rfl
  obtain ⟨d, v, hd⟩ := exists_run ((unknown 2).difference sys Settings.defaultDifferenceStep x x) 0
  have hdone : (((unknown 2).difference sys Settings.defaultDifferenceStep x x).run
      0).1.failure = none := by decide +kernel
  have hleft : isNegligible step = true := by decide +kernel
  rw [hd] at hdone
  have hkept := (Kept.first hd hdone).updated step df
  rw [hleft] at hkept
  refine ⟨d.jacobian.update step df, hkept, fun rejections limit => ⟨?_, ?_⟩⟩
  · simp [RefreshDue, sinceAnew, Care.isAnew]
  · rw [← Bool.not_eq_true, hkept.marked.isOutdated_iff]
    simp [sinceAnew, Care.isAnew]

end Jacobian

end RootFinder
