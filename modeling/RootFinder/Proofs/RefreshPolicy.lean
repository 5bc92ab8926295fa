import RootFinder.Proofs.History

/-! How long a Jacobian that carries updates is trusted. The count of rejections starts again in
three ways, of which only an accepted step leaves a Jacobian with updates behind. So as long as the
Jacobian carries updates the count is the number of rejections since the last accepted step, and a
rejection has it differenced anew when that number reaches the limit, or at once if an update was
left out. -/

namespace RootFinder

variable {σ α : Type} {n : Nat}

/-- How many trials were rejected since the last one that was accepted. -/
def rejectedInARow (ts : List (Trial α n)) : Nat :=
  (ts.takeWhile fun t => !t.accepted).length

theorem rejectedInARow_accepted {t : Trial α n} (ht : t.accepted = true)
    (ts : List (Trial α n)) : rejectedInARow (t :: ts) = 0 := by
  simp [rejectedInARow, ht]

theorem rejectedInARow_rejected {t : Trial α n} (ht : t.accepted = false)
    (ts : List (Trial α n)) : rejectedInARow (t :: ts) = rejectedInARow ts + 1 := by
  simp [rejectedInARow, ht]

variable [Scalar α]

namespace State

/-- What the trials since the start say where the Jacobian carries updates. -/
structure Trusted (c : Settings α) (s : State α n) (ts : List (Trial α n)) : Prop where
  taken : ∃ t ∈ ts, t.accepted = true
  rejections : s.rejections = rejectedInARow ts
  few : rejectedInARow ts < c.refreshLimit
  noneIfStale : s.jacobian.stale = true → rejectedInARow ts = 0

/-- A Jacobian that carries updates is one to be trusted. -/
def Trusts (c : Settings α) (s : State α n) (ts : List (Trial α n)) : Prop :=
  s.jacobian.fresh = false → Trusted c s ts

omit [Scalar α] in
theorem trusts_of_fresh {c : Settings α} {s : State α n} {ts : List (Trial α n)}
    (h : s.jacobian.fresh = true) : Trusts c s ts := by
  intro hupdated
  rw [h] at hupdated
  cases hupdated

omit [Scalar α] in
theorem Trusts.congr {c : Settings α} {s t : State α n} {ts : List (Trial α n)}
    (hs : Trusts c s ts) (hjacobian : t.jacobian = s.jacobian)
    (hrejections : t.rejections = s.rejections) : Trusts c t ts := by
  intro hupdated
  rw [hjacobian] at hupdated
  obtain ⟨htaken, hcount, hfew, hexact⟩ := hs hupdated
  exact ⟨htaken, hrejections.trans hcount, hfew, hjacobian ▸ hexact⟩

/-- A rejection calls for a differencing when it is the last one allowed, or when an update was
left out. -/
def RefreshCalled (c : Settings α) (p : Preparation α n) (t : Trial α n) (ts : List (Trial α n)) :
    Prop :=
  p.state.jacobian.fresh = false ∧
    (p.state.jacobian.stale = true ∨ rejectedInARow (t :: ts) = c.refreshLimit)

theorem Trusts.refreshed_iff {c : Settings α} {p : Preparation α n} {step : Step α n}
    {value : Vec α n} {ts : List (Trial α n)} (hp : Trusts c p.state ts)
    (ht : (p.trial c step value).accepted = false) :
    (p.trial c step value).refreshed = true ↔
      RefreshCalled c p (p.trial c step value) ts := by
  have hrefreshed : (p.trial c step value).refreshed = true ↔
      p.state.jacobian.fresh = false ∧
        (p.state.jacobian.stale = true ∨ c.refreshLimit ≤ p.state.rejections + 1) := by
    change (!(p.trial c step value).accepted &&
      p.state.jacobian.isOutdated (p.state.rejections + 1) c.refreshLimit) = true ↔ _
    simp [ht, Jacobian.isOutdated]
  rw [hrefreshed, RefreshCalled, rejectedInARow_rejected ht]
  refine and_congr_right fun hupdated => or_congr_right ?_
  -- The stored count is below the limit, so it reaches the limit only by becoming equal to it.
  have htrusted := hp hupdated
  have hfew := htrusted.few
  rw [htrusted.rejections]
  omega

/-- An accepted step starts the count again, and a rejected one that did not call for a differencing
was not the last one allowed. -/
theorem Trusts.commit {c : Settings α} (hc : c.Valid) {p : Preparation α n} {step : Step α n}
    {value : Vec α n} {ts : List (Trial α n)} (hp : Trusts c p.state ts)
    (ht : (p.trial c step value).refreshed = false) :
    Trusts c ((p.tested step).commit c (p.trial c step value)) (p.trial c step value :: ts) := by
  intro hupdated
  cases haccepted : (p.trial c step value).accepted with
  | true =>
    have hnone := rejectedInARow_accepted haccepted ts
    constructor
    · exact ⟨_, List.mem_cons_self, haccepted⟩
    · rw [commit_rejections, haccepted, hnone]
      rfl
    · rw [hnone]
      exact hc.refreshLimit_pos
    · exact fun _ => hnone
  | false =>
    rw [commit_jacobian, haccepted] at hupdated
    have htrusted := hp hupdated
    have hcalled := (hp.refreshed_iff haccepted).not.mp (by simp [ht])
    have hone := rejectedInARow_rejected haccepted ts
    obtain ⟨t, hmem, htaken⟩ := htrusted.taken
    constructor
    · exact ⟨t, List.mem_cons_of_mem _ hmem, htaken⟩
    · rw [commit_rejections, haccepted, ht, hone, ← htrusted.rejections]
      rfl
    · have hfew := htrusted.few
      have hnot : rejectedInARow (p.trial c step value :: ts) ≠ c.refreshLimit :=
        fun hlast => hcalled ⟨hupdated, .inr hlast⟩
      omega
    · intro hstale
      rw [commit_jacobian, haccepted] at hstale
      exact absurd ⟨hupdated, .inl hstale⟩ hcalled

section

variable {sys : Equations (StateM σ) α n} {c : Settings α} {s : State α n} {w w' : σ}
  {a : Attempt α n} {ts : List (Trial α n)}

theorem Trusts.tryStep (hc : c.Valid) {p : Preparation α n} {step : Step α n}
    (hp : Trusts c p.state ts) (h : (tryStep sys c p step).run w = (a, w')) :
    Trusts c a.state (a.trials ++ ts) := by
  cases tryStep_tries h with
  | failed => exact hp.congr rfl rfl
  | unrefreshed => exact hp.congr rfl rfl
  | judged _ hr => exact hp.commit hc hr
  | refreshed _ hr hf =>
    refine trusts_of_fresh ?_
    rw [commit_jacobian, not_accepted_of_refreshed hr]
    exact refresh_fresh hf

variable [SingularValues α]

theorem Trusts.prepare {p : Preparation α n} (hs : Trusts c s ts)
    (h : (s.prepare sys c).run w = (.ok p, w')) : Trusts c p.state ts := by
  cases prepare_prepares h with
  | asIs => exact hs
  | anew _ hr => exact trusts_of_fresh (refresh_fresh hr)

theorem Trusts.iterate (hc : c.Valid) (hs : Trusts c s ts)
    (h : (s.iterate sys c).run w = (a, w')) : Trusts c a.state (a.trials ++ ts) := by
  cases iterate_iterates h with
  | ended => exact hs
  | exhausted => exact hs.congr rfl rfl
  | atRoot => exact hs.congr rfl rfl
  | unprepared => exact hs
  | undetermined _ hp => exact hs.prepare hp
  | singular _ hp => exact (hs.prepare hp).congr rfl rfl
  | tried _ hp _ _ ht => exact (hs.prepare hp).tryStep hc ht

end

end State

end RootFinder
