import RootFinder.Proofs.Arithmetic
import RootFinder.Proofs.Storage

/-! Doubles have the laws of arithmetic. -/

namespace RootFinder

namespace Double

open Float.Model Float.Model.UnpackedFloat

/-- Orders all values that are not undefined: by sign and size, then exponent, then
significand. -/
def rank : UnpackedFloat → ℤ ×ₗ ℤ ×ₗ ℤ
  | .infinity .negative => toLex (-2, toLex (0, 0))
  | .finite .negative m e _ => toLex (-1, toLex (-e, -m))
  | .zero _ | .notANumber => toLex (0, toLex (0, 0))
  | .finite .positive m e _ => toLex (1, toLex (e, m))
  | .infinity .positive => toLex (2, toLex (0, 0))

theorem toLex_le_iff {a b c a' b' c' : ℤ} :
    toLex (a, toLex (b, c)) ≤ toLex (a', toLex (b', c')) ↔
      a < a' ∨ a = a' ∧ (b < b' ∨ b = b' ∧ c ≤ c') := by
  rw [Prod.Lex.toLex_le_toLex, Prod.Lex.toLex_le_toLex]

theorem compare_then_isLE_iff (d e : ℤ) (m k : ℕ) :
    ((compare d e).then (compare m k)).isLE = true ↔ d < e ∨ d = e ∧ m ≤ k := by
  rw [Ordering.isLE_then_iff_or, Std.isLE_compare]
  simp [compare_lt_iff_lt]

theorem le_iff_rank {u v : UnpackedFloat} (hu : u.isNaN = false) (hv : v.isNaN = false) :
    u.le v = true ↔ rank u ≤ rank v := by
  rw [UnpackedFloat.le]
  cases u with
  | notANumber => cases hu
  | infinity s =>
    cases s <;> cases v with
    | notANumber => cases hv
    | infinity t => cases t <;> decide
    | zero t => cases t <;> decide
    | finite t => cases t <;> simp [UnpackedFloat.compare, rank, toLex_le_iff]
  | zero s =>
    cases v with
    | notANumber => cases hv
    | infinity t => cases t <;> simp [UnpackedFloat.compare, rank, toLex_le_iff]
    | zero t => simp [UnpackedFloat.compare, rank]
    | finite t => cases t <;> simp [UnpackedFloat.compare, rank, toLex_le_iff]
  | finite s m e =>
    cases v with
    | notANumber => cases hv
    | infinity t =>
      cases s <;> cases t <;> simp [UnpackedFloat.compare, rank, toLex_le_iff]
    | zero t => cases s <;> simp [UnpackedFloat.compare, rank, toLex_le_iff]
    | finite t k d =>
      cases s with
      | negative =>
        cases t with
        | negative =>
          have h := compare_then_isLE_iff d e k m
          rw [compare_magnitude_swap] at h
          simp only [UnpackedFloat.compare, rank, toLex_le_iff, lt_self_iff_false, true_and,
            false_or]
          rw [Option.any_some, h]
          omega
        | positive => simp [UnpackedFloat.compare, rank, toLex_le_iff]
      | positive =>
        cases t with
        | negative => simp [UnpackedFloat.compare, rank, toLex_le_iff]
        | positive =>
          simp only [UnpackedFloat.compare, rank, toLex_le_iff, lt_self_iff_false, true_and,
            false_or]
          rw [Option.any_some, compare_then_isLE_iff]
          omega

theorem isNaN_of_le {u v : UnpackedFloat} (h : u.le v = true) :
    u.isNaN = false ∧ v.isNaN = false := by
  rw [UnpackedFloat.le] at h
  cases u with
  | notANumber => cases v <;> cases h
  | infinity s =>
    cases v with
    | notANumber => cases s <;> cases h
    | _ => exact ⟨rfl, rfl⟩
  | zero =>
    cases v with
    | notANumber => cases h
    | _ => exact ⟨rfl, rfl⟩
  | finite s =>
    cases v with
    | notANumber => cases s <;> cases h
    | _ => exact ⟨rfl, rfl⟩

@[simp]
theorem isNaN_stored (u : UnpackedFloat) : (stored u).isNaN = u.isNaN := by
  cases u with
  | notANumber => rfl
  | infinity s => exact HasSign.infinity.stored.isNaN
  | zero s => exact HasSign.zero.stored.isNaN
  | finite s m e h => exact HasSign.finite.stored.isNaN

theorem isFinite_of_stored {u : UnpackedFloat} (h : (stored u).isFinite = true) :
    u.isFinite = true := by
  cases u with
  | notANumber => cases h
  | infinity s =>
    rw [stored_infinity] at h
    cases h
  | zero => rfl
  | finite => rfl

theorem hasSign_roundWithAccuracy (s : Sign) (m : ℕ) (e : ℤ) (accuracy : Accuracy) :
    HasSign s (roundWithAccuracy .binary64 s m e accuracy) := by
  simp only [roundWithAccuracy]
  split
  · exact .zero
  · exact .finite

theorem hasSign_mul {s t : Sign} {u v : UnpackedFloat} (hu : HasSign s u) (hv : HasSign t v)
    (h : (UnpackedFloat.mul .binary64 u v).isNaN = false) :
    HasSign (s * t) (UnpackedFloat.mul .binary64 u v) := by
  cases hu with
  | infinity =>
    cases hv with
    | zero => cases h
    | _ => exact .infinity
  | zero =>
    cases hv with
    | infinity => cases h
    | _ => exact .zero
  | finite =>
    cases hv with
    | infinity => exact .infinity
    | zero => exact .zero
    | finite => exact hasSign_roundWithAccuracy _ _ _ _

theorem exists_hasSign {u : UnpackedFloat} (h : u.isNaN = false) : ∃ s, HasSign s u := by
  cases u with
  | notANumber => cases h
  | infinity s => exact ⟨s, .infinity⟩
  | zero s => exact ⟨s, .zero⟩
  | finite s => exact ⟨s, .finite⟩

/-- The values that are not below zero; negative zero is among them. -/
def IsNonNegative (u : UnpackedFloat) : Prop :=
  HasSign .positive u ∨ u = .zero .negative

theorem isNonNegative_iff {u : UnpackedFloat} :
    IsNonNegative u ↔ UnpackedFloat.le (.zero .positive) u = true := by
  constructor
  · rintro (h | rfl)
    · cases h <;> rfl
    · rfl
  · intro h
    cases u with
    | notANumber => cases h
    | infinity s =>
      cases s with
      | negative => cases h
      | positive => exact .inl .infinity
    | zero s =>
      cases s with
      | negative => exact .inr rfl
      | positive => exact .inl .zero
    | finite s =>
      cases s with
      | negative => cases h
      | positive => exact .inl .finite

theorem IsNonNegative.stored {u : UnpackedFloat} (h : IsNonNegative u) :
    IsNonNegative (stored u) := by
  rcases h with h | rfl
  · exact .inl h.stored
  · exact .inr (stored_zero _)

theorem isNonNegative_mul_self {u : UnpackedFloat} (h : u.isNaN = false) :
    IsNonNegative (UnpackedFloat.mul .binary64 u u) := by
  obtain ⟨s, hs⟩ := exists_hasSign h
  have hdefined : (UnpackedFloat.mul .binary64 u u).isNaN = false := by
    cases hs with
    | finite => exact (hasSign_roundWithAccuracy _ _ _ _).isNaN
    | _ => rfl
  have hpositive : s * s = .positive := by cases s <;> rfl
  exact .inl (hpositive ▸ hasSign_mul hs hs hdefined)

theorem isNonNegative_normalize {m : ℤ} (hm : 0 ≤ m) (e : ℤ) :
    IsNonNegative (normalize .binary64 m e .positive) := by
  unfold UnpackedFloat.normalize
  split
  · next h => exact absurd (compare_lt_iff_lt.mp h) (by omega)
  · exact .inl .zero
  · exact .inl (hasSign_roundWithAccuracy _ _ _ _)

theorem isNonNegative_add {u v : UnpackedFloat} (hu : IsNonNegative u) (hv : IsNonNegative v) :
    IsNonNegative (UnpackedFloat.add .binary64 u v) := by
  rcases hu with hu | rfl
  · rcases hv with hv | rfl
    · cases hu with
      | infinity => cases hv <;> exact .inl .infinity
      | zero => cases hv <;> exact .inl (by constructor)
      | finite =>
        cases hv with
        | infinity => exact .inl .infinity
        | zero => exact .inl .finite
        | finite =>
          refine isNonNegative_normalize ?_ _
          exact Int.add_nonneg (Int.natCast_nonneg _) (Int.natCast_nonneg _)
    · cases hu <;> exact .inl (by constructor)
  · rcases hv with hv | rfl
    · cases hv <;> exact .inl (by constructor)
    · exact .inr rfl

theorem isNonNegative_sqrt {u : UnpackedFloat} (h : IsNonNegative u) :
    IsNonNegative (UnpackedFloat.sqrt .binary64 u) := by
  rcases h with h | rfl
  · cases h with
    | infinity => exact .inl .infinity
    | zero => exact .inl .zero
    | finite => exact .inl (hasSign_roundWithAccuracy _ _ _ _)
  · exact .inr rfl

theorem isFinite_of_add {u v : UnpackedFloat}
    (h : (UnpackedFloat.add .binary64 u v).isFinite = true) :
    u.isFinite = true ∧ v.isFinite = true := by
  cases u with
  | notANumber => cases h
  | infinity s =>
    cases v with
    | infinity t => cases s <;> cases t <;> cases h
    | _ => cases h
  | zero => cases v <;> first | exact ⟨rfl, rfl⟩ | cases h
  | finite => cases v <;> first | exact ⟨rfl, rfl⟩ | cases h

theorem isNaN_of_add {u v : UnpackedFloat} (h : (UnpackedFloat.add .binary64 u v).isNaN = false) :
    u.isNaN = false ∧ v.isNaN = false := by
  cases u <;> cases v <;> first | exact ⟨rfl, rfl⟩ | cases h

theorem isNaN_of_sub {u v : UnpackedFloat} (h : (UnpackedFloat.sub .binary64 u v).isNaN = false) :
    u.isNaN = false ∧ v.isNaN = false := by
  cases u <;> cases v <;> first | exact ⟨rfl, rfl⟩ | cases h

theorem isNaN_normalize (m : ℤ) (e : ℤ) (s : Sign) :
    (normalize .binary64 m e s).isNaN = false := by
  unfold UnpackedFloat.normalize
  split
  · exact (hasSign_roundWithAccuracy _ _ _ _).isNaN
  · rfl
  · exact (hasSign_roundWithAccuracy _ _ _ _).isNaN

theorem isNaN_sub {u v : UnpackedFloat} (hu : u.isFinite = true) (hv : v.isNaN = false) :
    (UnpackedFloat.sub .binary64 u v).isNaN = false := by
  cases u with
  | notANumber => cases hu
  | infinity => cases hu
  | zero s =>
    cases v with
    | notANumber => cases hv
    | zero t => cases s <;> cases t <;> rfl
    | _ => rfl
  | finite =>
    cases v with
    | notANumber => cases hv
    | finite => exact isNaN_normalize _ _ _
    | _ => rfl

def IsZero (u : UnpackedFloat) : Prop :=
  ∃ s, u = .zero s

theorem IsZero.stored {u : UnpackedFloat} (h : IsZero u) : IsZero (stored u) := by
  obtain ⟨s, rfl⟩ := h
  exact ⟨s, stored_zero s⟩

theorem isFinite_of_mul {u v : UnpackedFloat}
    (h : (UnpackedFloat.mul .binary64 u v).isFinite = true) :
    u.isFinite = true ∧ v.isFinite = true := by
  cases u <;> cases v <;> first | exact ⟨rfl, rfl⟩ | cases h

theorem isNaN_iff {u : UnpackedFloat} : u.isNaN = true ↔ u = .notANumber := by
  cases u <;> simp [UnpackedFloat.isNaN]

theorem roundWithAccuracy_ne (s : Sign) (m : ℕ) (e : ℤ) (accuracy : Accuracy) :
    roundWithAccuracy .binary64 s m e accuracy ≠ .notANumber := by
  intro h
  have hsign := hasSign_roundWithAccuracy s m e accuracy
  rw [h] at hsign
  cases hsign

theorem isNaN_mul_iff {u v : UnpackedFloat} :
    (UnpackedFloat.mul .binary64 u v).isNaN = true ↔ u.isNaN = true ∨ v.isNaN = true ∨
      IsZero u ∧ v.isFinite = false ∨ u.isFinite = false ∧ IsZero v := by
  simp only [isNaN_iff]
  cases u <;> cases v <;>
    simp [UnpackedFloat.mul, UnpackedFloat.isFinite, IsZero, roundWithAccuracy_ne]

theorem isNaN_of_div {u v : UnpackedFloat} (h : (UnpackedFloat.div .binary64 u v).isNaN = false) :
    u.isNaN = false ∧ v.isNaN = false := by
  cases u <;> cases v <;> first | exact ⟨rfl, rfl⟩ | cases h

theorem isNaN_div {u v : UnpackedFloat} (h : (UnpackedFloat.div .binary64 u v).isNaN = true) :
    u.isNaN = true ∨ v.isNaN = true ∨
      IsZero u ∧ IsZero v ∨ u.isFinite = false ∧ v.isFinite = false := by
  rw [isNaN_iff] at h
  cases u <;> cases v <;>
    simp_all [UnpackedFloat.div, UnpackedFloat.isNaN, UnpackedFloat.isFinite, IsZero,
      roundWithAccuracy_ne]

theorem isZero_mul {u v : UnpackedFloat} (hu : u.isFinite = true) (hv : IsZero v) :
    IsZero (UnpackedFloat.mul .binary64 u v) := by
  obtain ⟨t, rfl⟩ := hv
  cases u with
  | notANumber => cases hu
  | infinity => cases hu
  | zero s => exact ⟨s * t, rfl⟩
  | finite s => exact ⟨s * t, rfl⟩

theorem compare_then_eq_iff {d e : ℤ} {m k : ℕ} :
    (compare d e).then (compare m k) = .eq ↔ d = e ∧ m = k := by
  rw [Ordering.then_eq_eq, compare_eq_iff_eq, compare_eq_iff_eq]

/-- Equal doubles are the same but for the sign of zero. -/
theorem eq_of_compare_eq {u v : UnpackedFloat} (h : u.compare v = some .eq) :
    u = v ∨ IsZero u ∧ IsZero v := by
  cases u with
  | notANumber => cases v <;> cases h
  | infinity s => cases v with
    | infinity t => cases s <;> cases t <;> first | exact .inl rfl | cases h
    | _ => cases s <;> cases h
  | zero s => cases v with
    | notANumber => cases h
    | infinity t => cases t <;> cases h
    | zero t => exact .inr ⟨⟨s, rfl⟩, ⟨t, rfl⟩⟩
    | finite t => cases t <;> cases h
  | finite s m e => cases v with
    | notANumber => cases s <;> cases h
    | infinity t => cases s <;> cases t <;> cases h
    | zero => cases s <;> cases h
    | finite t k d =>
      cases s with
      | negative => cases t with
        | negative =>
          have hswap : (compare e d).then (compare m k) = .eq := by
            rw [← Ordering.swap_eq_eq]
            exact Option.some.inj h
          obtain ⟨rfl, rfl⟩ := compare_then_eq_iff.mp hswap
          exact .inl rfl
        | positive => cases h
      | positive => cases t with
        | negative => cases h
        | positive =>
          obtain ⟨rfl, rfl⟩ := compare_then_eq_iff.mp (Option.some.inj h)
          exact .inl rfl

theorem mul_self_congr {u v : UnpackedFloat} (h : u.compare v = some .eq) :
    UnpackedFloat.mul .binary64 u u = UnpackedFloat.mul .binary64 v v := by
  rcases eq_of_compare_eq h with rfl | ⟨⟨s, rfl⟩, ⟨t, rfl⟩⟩
  · rfl
  · cases s <;> cases t <;> rfl

theorem isZero_div {u v : UnpackedFloat} (hu : u.isFinite = true) (hv : v.isFinite = false)
    (hdefined : v.isNaN = false) : IsZero (UnpackedFloat.div .binary64 u v) := by
  cases v with
  | notANumber => cases hdefined
  | infinity t =>
    cases u with
    | notANumber => cases hu
    | infinity => cases hu
    | zero s => exact ⟨s / t, rfl⟩
    | finite s => exact ⟨s / t, rfl⟩
  | zero => cases hv
  | finite => cases hv

theorem isFinite_of_sqrt {u : UnpackedFloat}
    (h : (UnpackedFloat.sqrt .binary64 u).isFinite = true) : u.isFinite = true := by
  cases u with
  | notANumber => cases h
  | infinity s => cases s <;> cases h
  | zero => rfl
  | finite => rfl

theorem isNaN_of_sqrt {u : UnpackedFloat}
    (h : (UnpackedFloat.sqrt .binary64 u).isNaN = false) : u.isNaN = false := by
  cases u with
  | notANumber => cases h
  | _ => rfl

theorem le_iff {a b : Float} : a ≤ b ↔
    (decode a).isNaN = false ∧ (decode b).isNaN = false ∧ rank (decode a) ≤ rank (decode b) := by
  have hle : a ≤ b ↔ (decode a).le (decode b) = true := decide_eq_true_iff
  rw [hle]
  constructor
  · intro h
    obtain ⟨ha, hb⟩ := isNaN_of_le h
    exact ⟨ha, hb, (le_iff_rank ha hb).mp h⟩
  · rintro ⟨ha, hb, h⟩
    exact (le_iff_rank ha hb).mpr h

theorem nonneg_iff {a : Float} : 0 ≤ a ↔ IsNonNegative (decode a) :=
  decide_eq_true_iff.trans isNonNegative_iff.symm

theorem pos_iff {a : Float} : 0 < a ↔ UnpackedFloat.lt (.zero .positive) (decode a) = true :=
  decide_eq_true_iff

theorem beq_zero_iff {a : Float} : (a == 0) = true ↔ IsZero (decode a) := by
  rw [beq_iff_compare]
  constructor
  · intro h
    rcases eq_of_compare_eq h with h | h
    · exact ⟨_, h⟩
    · exact h.1
  · rintro ⟨s, h⟩
    change (decode a).compare _ = _
    rw [h]
    rfl

theorem beq_self_iff {a : Float} : (a == a) = true ↔ (decode a).isNaN = false := by
  rw [LawfulComparison.beq_iff, and_self]
  exact le_iff.trans ⟨fun h => h.1, fun h => ⟨h, h, le_rfl⟩⟩

theorem isFinite_of_lt {u v : UnpackedFloat} (hu : IsNonNegative u) (h : u.lt v = true) :
    u.isFinite = true := by
  rcases hu with hu | rfl
  · cases hu with
    | infinity =>
      cases v with
      | infinity t => cases t <;> cases h
      | _ => cases h
    | zero => rfl
    | finite => rfl
  · rfl

theorem isFinite_of_le {u v : UnpackedFloat} (hu : IsNonNegative u) (h : u.le v = true)
    (hv : v.isFinite = true) : u.isFinite = true := by
  rcases hu with hu | rfl
  · cases hu with
    | infinity =>
      cases v with
      | notANumber => cases hv
      | infinity => cases hv
      | _ => cases h
    | zero => rfl
    | finite => rfl
  · rfl

theorem zero_add {a b : Float} (ha : IsZero (decode a)) (hb : (decode b).isNaN = false) :
    (a + b == b) = true := by
  obtain ⟨s, ha⟩ := ha
  have hsum : decode (a + b) = stored (.add .binary64 (.zero s) (decode b)) := ha ▸ rfl
  refine (beq_iff_compare _ _).mpr ?_
  change (decode (a + b)).compare (decode b) = _
  by_cases hzero : IsZero (decode b)
  · obtain ⟨t, ht⟩ := hzero
    rw [hsum, ht]
    cases s <;> cases t <;> rfl
  · have hsame : UnpackedFloat.add .binary64 (.zero s) (decode b) = decode b := by
      cases hu : decode b with
      | zero t => exact absurd ⟨t, hu⟩ hzero
      | _ => rfl
    rw [hsum, hsame, stored_decode]
    exact (beq_iff_compare b b).mp (beq_self_iff.mpr hb)

/-- What is divided by a positive double keeps its sign. -/
theorem hasSign_div {s : Sign} {m : ℕ} {e : ℤ} {h : 0 < m} {u : UnpackedFloat}
    (hu : UnpackedFloat.lt (.zero .positive) u = true) :
    HasSign s (UnpackedFloat.div .binary64 (.finite s m e h) u) := by
  have hsign : s / .positive = s := by cases s <;> rfl
  cases u with
  | notANumber => cases hu
  | infinity t =>
    cases t with
    | negative => cases hu
    | positive =>
      rw [UnpackedFloat.div, hsign]
      exact .zero
  | zero => cases hu
  | finite t =>
    cases t with
    | negative => cases hu
    | positive =>
      rw [UnpackedFloat.div, hsign]
      exact hasSign_roundWithAccuracy _ _ _ _

theorem not_pos_of_negative {u : UnpackedFloat} (h : HasSign .negative u) :
    ¬ UnpackedFloat.lt (.zero .positive) u = true := by
  cases h <;> exact Bool.false_ne_true

end Double

open Double in
instance : LawfulArithmetic Float where
  le_trans hab hbc := by
    obtain ⟨ha, -, hab⟩ := le_iff.mp hab
    obtain ⟨-, hc, hbc⟩ := le_iff.mp hbc
    exact le_iff.mpr ⟨ha, hc, hab.trans hbc⟩
  le_or_le {a b} ha hb :=
    (le_total (rank (decode a)) (rank (decode b))).imp
      (fun h => le_iff.mpr ⟨ha, hb, h⟩) (fun h => le_iff.mpr ⟨hb, ha, h⟩)
  isNaN_of_le h := isNaN_of_le (decide_eq_true_iff.mp h)
  isNaN_of_isFinite {a} h := by
    change (decode a).isFinite = true at h
    change (decode a).isNaN = false
    cases hu : decode a with
    | notANumber =>
      rw [hu] at h
      cases h
    | _ => rfl
  isFinite_of_le ha h hb := isFinite_of_le (nonneg_iff.mp ha) (decide_eq_true_iff.mp h) hb
  isFinite_of_lt ha h := isFinite_of_lt (nonneg_iff.mp ha) (decide_eq_true_iff.mp h)
  zero_lt_one := by decide
  isFinite_one := rfl
  permille_pos := by decide +kernel
  neg_zero := rfl
  isNaN_neg a := by
    change (stored (decode a).neg).isNaN = (decode a).isNaN
    rw [isNaN_stored]
    cases decode a <;> rfl
  isFinite_of_add h := isFinite_of_add (isFinite_of_stored h)
  isNaN_of_add h := isNaN_of_add ((isNaN_stored _).symm.trans h)
  add_nonneg ha hb :=
    nonneg_iff.mpr (isNonNegative_add (nonneg_iff.mp ha) (nonneg_iff.mp hb)).stored
  zero_add ha hb := zero_add (beq_zero_iff.mp ha) hb
  isNaN_of_sub h := isNaN_of_sub ((isNaN_stored _).symm.trans h)
  isNaN_sub ha hb := (isNaN_stored _).trans (isNaN_sub ha hb)
  isFinite_of_mul h := isFinite_of_mul (isFinite_of_stored h)
  isNaN_mul_iff :=
    (Eq.congr (isNaN_stored _) rfl).trans <| isNaN_mul_iff.trans <|
      or_congr_right <| or_congr_right <|
        or_congr (and_congr_left' beq_zero_iff.symm) (and_congr_right' beq_zero_iff.symm)
  mul_zero ha hb := beq_zero_iff.mpr (isZero_mul ha (beq_zero_iff.mp hb)).stored
  one_mul := one_mul
  mul_self_nonneg ha := nonneg_iff.mpr (isNonNegative_mul_self ha).stored
  mul_self_congr h := congrArg (Float.ofModel ∘ Float.Model.pack)
    (mul_self_congr ((beq_iff_compare _ _).mp h))
  isNaN_of_div h := isNaN_of_div ((isNaN_stored _).symm.trans h)
  isNaN_div h :=
    (isNaN_div ((isNaN_stored _).symm.trans h)).imp_right <| Or.imp_right <|
      Or.imp_left (And.imp beq_zero_iff.mpr beq_zero_iff.mpr)
  div_infinite ha hb hdefined := beq_zero_iff.mpr (isZero_div ha hb hdefined).stored
  neg_one_div hb hpos :=
    not_pos_of_negative (hasSign_div (pos_iff.mp hb)).stored (pos_iff.mp hpos)
  isFinite_of_sqrt h := isFinite_of_sqrt (isFinite_of_stored h)
  isNaN_of_sqrt h := isNaN_of_sqrt ((isNaN_stored _).symm.trans h)
  sqrt_nonneg ha := nonneg_iff.mpr (isNonNegative_sqrt (nonneg_iff.mp ha)).stored

end RootFinder
