import Mathlib.Algebra.Order.Field.Basic
import Mathlib.Algebra.Order.Field.Power
import Mathlib.Algebra.Order.Round
import Mathlib.Data.Int.Log
import Mathlib.Data.Rat.Floor
import Mathlib.Tactic.FieldSimp
import Mathlib.Tactic.Linarith
import Mathlib.Tactic.Positivity
import RootFinder.Proofs.Decimal.Digits

/-! Rounding to significant digits. A number is rounded to a multiple of a power of ten, the power
being the one that leaves so many digits of the number; of two equally near multiples the even one
is taken. The digits that are printed are those of the rounded number. -/

namespace RootFinder

namespace Decimal

/-- A nearest integer, and an even one if there are two. -/
structure IsNearest (q : ℚ) (k : ℤ) : Prop where
  nearest (i : ℤ) : |q - k| ≤ |q - i|
  even {i : ℤ} : i ≠ k → |q - i| = |q - k| → Even k

namespace IsNearest

variable {q : ℚ} {k l : ℤ}

theorem of_le_half (h : |q - k| ≤ 1 / 2) (heven : |q - k| = 1 / 2 → Even k) : IsNearest q k := by
  have hone {i : ℤ} (hi : i ≠ k) : 1 ≤ |q - i| + |q - k| := by
    have hint : (1 : ℚ) ≤ |((i - k : ℤ) : ℚ)| := by
      exact_mod_cast Int.one_le_abs (sub_ne_zero.mpr hi)
    have htriangle := abs_sub_le (i : ℚ) q k
    rw [abs_sub_comm (i : ℚ) q] at htriangle
    push_cast at hint
    linarith
  constructor
  · intro i
    by_cases hi : i = k
    · rw [hi]
    · linarith [hone hi]
  · intro i hi hsame
    exact heven (by linarith [hone hi])

theorem le_half (h : IsNearest q k) : |q - k| ≤ 1 / 2 :=
  (h.nearest (round q)).trans (abs_sub_round q)

protected theorem unique (hk : IsNearest q k) (hl : IsNearest q l) : k = l := by
  by_contra hne
  have hsame : |q - k| = |q - l| := le_antisymm (hk.nearest l) (hl.nearest k)
  have hdistance : |((k - l : ℤ) : ℚ)| ≤ 1 := by
    have htriangle := abs_sub_le (k : ℚ) q l
    rw [abs_sub_comm (k : ℚ) q] at htriangle
    push_cast
    linarith [hk.le_half, hl.le_half]
  obtain ⟨i, hi⟩ := (hk.even (Ne.symm hne) hsame.symm).sub (hl.even hne hsame)
  have hdistance : |k - l| ≤ 1 := by exact_mod_cast hdistance
  rw [abs_le] at hdistance
  omega

protected theorem neg (h : IsNearest q k) : IsNearest (-q) (-k) := by
  have hneg (i : ℤ) : |-q - i| = |q - (-i : ℤ)| := by
    rw [← abs_neg]
    push_cast
    congr 1
    ring
  constructor
  · intro i
    rw [hneg, hneg, neg_neg]
    exact h.nearest (-i)
  · intro i hi hsame
    rw [hneg, hneg, neg_neg] at hsame
    exact (h.even (fun hik => hi (neg_eq_iff_eq_neg.mp hik)) hsame).neg

/-- Rounding does not pass an integer. -/
theorem le_of_le (h : IsNearest q k) (hl : l ≤ q) : l ≤ k := by
  by_contra hlt
  have hstep : (k : ℚ) ≤ l - 1 := by exact_mod_cast Int.le_sub_one_of_lt (not_le.mp hlt)
  linarith [le_abs_self (q - k), h.le_half]

theorem le_of_ge (h : IsNearest q k) (hl : q ≤ l) : k ≤ l := by
  by_contra hlt
  have hstep : (l : ℚ) + 1 ≤ k := by exact_mod_cast not_le.mp hlt
  linarith [neg_abs_le (q - k), h.le_half]

theorem zero : IsNearest 0 0 :=
  of_le_half (by norm_num) fun _ => Even.zero

end IsNearest

theorem IsNearest.of_remainder {num den : ℕ} (hden : 0 < den) {k r : ℤ} (h : num = k * den + r)
    (hle : 2 * |r| ≤ den) (heven : 2 * |r| = den → Even k) :
    IsNearest ((num : ℚ) / den) k := by
  have hpos : (0 : ℚ) < den := by exact_mod_cast hden
  have hdistance : |(num : ℚ) / den - k| = (|r| : ℤ) / den := by
    have hnum : (num : ℚ) = k * den + r := by exact_mod_cast h
    rw [hnum, add_div, mul_div_cancel_right₀ _ hpos.ne', add_sub_cancel_left, abs_div,
      abs_of_pos hpos, Int.cast_abs]
  apply IsNearest.of_le_half
  · rw [hdistance, div_le_div_iff₀ hpos two_pos, one_mul, mul_comm]
    exact_mod_cast hle
  · rw [hdistance, div_eq_div_iff hpos.ne' two_ne_zero, one_mul, mul_comm]
    intro hhalf
    exact heven (by exact_mod_cast hhalf)

theorem isNearest_roundDiv {num den : ℕ} (hden : 0 < den) :
    IsNearest ((num : ℚ) / den) (roundDiv num den : ℕ) := by
  have hlt : num % den < den := Nat.mod_lt num hden
  have hparts : (num : ℤ) = (num / den : ℕ) * den + (num % den : ℕ) := by
    exact_mod_cast (Nat.div_add_mod' num den).symm
  rw [roundDiv]
  split_ifs with hup
  · have habs : |((num % den : ℕ) : ℤ) - den| = den - (num % den : ℕ) := by
      rw [abs_sub_comm, abs_of_nonneg (by omega)]
    refine .of_remainder hden (r := (num % den : ℕ) - den) ?_ ?_ ?_
    · push_cast at hparts ⊢
      linarith
    · rw [habs]
      omega
    · rw [habs]
      intro htie
      exact_mod_cast Nat.even_iff.mpr (by omega)
  · have habs : |((num % den : ℕ) : ℤ)| = (num % den : ℕ) := abs_of_nonneg (by omega)
    refine .of_remainder hden hparts ?_ ?_
    · rw [habs]
      omega
    · rw [habs]
      intro htie
      exact_mod_cast Nat.even_iff.mpr (by omega)

theorem ten_zpow (z : ℤ) : (10 : ℚ) ^ z = (10 ^ z.toNat : ℕ) / (10 ^ (-z).toNat : ℕ) := by
  push_cast
  rw [eq_div_iff (by positivity), ← zpow_natCast, ← zpow_natCast, ← zpow_add₀ (by norm_num)]
  congr 1
  omega

theorem ten_zpow_le_div_iff {num den : ℕ} (hden : 0 < den) (z : ℤ) :
    (10 : ℚ) ^ z ≤ num / den ↔ den * 10 ^ z.toNat ≤ num * 10 ^ (-z).toNat := by
  have hpos : (0 : ℚ) < den := by exact_mod_cast hden
  rw [ten_zpow, div_le_div_iff₀ (by positivity) hpos, mul_comm]
  exact_mod_cast Iff.rfl

theorem ten_zpow_le_iff {q : ℚ} (hq : 0 < q) {z : ℤ} : (10 : ℚ) ^ z ≤ q ↔ z ≤ Int.log 10 q :=
  mod_cast Int.zpow_le_iff_le_log (b := 10) (by decide) hq

theorem lt_ten_zpow_iff {q : ℚ} (hq : 0 < q) {z : ℤ} : q < (10 : ℚ) ^ z ↔ Int.log 10 q < z :=
  mod_cast Int.lt_zpow_iff_log_lt (b := 10) (by decide) hq

theorem log_eq_iff {q : ℚ} (hq : 0 < q) {z : ℤ} :
    Int.log 10 q = z ↔ (10 : ℚ) ^ z ≤ q ∧ q < 10 ^ (z + 1) := by
  rw [ten_zpow_le_iff hq, lt_ten_zpow_iff hq]
  omega

theorem log_digits {n : ℕ} (hn : 0 < n) : Int.log 10 (n : ℚ) = (digits n).length - 1 := by
  have hpos : 0 < (digits n).length := Nat.length_toDigits_pos
  refine (log_eq_iff (by exact_mod_cast hn)).mpr ⟨?_, ?_⟩
  · have hle : ((10 ^ ((digits n).length - 1) : ℕ) : ℚ) ≤ n := by exact_mod_cast digits_le hn
    rwa [Nat.cast_pow, ← zpow_natCast, Nat.cast_sub hpos] at hle
  · have hlt : (n : ℚ) < (10 ^ (digits n).length : ℕ) := by exact_mod_cast lt_digits n
    rwa [sub_add_cancel, zpow_natCast, ← Nat.cast_ofNat, ← Nat.cast_pow]

/-- The lengths of two numbers leave two exponents for their quotient. -/
theorem leadingExponent_eq {num den : ℕ} (hnum : 0 < num) (hden : 0 < den) :
    leadingExponent num den = Int.log 10 ((num : ℚ) / den) := by
  have hnum' : (0 : ℚ) < num := by exact_mod_cast hnum
  have hden' : (0 : ℚ) < den := by exact_mod_cast hden
  have hq : (0 : ℚ) < num / den := div_pos hnum' hden'
  obtain ⟨hnumlow, hnumhigh⟩ := (log_eq_iff hnum').mp (log_digits hnum)
  obtain ⟨hdenlow, hdenhigh⟩ := (log_eq_iff hden').mp (log_digits hden)
  -- Their quotient is less than ten times and more than a tenth of the power guessed.
  generalize hguess : ((digits num).length - (digits den).length : ℤ) = guess
  have hlow : (10 : ℚ) ^ (guess - 1) ≤ num / den := by
    rw [← hguess, sub_right_comm, zpow_sub₀ (by norm_num)]
    rw [sub_add_cancel] at hdenhigh
    exact div_le_div₀ hnum'.le hnumlow hden' hdenhigh.le
  have hhigh : (num : ℚ) / den < 10 ^ (guess + 1) := by
    rw [← hguess, sub_add, zpow_sub₀ (by norm_num)]
    rw [sub_add_cancel] at hnumhigh
    exact div_lt_div₀ hnumhigh hdenlow (by positivity) (by positivity)
  rw [ten_zpow_le_iff hq] at hlow
  rw [lt_ten_zpow_iff hq] at hhigh
  rw [leadingExponent]
  simp only [hguess, Nat.pow_eq, ← ten_zpow_le_div_iff hden, ten_zpow_le_iff hq]
  split_ifs <;> omega

/-- With its last place moved to the units, a number has one digit more than places. Rounding may
make it the next power of ten. -/
theorem IsNearest.bounds {x : ℚ} (hx : 0 < x) {places : ℕ} {k : ℤ}
    (h : IsNearest (x / 10 ^ (Int.log 10 x - places)) k) :
    10 ^ places ≤ k ∧ k ≤ 10 ^ (places + 1) := by
  obtain ⟨hlow, hhigh⟩ := (log_eq_iff hx).mp rfl
  have hscale : (0 : ℚ) < 10 ^ (Int.log 10 x - places) := by positivity
  constructor
  · refine h.le_of_le ?_
    rw [le_div_iff₀ hscale]
    push_cast
    rwa [← zpow_natCast, ← zpow_add₀ (by norm_num), add_sub_cancel]
  · refine h.le_of_ge ?_
    rw [div_le_iff₀ hscale]
    push_cast
    rw [← zpow_natCast, ← zpow_add₀ (by norm_num)]
    refine hhigh.le.trans_eq ?_
    push_cast
    ring_nf

/-- Rounded to the first digit and so many others: to a multiple of the power of ten in the last of
their places. -/
def RoundsTo (places : ℕ) (x r : ℚ) : Prop :=
  ∃ k : ℤ, IsNearest (x / 10 ^ (Int.log 10 |x| - places)) k ∧
    r = k * 10 ^ (Int.log 10 |x| - places)

namespace RoundsTo

variable {places : ℕ} {x r s : ℚ}

protected theorem unique (hr : RoundsTo places x r) (hs : RoundsTo places x s) : r = s := by
  obtain ⟨k, hk, rfl⟩ := hr
  obtain ⟨l, hl, rfl⟩ := hs
  rw [hk.unique hl]

protected theorem neg (h : RoundsTo places x r) : RoundsTo places (-x) (-r) := by
  obtain ⟨k, hk, rfl⟩ := h
  refine ⟨-k, ?_, ?_⟩
  · rw [abs_neg, neg_div]
    exact hk.neg
  · push_cast
    rw [abs_neg, neg_mul]

protected theorem zero (places : ℕ) : RoundsTo places 0 0 := by
  refine ⟨0, ?_, ?_⟩
  · rw [zero_div]
    exact .zero
  · simp

end RoundsTo

namespace Scientific

variable {s t : Scientific} {places : ℕ}

/-- The number that the digits and the power of ten stand for, without its sign. -/
def magnitude (s : Scientific) (places : ℕ) : ℚ :=
  s.significand * 10 ^ (s.exponent - places)

/-- The first of the digits is not zero, unless all are. -/
structure Normal (s : Scientific) (places : ℕ) : Prop where
  lt : s.significand < 10 ^ (places + 1)
  le : s.significand ≠ 0 → 10 ^ places ≤ s.significand
  exponent : s.significand = 0 → s.exponent = 0

theorem magnitude_eq_zero_iff (s : Scientific) (places : ℕ) :
    s.magnitude places = 0 ↔ s.significand = 0 := by
  rw [magnitude, mul_eq_zero, or_iff_left (by positivity), Nat.cast_eq_zero]

theorem Normal.lt_iff (h : s.Normal places) : s.significand < 10 ^ places ↔ s.significand = 0 := by
  refine ⟨fun hlt => ?_, fun hzero => hzero ▸ by positivity⟩
  by_contra hne
  exact absurd (h.le hne) (not_le.mpr hlt)

theorem Normal.log_magnitude (h : s.Normal places) (hs : s.significand ≠ 0) :
    Int.log 10 (s.magnitude places) = s.exponent := by
  have hscale : (0 : ℚ) < 10 ^ (s.exponent - places) := by positivity
  have hpos : (0 : ℚ) < s.magnitude places :=
    mul_pos (by exact_mod_cast Nat.pos_of_ne_zero hs) hscale
  have hle : ((10 ^ places : ℕ) : ℚ) ≤ s.significand := by exact_mod_cast h.le hs
  have hlt : (s.significand : ℚ) < (10 ^ (places + 1) : ℕ) := by exact_mod_cast h.lt
  have hshift (k : ℕ) (z : ℤ) (hz : z = k + (s.exponent - places)) :
      (10 : ℚ) ^ z = (10 ^ k : ℕ) * 10 ^ (s.exponent - places) := by
    rw [hz, zpow_add₀ (by norm_num), zpow_natCast, Nat.cast_pow, Nat.cast_ofNat]
  refine (log_eq_iff hpos).mpr ⟨?_, ?_⟩
  · rw [hshift places _ (by ring), magnitude]
    exact mul_le_mul_of_nonneg_right hle hscale.le
  · rw [hshift (places + 1) _ (by push_cast; ring), magnitude]
    exact mul_lt_mul_of_pos_right hlt hscale

theorem Normal.unique (hs : s.Normal places) (ht : t.Normal places)
    (h : s.magnitude places = t.magnitude places) :
    s.significand = t.significand ∧ s.exponent = t.exponent := by
  by_cases hzero : s.significand = 0
  · have htzero : t.significand = 0 := by
      rwa [← magnitude_eq_zero_iff t places, ← h, magnitude_eq_zero_iff]
    exact ⟨hzero.trans htzero.symm, (hs.exponent hzero).trans (ht.exponent htzero).symm⟩
  · have htzero : t.significand ≠ 0 := by
      rwa [ne_eq, ← magnitude_eq_zero_iff t places, ← h, magnitude_eq_zero_iff]
    have hexponent : s.exponent = t.exponent := by
      rw [← hs.log_magnitude hzero, h, ht.log_magnitude htzero]
    rw [magnitude, magnitude, hexponent] at h
    exact ⟨by exact_mod_cast mul_right_cancel₀ (by positivity) h, hexponent⟩

end Scientific

namespace Fraction

def magnitude (q : Fraction) : ℚ :=
  q.num / q.den

theorem scaled_eq (num den : ℕ) (z : ℤ) :
    ((num * 10 ^ z.toNat : ℕ) : ℚ) / (den * 10 ^ (-z).toNat : ℕ) = num / den / 10 ^ (-z) := by
  rw [zpow_neg, div_inv_eq_mul, ten_zpow, div_mul_div_comm]
  push_cast
  rfl

@[simp]
theorem scientific_negative (q : Fraction) (places : ℕ) :
    (q.scientific places).negative = q.negative := by
  unfold scientific
  simp only []
  split_ifs <;> rfl

/-- Rounding up to the next power of ten moves the point. -/
theorem exists_scientific_eq {q : Fraction} (hnum : q.num ≠ 0) (hden : 0 < q.den) (places : ℕ) :
    ∃ k : ℕ, IsNearest (q.magnitude / 10 ^ (Int.log 10 q.magnitude - places)) k ∧
      q.scientific places =
        if k = 10 ^ (places + 1) then ⟨q.negative, 10 ^ places, Int.log 10 q.magnitude + 1⟩
        else ⟨q.negative, k, Int.log 10 q.magnitude⟩ := by
  have hleading : leadingExponent q.num q.den = Int.log 10 q.magnitude :=
    leadingExponent_eq (Nat.pos_of_ne_zero hnum) hden
  generalize Int.log 10 q.magnitude = e at hleading
  have hshift : -((places : ℤ) - e) = e - places := neg_sub _ _
  refine ⟨roundDiv (q.num * 10 ^ ((places : ℤ) - e).toNat) (q.den * 10 ^ (e - places).toNat),
    ?_, ?_⟩
  · have hscaled := scaled_eq q.num q.den (places - e)
    rw [hshift] at hscaled
    rw [magnitude, ← hscaled]
    exact isNearest_roundDiv (by positivity)
  · simp only [scientific, if_neg hnum, hleading, hshift, Nat.pow_eq]

theorem scientific_spec {q : Fraction} (hden : 0 < q.den) (places : ℕ) :
    (q.scientific places).Normal places ∧
      RoundsTo places q.magnitude ((q.scientific places).magnitude places) ∧
      ((q.scientific places).significand = 0 ↔ q.num = 0) := by
  by_cases hnum : q.num = 0
  · have hs : q.scientific places = ⟨q.negative, 0, 0⟩ := if_pos hnum
    rw [hs]
    refine ⟨⟨by positivity, fun h => absurd rfl h, fun _ => rfl⟩, ?_, by simp [hnum]⟩
    simpa [magnitude, Scientific.magnitude, hnum] using RoundsTo.zero places
  · have hx : 0 < q.magnitude := by
      rw [magnitude]
      positivity
    obtain ⟨k, hnear, hs⟩ := exists_scientific_eq hnum hden places
    have hbounds := hnear.bounds hx
    have hlow : 10 ^ places ≤ k := by exact_mod_cast hbounds.1
    have hhigh : k ≤ 10 ^ (places + 1) := by exact_mod_cast hbounds.2
    have hpos : k ≠ 0 := (Nat.lt_of_lt_of_le (by positivity) hlow).ne'
    have hround : RoundsTo places q.magnitude (k * 10 ^ (Int.log 10 q.magnitude - places)) := by
      refine ⟨k, ?_, ?_⟩
      · rwa [abs_of_pos hx]
      · rw [abs_of_pos hx, Int.cast_natCast]
    rw [hs]
    split_ifs with hcarry
    · refine ⟨⟨?_, fun _ => le_rfl, fun h => absurd h (by positivity)⟩, ?_, by simp [hnum]⟩
      · exact Nat.pow_lt_pow_right (by decide) (Nat.lt_succ_self places)
      · have hmoved (e : ℤ) : ((10 ^ places : ℕ) : ℚ) * 10 ^ (e + 1 - places) =
            k * 10 ^ (e - places) := by
          rw [hcarry, add_sub_right_comm, zpow_add_one₀ (by norm_num)]
          push_cast
          ring
        rwa [← hmoved] at hround
    · exact ⟨⟨lt_of_le_of_ne hhigh hcarry, fun _ => hlow, fun h => absurd h hpos⟩, hround,
        by simp [hnum, hpos]⟩

end Fraction

end Decimal

end RootFinder
