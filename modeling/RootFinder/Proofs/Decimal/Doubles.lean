import Mathlib
import RootFinder.Proofs.Decimal.Rounding
import RootFinder.Proofs.Storage

/-! The fraction of a double. The fields of the 64 bits are those that arithmetic works on, so the
fraction that is printed is the number the double stands for, with the sign that is stored. -/

namespace RootFinder

open Decimal Float.Model Float.Model.UnpackedFloat

namespace Double

/-- The number that a finite double stands for. -/
def value (v : Float) : ℚ :=
  match decode v with
  | .finite s m e _ => s.apply m * 2 ^ e
  | _ => 0

def exponentField (v : Float) : ℕ :=
  v.toBits.toNat / Nat.pow 2 52 % 2048

def digitField (v : Float) : ℕ :=
  v.toBits.toNat % Nat.pow 2 52

def storedSign (v : Float) : Sign :=
  if isNegative v then .negative else .positive

variable {v : Float}

theorem toNat_unpackExponent (v : Float) :
    (@unpackExponent .binary64 v.toBits.toBitVec).toNat = exponentField v := by
  rw [unpackExponent_def, BitVec.extractLsb'_toNat, Nat.shiftRight_eq_div_pow]
  rfl

theorem toNat_unpackMantissa (v : Float) :
    (@unpackMantissa .binary64 v.toBits.toBitVec).toNat = digitField v := by
  rw [unpackMantissa_def, BitVec.extractLsb'_toNat]
  rfl

theorem ofBitVec_unpackSign (v : Float) :
    Sign.ofBitVec (@unpackSign .binary64 v.toBits.toBitVec) = storedSign v := by
  have hlt : v.toBits.toNat / Nat.pow 2 63 < 2 := Nat.div_lt_of_lt_mul v.toBits.toNat_lt
  have hbit : (@unpackSign .binary64 v.toBits.toBitVec).toNat =
      v.toBits.toNat / Nat.pow 2 63 := by
    rw [unpackSign_def, BitVec.extractLsb'_toNat, Nat.shiftRight_eq_div_pow]
    exact Nat.mod_eq_of_lt hlt
  have hpositive : @unpackSign .binary64 v.toBits.toBitVec = 0#1 ↔
      ¬ isNegative v = true := by
    rw [← BitVec.toNat_inj, hbit, isNegative, beq_iff_eq]
    change v.toBits.toNat / Nat.pow 2 63 = 0 ↔ _
    generalize v.toBits.toNat / Nat.pow 2 63 = bit at hlt
    omega
  rw [Sign.ofBitVec, storedSign]
  split_ifs <;> simp_all

theorem decode_fields (h : v.isFinite = true) :
    exponentField v ≠ 2047 ∧
      ((exponentField v = 0 ∧ digitField v = 0 ∧ decode v = .zero (storedSign v)) ∨
      (exponentField v = 0 ∧ ∃ hm, decode v = .finite (storedSign v) (digitField v) (-1074) hm) ∨
      (exponentField v ≠ 0 ∧ ∃ hm, decode v =
        .finite (storedSign v) (2 ^ 52 + digitField v) (exponentField v - 1075) hm)) := by
  have hlargest (hbits : exponentField v = 2047) :
      @unpackExponent .binary64 v.toBits.toBitVec = -1#11 :=
    BitVec.eq_of_toNat_eq ((toNat_unpackExponent v).trans hbits)
  have hdecode : decode v = UnpackedFloat.unpack .binary64 v.toBits.toBitVec := rfl
  have hfinite : (decode v).isFinite = true := h
  have hbias : ((Format.binary64.exponentBias : ℕ) : ℤ) +
      (Format.binary64.mantissaBitsWithoutImplicit : ℕ) = 1075 := rfl
  simp only [UnpackedFloat.unpack, ofBitVec_unpackSign, hbias, toNat_unpackExponent] at hdecode
  split_ifs at hdecode with hspecial hinfinite hsmall hzero
  · rw [hdecode] at hfinite
    cases hfinite
  · rw [hdecode] at hfinite
    cases hfinite
  · have hexponent : exponentField v = 0 := by rw [← toNat_unpackExponent, hsmall]; rfl
    have hdigits : digitField v = 0 := by rw [← toNat_unpackMantissa, hzero]; rfl
    exact ⟨fun h => hspecial (hlargest h), .inl ⟨hexponent, hdigits, hdecode⟩⟩
  · have hexponent : exponentField v = 0 := by rw [← toNat_unpackExponent, hsmall]; rfl
    refine ⟨fun h => hspecial (hlargest h), .inr (.inl ⟨hexponent, ?_⟩)⟩
    simp only [hexponent, toNat_unpackMantissa] at hdecode
    exact ⟨_, hdecode⟩
  · have hexponent : exponentField v ≠ 0 := fun h =>
      hsmall (BitVec.eq_of_toNat_eq ((toNat_unpackExponent v).trans h))
    refine ⟨fun h => hspecial (hlargest h), .inr (.inr ⟨hexponent, ?_⟩)⟩
    simp only [toNat_one_append, toNat_unpackMantissa] at hdecode
    exact ⟨_, hdecode⟩

theorem value_finite {s : Sign} {m : ℕ} {e : ℤ} {hm : 0 < m} (h : decode v = .finite s m e hm) :
    value v = s.apply m * 2 ^ e := by
  rw [value, h]

theorem value_zero {s : Sign} (h : decode v = .zero s) : value v = 0 := by
  rw [value, h]

end Double

namespace Decimal.Fraction

open Double

def value (q : Fraction) : ℚ :=
  if q.negative then -q.magnitude else q.magnitude

theorem value_eq_zero_iff {q : Fraction} (hden : 0 < q.den) : q.value = 0 ↔ q.num = 0 := by
  have hmagnitude : q.magnitude = 0 ↔ q.num = 0 := by
    rw [magnitude, div_eq_zero_iff, Nat.cast_eq_zero, Nat.cast_eq_zero, or_iff_left hden.ne']
  rw [value, ← hmagnitude]
  split_ifs
  · exact neg_eq_zero
  · exact Iff.rfl

/-- A fraction that has the value of the double. -/
structure IsOf (q : Fraction) (v : Float) : Prop where
  den_pos : 0 < q.den
  value_eq : q.value = Double.value v

theorem IsOf.of_terms {v : Float} {num k m : ℕ} {e : ℤ}
    (hterms : (num : ℚ) / (Nat.pow 2 k : ℕ) = m * 2 ^ e)
    (hvalue : Double.value v = (storedSign v).apply m * 2 ^ e) :
    IsOf ⟨isNegative v, num, Nat.pow 2 k⟩ v where
  den_pos := Nat.two_pow_pos k
  value_eq := by
    simp only [hvalue, value, magnitude, hterms, storedSign]
    split_ifs <;> simp [Sign.apply]

theorem div_two_pow (m : ℕ) {e : ℤ} {k : ℕ} (h : e = -k) :
    (m : ℚ) / (Nat.pow 2 k : ℕ) = m * 2 ^ e := by
  rw [h, div_eq_mul_inv, zpow_neg, zpow_natCast, Nat.pow_eq, Nat.cast_pow, Nat.cast_ofNat]

theorem scaled_div_two_pow (m : ℕ) {e : ℤ} {j k : ℕ} (h : e = j - k) :
    ((m * Nat.pow 2 j : ℕ) : ℚ) / (Nat.pow 2 k : ℕ) = m * 2 ^ e := by
  rw [div_two_pow _ rfl, h, sub_eq_add_neg, zpow_add₀ two_ne_zero, zpow_natCast, Nat.pow_eq,
    Nat.cast_mul, Nat.cast_pow, Nat.cast_ofNat, mul_assoc]

theorem negative_of_ofFloat? {v : Float} {q : Fraction} (h : ofFloat? v = some q) :
    q.negative = isNegative v := by
  unfold ofFloat? at h
  simp only [] at h
  split_ifs at h <;> cases h <;> rfl

theorem exists_ofFloat?_eq {v : Float} (h : v.isFinite = true) :
    ∃ q, ofFloat? v = some q ∧ q.IsOf v := by
  obtain ⟨hfinite, hfields⟩ := decode_fields h
  -- The power stays a power: nothing below computes it.
  obtain ⟨k, hk⟩ : ∃ k : ℕ, 1074 = k := ⟨_, rfl⟩
  have hsmall (hexponent : exponentField v = 0) :
      ofFloat? v = some ⟨isNegative v, digitField v, Nat.pow 2 k⟩ := by
    unfold exponentField at hfinite hexponent
    unfold ofFloat? digitField
    rw [hk]
    refine (if_neg hfinite).trans ?_
    exact if_pos hexponent
  have hterms : (digitField v : ℚ) / (Nat.pow 2 k : ℕ) = digitField v * 2 ^ (-1074 : ℤ) :=
    div_two_pow (digitField v) (by omega)
  obtain ⟨hexponent, hdigits, hdecode⟩ | ⟨hexponent, hm, hdecode⟩ | ⟨hexponent, hm, hdecode⟩ :=
    hfields
  · have hvalue : Double.value v = (storedSign v).apply (digitField v) * 2 ^ (-1074 : ℤ) := by
      rw [value_zero hdecode, hdigits]
      cases storedSign v <;>
        simp only [Sign.apply, Nat.cast_zero, neg_zero, Int.cast_zero, zero_mul]
    exact ⟨_, hsmall hexponent, .of_terms hterms hvalue⟩
  · exact ⟨_, hsmall hexponent, .of_terms hterms (value_finite hdecode)⟩
  · have hlarge : ofFloat? v = some ⟨isNegative v,
        (2 ^ 52 + digitField v) * Nat.pow 2 (exponentField v - 1075),
        Nat.pow 2 (1075 - exponentField v)⟩ := (if_neg hfinite).trans (if_neg hexponent)
    exact ⟨_, hlarge, .of_terms (scaled_div_two_pow (2 ^ 52 + digitField v) (by omega))
      (value_finite hdecode)⟩

end Decimal.Fraction

end RootFinder
