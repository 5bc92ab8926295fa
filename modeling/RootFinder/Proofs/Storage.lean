import Mathlib
import RootFinder.Proofs.Comparison

/-! How doubles are stored. A double is read as an infinity, a zero, a finite value of some sign,
significand and exponent, or undefined; operations work on what is read, round it and store the
result in 64 bits. Storing may make a finite value infinite or zero but keeps its sign, and what
was read is stored as it was. -/

namespace RootFinder

namespace Double

open Float.Model Float.Model.UnpackedFloat

def decode (a : Float) : UnpackedFloat :=
  a.toModel.unpack

/-- What is read of a value after it was stored. -/
def stored (u : UnpackedFloat) : UnpackedFloat :=
  (Float.Model.pack u).unpack

@[simp]
theorem stored_notANumber : stored .notANumber = .notANumber := rfl

@[simp]
theorem stored_zero (s : Sign) : stored (.zero s) = .zero s := by
  cases s <;> rfl

@[simp]
theorem stored_infinity (s : Sign) : stored (.infinity s) = .infinity s := by
  cases s <;> rfl

/-- Defined and of this sign. -/
inductive HasSign (s : Sign) : UnpackedFloat → Prop
  | infinity : HasSign s (.infinity s)
  | zero : HasSign s (.zero s)
  | finite {m : Nat} {e : Int} {h : 0 < m} : HasSign s (.finite s m e h)

theorem HasSign.isNaN {s : Sign} {u : UnpackedFloat} (h : HasSign s u) : u.isNaN = false := by
  cases h <;> rfl

theorem hasSign_unpack_packComponents {s : Sign} {e : BitVec Format.binary64.exponentBits}
    {m : BitVec Format.binary64.mantissaBitsWithoutImplicit} (he : e ≠ -1#_) :
    HasSign s (UnpackedFloat.unpack .binary64 (packComponents .binary64 s e m)) := by
  simp only [UnpackedFloat.unpack, unpackExponent_packComponents, unpackMantissa_packComponents,
    unpackSign_packComponents, Sign.ofBitVec_toBitVec, if_neg he]
  split
  · split
    · exact .zero
    · exact .finite
  · exact .finite

theorem HasSign.stored {s : Sign} {u : UnpackedFloat} (h : HasSign s u) :
    HasSign s (stored u) := by
  cases h with
  | infinity =>
    rw [stored_infinity]
    exact .infinity
  | zero =>
    rw [stored_zero]
    exact .zero
  | @finite m e h =>
    change HasSign s (UnpackedFloat.unpack .binary64
      (UnpackedFloat.pack .binary64 (.finite s m e h)))
    simp only [UnpackedFloat.pack]
    split
    · change HasSign s (Double.stored (.infinity s))
      rw [stored_infinity]
      exact .infinity
    · split
      · next hbelow _ =>
        refine hasSign_unpack_packComponents fun hexponent => ?_
        have hN := congrArg BitVec.toNat hexponent
        simp only [BitVec.toNat_ofNat] at hN
        rw [Nat.mod_eq_of_lt (by omega)] at hN
        have hlargest : (-1#11).toNat = 2047 := rfl
        omega
      · exact hasSign_unpack_packComponents (by decide)

/-- Packing undoes unpacking, since there is only one undefined double. -/
theorem pack_unpack (a : Float.Model) : Float.Model.pack a.unpack = a := by
  obtain ⟨bits, hvalid⟩ := a
  have hbits := UnpackedFloat.pack_unpack_of_valid hvalid
  simp only [Float.Model.pack, Float.Model.unpack, hbits]

theorem stored_decode (a : Float) : stored (decode a) = decode a :=
  congrArg Float.Model.unpack (pack_unpack a.toModel)

theorem shiftRight_exact (k m : Nat) :
    (ExtendedMantissa.mk (2 ^ k * m) false false) >>> k = ExtendedMantissa.mk m false false := by
  change k.repeat ExtendedMantissa.shiftRightOne _ = _
  induction k generalizing m with
  | zero => simp [Nat.repeat]
  | succ k ih =>
    rw [Nat.repeat, Nat.pow_succ, Nat.mul_assoc, ih]
    simp [ExtendedMantissa.shiftRightOne]

theorem log2_two_pow_mul {m : Nat} (hm : 0 < m) (k : Nat) : (2 ^ k * m).log2 = m.log2 + k := by
  induction k with
  | zero => simp
  | succ k ih =>
    have hpos : 2 ^ k * m ≠ 0 := Nat.mul_ne_zero (by simp) (by omega)
    rw [Nat.pow_succ', Nat.mul_assoc, Nat.log2_two_mul hpos, ih]
    omega

/-- A significand and exponent that rounding leaves alone. -/
def IsRounded (m : Nat) (e : Int) : Prop :=
  Format.binary64.targetExponent (totalExponent m e) = e

theorem shiftToTargetExponent_exact {m : Nat} {e : Int} (h : IsRounded m e) (hm : 0 < m)
    (k : Nat) :
    shiftToTargetExponent .binary64 (2 ^ k * m) (e - k) .exact = (⟨m, false, false⟩, e) := by
  have htotal : totalExponent (2 ^ k * m) (e - k) = totalExponent m e := by
    rw [totalExponent, totalExponent, log2_two_pow_mul hm]
    push_cast
    omega
  have htarget : Format.binary64.targetExponent (totalExponent m e) = e := h
  have hshift : (e - (e - k)).toNat = k := by omega
  have hback : e - k + ((k : Nat) : Int) = e := by omega
  simp only [shiftToTargetExponent, shiftToExponent, htotal, htarget, hshift, hback,
    ExtendedMantissa.ofMantissaAndAccuracy, shiftRight_exact]

theorem roundWithAccuracy_exact {m : Nat} {e : Int} (h : IsRounded m e) (hm : 0 < m) (s : Sign)
    (k : Nat) : roundWithAccuracy .binary64 s (2 ^ k * m) (e - k) .exact = .finite s m e hm := by
  have hagain : shiftToTargetExponent .binary64 m e .exact = (⟨m, false, false⟩, e) := by
    simpa using shiftToTargetExponent_exact h hm 0
  simp only [roundWithAccuracy, shiftToTargetExponent_exact h hm k,
    ExtendedMantissa.roundedMantissa, ExtendedMantissa.accuracy, Accuracy.roundToNearestEven,
    hagain, dif_neg (Nat.pos_iff_ne_zero.mp hm)]

theorem toNat_one_append (m : BitVec 52) : (1#1 ++ m).toNat = 2 ^ 52 + m.toNat := by
  rw [BitVec.toNat_append, Nat.shiftLeft_eq]
  exact (Nat.two_pow_add_eq_or_of_lt m.isLt 1).symm.trans (by omega)

/-- A finite double has 53 digits, or fewer if it is one of the smallest. -/
theorem isRounded_of_unpack {b : BitVec Format.binary64.numBits} {s : Sign} {m : Nat} {e : Int}
    {hm : 0 < m} (h : UnpackedFloat.unpack .binary64 b = .finite s m e hm) : IsRounded m e := by
  have htarget (t : Int) : Format.binary64.targetExponent t = max (t - 53) (-1074) := rfl
  have hbias : ((Format.binary64.exponentBias : Nat) : Int) = 1023 := rfl
  have hdigits : (unpackMantissa b).toNat < 2 ^ 52 := (unpackMantissa b).isLt
  rw [IsRounded, htarget, totalExponent]
  simp only [UnpackedFloat.unpack] at h
  split at h
  · split at h <;> cases h
  · split at h
    · next hsmallest =>
      split at h
      · cases h
      · cases h
        have hlog : (unpackMantissa b).toNat.log2 < 52 := (Nat.log2_lt (by omega)).mpr hdigits
        have hexponent : (unpackExponent b).toNat = 0 := congrArg BitVec.toNat hsmallest
        rw [hexponent, hbias]
        omega
    · next hfirst =>
      cases h
      have hlog : (1#1 ++ unpackMantissa b).toNat.log2 = 52 := by
        rw [toNat_one_append]
        exact (Nat.log2_eq_iff (by omega)).mpr ⟨by omega, by omega⟩
      have hpos : (unpackExponent b).toNat ≠ 0 := fun h => hfirst (BitVec.eq_of_toNat_eq h)
      rw [hlog, hbias]
      omega

theorem one_mul (a : Float) : 1 * a = a := by
  obtain ⟨model⟩ := a
  have hmul : UnpackedFloat.mul .binary64 (decode 1) model.unpack = model.unpack := by
    change UnpackedFloat.mul .binary64 (.finite .positive (2 ^ 52) (-52) (by decide)) _ = _
    cases hu : model.unpack with
    | notANumber => rfl
    | infinity s => cases s <;> rfl
    | zero s => cases s <;> rfl
    | finite s m e hm =>
      have hround := roundWithAccuracy_exact (isRounded_of_unpack hu) hm s 52
      have hexp : -52 + e = e - (52 : Nat) := by omega
      simp only [UnpackedFloat.mul, hexp]
      cases s <;> exact hround
  have hpack : Float.Model.pack (UnpackedFloat.mul .binary64 (decode 1) model.unpack) = model := by
    rw [hmul, pack_unpack]
  exact congrArg Float.ofModel hpack

end Double

end RootFinder
