/-! Finite doubles as fractions, and their exact decimal digits. -/

namespace RootFinder.Decimal

/-- The nearest integer to a quotient; of two equally near ones the even one. -/
def roundDiv (num den : Nat) : Nat :=
  let rest := num % den
  if den < 2 * rest ∨ (den = 2 * rest ∧ num / den % 2 = 1) then num / den + 1 else num / den

structure Fraction where
  negative : Bool
  num : Nat
  den : Nat

def isNegative (v : Float) : Bool :=
  v.toBits.toNat / Nat.pow 2 63 == 1

def Fraction.ofFloat? (v : Float) : Option Fraction :=
  let field := v.toBits.toNat / Nat.pow 2 52 % 2048
  let digits := v.toBits.toNat % Nat.pow 2 52
  if field = 2047 then none
  else if field = 0 then some ⟨isNegative v, digits, Nat.pow 2 1074⟩
  else
    some ⟨isNegative v, (Nat.pow 2 52 + digits) * Nat.pow 2 (field - 1075),
      Nat.pow 2 (1075 - field)⟩

def digits (n : Nat) : List Char :=
  Nat.toDigits 10 n

def padded (width n : Nat) : List Char :=
  List.replicate (width - (digits n).length) '0' ++ digits n

/-- The whole number of units in the last of so many decimal places. -/
def Fraction.fixed (q : Fraction) (places : Nat) : Nat :=
  roundDiv (q.num * Nat.pow 10 places) q.den

/-- The exponent of the first digit of a positive quotient: the two lengths leave one choice. -/
def leadingExponent (num den : Nat) : Int :=
  let guess : Int := (digits num).length - (digits den).length
  if den * Nat.pow 10 guess.toNat ≤ num * Nat.pow 10 (-guess).toNat then guess else guess - 1

/-- A number with `places + 1` digits, a point after the first of them, and a power of ten. -/
structure Scientific where
  negative : Bool
  significand : Nat
  exponent : Int

def Fraction.scientific (q : Fraction) (places : Nat) : Scientific :=
  if q.num = 0 then ⟨q.negative, 0, 0⟩
  else
    let exponent := leadingExponent q.num q.den
    let shift : Int := places - exponent
    let rounded := roundDiv (q.num * Nat.pow 10 shift.toNat) (q.den * Nat.pow 10 (-shift).toNat)
    if rounded = Nat.pow 10 (places + 1) then ⟨q.negative, Nat.pow 10 places, exponent + 1⟩
    else ⟨q.negative, rounded, exponent⟩

end RootFinder.Decimal
