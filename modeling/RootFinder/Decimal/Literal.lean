import RootFinder.Decimal.Exact

/-! Reading decimal text: numbers with an optional sign, point and exponent, and the names of the
values that are not finite, in letters of either case. -/

namespace RootFinder.Decimal

inductive Literal
  | nan
  | infinite
  | number (significand : Nat) (exponent : Int)

/-- The double nearest to `significand · 10 ^ exponent`. The powers of ten that no double reaches
are not computed. -/
def nearestFloat (significand : Nat) (exponent : Int) : Float :=
  let reach := exponent + (digits significand).length
  if significand = 0 ∨ reach < -330 then 0
  else if 310 < reach then 1.0 / 0.0
  else Float.ofScientific significand (decide (exponent < 0)) exponent.natAbs

namespace Literal

def toFloat : Literal → Float
  | nan => 0.0 / 0.0
  | infinite => 1.0 / 0.0
  | number significand exponent => nearestFloat significand exponent

def ofDigits (ds : List Char) : Nat :=
  ds.foldl (fun n d => 10 * n + (d.toNat - '0'.toNat)) 0

def readNat? (text : List Char) : Option Nat :=
  if text ≠ [] ∧ text.all Char.isDigit then some (ofDigits text) else none

/-- The exponent behind a number: nothing, or a mark and an integer. -/
def readExponent? : List Char → Option Int
  | [] => some 0
  | mark :: '-' :: text => if mark.toLower = 'e' then (readNat? text).map (-Int.ofNat ·) else none
  | mark :: '+' :: text => if mark.toLower = 'e' then (readNat? text).map Int.ofNat else none
  | mark :: text => if mark.toLower = 'e' then (readNat? text).map Int.ofNat else none

/-- Digits with a point among or around them, and an exponent. -/
def readNumber? (text : List Char) : Option Literal :=
  let (whole, rest) := text.span Char.isDigit
  let (part, rest) :=
    match rest with
    | '.' :: behind => behind.span Char.isDigit
    | _ => ([], rest)
  if whole ++ part = [] then none
  else (readExponent? rest).map fun e => number (ofDigits (whole ++ part)) (e - part.length)

def read? (text : List Char) : Option Literal :=
  let name := text.map Char.toLower
  if name = ['n', 'a', 'n'] then some nan
  else if name = ['i', 'n', 'f'] ∨ name = ['i', 'n', 'f', 'i', 'n', 'i', 't', 'y'] then
    some infinite
  else readNumber? text

end Literal

def readFloat? (text : String) : Option Float :=
  match text.toList with
  | '-' :: rest => (Literal.read? rest).map fun l => -l.toFloat
  | '+' :: rest => (Literal.read? rest).map Literal.toFloat
  | rest => (Literal.read? rest).map Literal.toFloat

end RootFinder.Decimal
