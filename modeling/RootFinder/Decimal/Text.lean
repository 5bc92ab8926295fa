import RootFinder.Decimal.Exact

/-! Doubles as decimal text. -/

namespace RootFinder.Decimal

def nonFinite (v : Float) : List Char :=
  if v.isNaN then ['N', 'a', 'N'] else if v < 0 then ['-', 'i', 'n', 'f'] else ['i', 'n', 'f']

def sign (negative : Bool) : List Char :=
  if negative then ['-'] else []

/-- The digits with a point before the last `places` of them. -/
def pointed (places n : Nat) : List Char :=
  let ds := padded (places + 1) n
  ds.take (ds.length - places) ++ '.' :: ds.drop (ds.length - places)

def fixedText (places : Nat) (v : Float) : List Char :=
  match Fraction.ofFloat? v with
  | some q => sign q.negative ++ pointed places (q.fixed places)
  | none => nonFinite v

def intText (i : Int) : List Char :=
  sign (decide (i < 0)) ++ digits i.natAbs

/-- A double as a power of ten times a number between one and ten, with a fixed number of
places. -/
def scientificText (places : Nat) (v : Float) : List Char :=
  match Fraction.ofFloat? v with
  | some q =>
    let s := q.scientific places
    sign s.negative ++ pointed places s.significand ++ 'e' :: intText s.exponent
  | none => nonFinite v

end RootFinder.Decimal
