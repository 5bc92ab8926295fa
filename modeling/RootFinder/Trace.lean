import RootFinder.Search
import RootFinder.Decimal.Text

/-! What the command line prints about a run: a line for each iteration, and the outcome. -/

namespace RootFinder

namespace Trace

open Decimal

/-- A blank where a minus sign would stand. -/
def signColumn (v : Float) : List Char :=
  if isNegative v then [] else [' ']

/-- Three decimal places after a sign column. -/
def fixed (v : Float) : List Char :=
  signColumn v ++ fixedText 3 v

/-- An exponent with its sign and at least two digits. -/
def exponentText (e : Int) : List Char :=
  (if e < 0 then '-' else '+') :: padded 2 e.natAbs

/-- Four significant digits after a sign column, and a power of ten. -/
def scientific (v : Float) : List Char :=
  match Fraction.ofFloat? v with
  | some q =>
    let s := q.scientific 3
    (if s.negative then '-' else ' ') :: pointed 3 s.significand ++ 'e' :: exponentText s.exponent
  | none => signColumn v ++ nonFinite v

def row {n : Nat} (show1 : Float → List Char) (v : Vec Float n) : String :=
  " ".intercalate (v.toList.map fun c => String.ofList (show1 c))

def line {n : Nat} (s : State Float n) : String :=
  let iteration := String.ofList (padded 3 s.iterations)
  s!"[ iter = {iteration} ] x = {row fixed s.x} / f(x) = {row scientific s.f}"

end Trace

def pointText (x : List Float) : String :=
  "(" ++ ", ".intercalate (x.map fun c => String.ofList (Decimal.fixedText 6 c)) ++ ")"

def Outcome.lines {n : Nat} : Outcome Float n → List String
  | .ok root =>
    [s!"status = {Status.success.text}",
      s!"Iterations needed: {root.iterations}, function evaluations: {root.evaluations}",
      s!"Root: {pointText root.x.toList}"]
  | .error failure =>
    let reason := (failure.error.status?.map Status.text).getD failure.error.message
    [s!"status = {reason}",
      s!"Stopped after {failure.iterations} iterations and " ++
        s!"{failure.evaluations} function evaluations",
      s!"Last point: {pointText failure.x}"]

end RootFinder
