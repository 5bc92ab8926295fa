import RootFinder.Settings
import RootFinder.Decimal.Literal
import RootFinder.Systems.Tridiagonal

/-! The arguments of the command line: options with their values, each at most once but for the
guess, which is continued. -/

namespace RootFinder

structure Options where
  weightA : Option Float := none
  weightB : Option Float := none
  guess : Option (List Float) := none
  tolerance : Option Float := none
  maxIterations : Option Nat := none
  unscaled : Bool := false
  stepTolerance : Option Float := none
  verbose : Bool := false

def Options.settings (o : Options) : Settings Float :=
  let c := Settings.standard
  { c with
    scaled := !o.unscaled
    tolerance := o.tolerance.getD c.tolerance
    maxIterations := o.maxIterations.getD c.maxIterations
    stepToleranceAbs := o.stepTolerance.getD c.stepToleranceAbs
    stepToleranceRel := o.stepTolerance.getD c.stepToleranceRel }

def Options.point (o : Options) : List Float :=
  o.guess.getD Rosenbrock.standardGuess

namespace Arguments

inductive Opt
  | weightA
  | weightB
  | guess
  | tolerance
  | maxIterations
  | unscaled
  | stepTolerance
  | verbose
  | help
  | version
  deriving DecidableEq

namespace Opt

def long? : List Char → Option Opt
  | ['g', 'u', 'e', 's', 's'] => some guess
  | ['t', 'o', 'l'] => some tolerance
  | ['m', 'a', 'x', '-', 'i', 't', 'e', 'r'] => some maxIterations
  | ['u', 'n', 's', 'c', 'a', 'l', 'e', 'd'] => some unscaled
  | ['s', 't', 'e', 'p', '-', 't', 'o', 'l'] => some stepTolerance
  | ['v', 'e', 'r', 'b', 'o', 's', 'e'] => some verbose
  | ['h', 'e', 'l', 'p'] => some help
  | ['v', 'e', 'r', 's', 'i', 'o', 'n'] => some version
  | _ => none

def short? : Char → Option Opt
  | 'a' => some weightA
  | 'b' => some weightB
  | 'v' => some verbose
  | 'h' => some help
  | 'V' => some version
  | _ => none

def valueCount : Opt → Nat
  | guess => 2
  | weightA | weightB | tolerance | maxIterations | stepTolerance => 1
  | unscaled | verbose | help | version => 0

/-- Whether a negative number in an argument of its own is a value of the option. -/
def takesNegatives : Opt → Bool
  | weightA | weightB | guess | tolerance => true
  | _ => false

end Opt

inductive UsageError
  | unexpected (argument : String)
  | valuesMissing
  | valueNotTaken
  | valueInvalid (value : String)
  | repeated
  deriving DecidableEq

def UsageError.message : UsageError → String
  | unexpected argument => s!"unexpected argument '{argument}' found"
  | valuesMissing => "a value is required for an option but none was supplied"
  | valueNotTaken => "an option does not take that many values"
  | valueInvalid value => s!"invalid value '{value}' for an option"
  | repeated => "an option cannot be used multiple times"

inductive Stop
  | usage (error : UsageError)
  | help
  | version
  deriving DecidableEq

def maxCount : Nat :=
  18446744073709551615

def readCount? (value : String) : Option Nat :=
  let number :=
    match value.toList with
    | '+' :: rest => Decimal.Literal.readNat? rest
    | text => Decimal.Literal.readNat? text
  number.filter (· ≤ maxCount)

def readFloat (value : String) : Except Stop Float :=
  match Decimal.readFloat? value with
  | some v => .ok v
  | none => .error (.usage (.valueInvalid value))

def once {β : Type} (old : Option β) (new : β) : Except Stop (Option β) :=
  if old.isSome then .error (.usage .repeated) else .ok (some new)

def onceTrue (old : Bool) : Except Stop Bool :=
  if old then .error (.usage .repeated) else .ok true

def give (o : Options) (opt : Opt) (values : List String) : Except Stop Options :=
  match opt, values with
  | .weightA, [v] => do pure { o with weightA := ← once o.weightA (← readFloat v) }
  | .weightB, [v] => do pure { o with weightB := ← once o.weightB (← readFloat v) }
  | .guess, [u, v] => do
    pure { o with guess := some (o.guess.getD [] ++ [← readFloat u, ← readFloat v]) }
  | .tolerance, [v] => do pure { o with tolerance := ← once o.tolerance (← readFloat v) }
  | .maxIterations, [v] =>
    match readCount? v with
    | some k => do pure { o with maxIterations := ← once o.maxIterations k }
    | none => .error (.usage (.valueInvalid v))
  | .unscaled, [] => do pure { o with unscaled := ← onceTrue o.unscaled }
  | .stepTolerance, [v] => do
    pure { o with stepTolerance := ← once o.stepTolerance (← readFloat v) }
  | .verbose, [] => do pure { o with verbose := ← onceTrue o.verbose }
  | .help, [] => .error .help
  | .version, [] => .error .version
  | _, _ => .error (.usage .valueNotTaken)

/-- Digits with at most one point behind the first of them, and at most one exponent mark between
digits. -/
def isPlainNumber (text : List Char) : Bool :=
  let (mantissa, rest) := text.span (·.toLower != 'e')
  let (whole, part) := mantissa.span Char.isDigit
  let mantissaFine :=
    match part with
    | [] => true
    | '.' :: behind => whole ≠ [] && behind.all Char.isDigit
    | _ => false
  let exponentFine :=
    match rest with
    | [] => true
    | _ :: exponent => mantissa ≠ [] && exponent ≠ [] && exponent.all Char.isDigit
  mantissaFine && exponentFine

/-- Whether an argument is a value of an option that waits for one. -/
def isValue (opt : Opt) (argument : List Char) : Bool :=
  match argument with
  | '-' :: c :: rest => opt.takesNegatives && isPlainNumber (c :: rest)
  | _ => true

/-- What has been read, and the option that still waits for values. -/
structure Reading where
  options : Options := {}
  waiting : Option (Opt × List String) := none
  closed : Bool := false

/-- An option, with a value in the same argument if there is one. -/
def begin (r : Reading) (opt : Opt) (attached : Option String) : Except Stop Reading :=
  match attached with
  | some v => do pure { r with options := ← give r.options opt [v] }
  | none =>
    if opt.valueCount = 0 then do pure { r with options := ← give r.options opt [] }
    else pure { r with waiting := some (opt, []) }

/-- Letters after one dash: options without values, of which the last may be one with a value. -/
def readLetters (r : Reading) (argument : String) : List Char → Except Stop Reading
  | [] => .ok r
  | c :: rest =>
    match Opt.short? c with
    | none => .error (.usage (.unexpected argument))
    | some opt =>
      if opt.valueCount = 0 then do readLetters (← begin r opt none) argument rest
      else
        match rest with
        | [] => begin r opt none
        | '=' :: value => begin r opt (some (String.ofList value))
        | value => begin r opt (some (String.ofList value))

/-- A name after two dashes, with a value after an equals sign if there is one. -/
def readName (r : Reading) (argument : String) (text : List Char) : Except Stop Reading :=
  let (name, rest) := text.span (· != '=')
  match Opt.long? name with
  | none => .error (.usage (.unexpected argument))
  | some opt =>
    match rest with
    | [] => begin r opt none
    | _ :: value => begin r opt (some (String.ofList value))

def read (r : Reading) (argument : String) : Except Stop Reading :=
  if r.closed then .error (.usage (.unexpected argument))
  else
    match r.waiting with
    | some (opt, values) =>
      if isValue opt argument.toList then
        let values := values ++ [argument]
        if values.length < opt.valueCount then pure { r with waiting := some (opt, values) }
        else do pure { r with options := ← give r.options opt values, waiting := none }
      else .error (.usage .valuesMissing)
    | none =>
      match argument.toList with
      | ['-', '-'] => pure { r with closed := true }
      | '-' :: '-' :: text => readName r argument text
      | '-' :: c :: rest => readLetters r argument (c :: rest)
      | _ => .error (.usage (.unexpected argument))

def parse (arguments : List String) : Except Stop Options := do
  let r ← arguments.foldlM read {}
  if r.waiting.isSome then .error (.usage .valuesMissing) else pure r.options

end Arguments

end RootFinder
