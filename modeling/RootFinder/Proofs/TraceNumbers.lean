import RootFinder.Proofs.Decimal.Doubles
import RootFinder.Trace

/-! Numbers in the trace. A finite double is printed in a fixed form, with its sign in a column of
its own and an exponent of two digits or as many as it needs; read back, the text is the double
rounded to four digits. So two doubles look the same in the trace just if they have the same sign
and round alike. -/

namespace RootFinder

open Decimal

/-- The number a literal stands for. -/
def Decimal.Literal.value? : Literal → Option ℚ
  | .number significand exponent => some (significand * 10 ^ exponent)
  | _ => none

namespace Trace

/-- The number behind a sign column. -/
def numberOf? : List Char → Option ℚ
  | ' ' :: text => (Literal.read? text).bind Literal.value?
  | '-' :: text => ((Literal.read? text).bind Literal.value?).map (-·)
  | _ => none

/-- A sign column, a digit, a point, three digits and an exponent. The exponent has a sign and two
digits, or more if the first of them is not zero. -/
structure Form where
  column : Char
  lead : Char
  places : List Char
  mark : Char
  exponent : List Char
  isDigit_lead : lead.isDigit = true
  isDigit_places : ∀ d ∈ places, d.isDigit = true
  length_places : places.length = 3
  mark_eq : mark = '+' ∨ mark = '-'
  isDigit_exponent : ∀ d ∈ exponent, d.isDigit = true
  two_le_exponent : 2 ≤ exponent.length
  head_exponent : 2 < exponent.length → exponent.head? ≠ some '0'

def Form.text (form : Form) : List Char :=
  form.column :: form.lead :: '.' :: form.places ++ 'e' :: form.mark :: form.exponent

/-- A number with its exponent signed and filled up to two digits. Text without an exponent stays as
it is. -/
def resigned (text : List Char) : List Char :=
  match text.span (· ≠ 'e') with
  | (number, 'e' :: '-' :: exponent) => number ++ 'e' :: '-' :: exponent.leftpad 2 '0'
  | (number, 'e' :: exponent) => number ++ 'e' :: '+' :: exponent.leftpad 2 '0'
  | _ => text

theorem ne_e_of_isDigit {d : Char} (h : d.isDigit = true) : d ≠ 'e' := by
  rintro rfl
  exact absurd h (by decide)

theorem ne_e_of_mem_pointed {places n : ℕ} {d : Char} (h : d ∈ pointed places n) : d ≠ 'e' := by
  simp only [pointed, List.mem_append, List.mem_cons] at h
  rcases h with h | rfl | h
  · exact ne_e_of_isDigit (isDigit_of_mem_padded (List.mem_of_mem_take h))
  · decide
  · exact ne_e_of_isDigit (isDigit_of_mem_padded (List.mem_of_mem_drop h))

theorem ne_e_of_mem_sign {negative : Bool} {d : Char} (h : d ∈ sign negative) : d ≠ 'e' := by
  cases negative with
  | false => cases h
  | true =>
    rw [List.mem_singleton.mp h]
    decide

theorem span_number {number : List Char} (hnumber : ∀ d ∈ number, d ≠ 'e') (text : List Char) :
    (number ++ 'e' :: text).span (· ≠ 'e') = (number, 'e' :: text) :=
  span_append_of_head? (by simpa using hnumber) (by simp)

theorem resigned_negative {number : List Char} (hnumber : ∀ d ∈ number, d ≠ 'e')
    (digits : List Char) :
    resigned (number ++ 'e' :: '-' :: digits) = number ++ 'e' :: '-' :: digits.leftpad 2 '0' := by
  rw [resigned, span_number hnumber]
  rfl

theorem resigned_positive {number digits : List Char} (hnumber : ∀ d ∈ number, d ≠ 'e')
    (hdigits : digits.head? ≠ some '-') :
    resigned (number ++ 'e' :: digits) = number ++ 'e' :: '+' :: digits.leftpad 2 '0' := by
  rw [resigned, span_number hnumber]
  split
  · next h =>
    cases h
    exact absurd rfl hdigits
  · next h =>
    cases h
    rfl
  · next h => exact absurd rfl (h number digits)

theorem resigned_intText {number : List Char} (hnumber : ∀ d ∈ number, d ≠ 'e') (e : ℤ) :
    resigned (number ++ 'e' :: intText e) = number ++ 'e' :: exponentText e := by
  rw [intText, exponentText]
  split_ifs with he
  · rw [decide_eq_true he]
    exact resigned_negative hnumber (digits e.natAbs)
  · rw [decide_eq_false he]
    refine resigned_positive hnumber fun h => ?_
    exact absurd (isDigit_of_mem_digits (List.mem_of_mem_head? h)) (by decide)

/-- The text is the usual one with a column for its sign and the exponent signed and filled up. -/
theorem scientific_eq_resigned (v : Float) :
    scientific v = signColumn v ++ resigned (scientificText 3 v) := by
  rw [scientific, scientificText]
  cases hq : Fraction.ofFloat? v with
  | none =>
    have hnames : resigned (nonFinite v) = nonFinite v := by
      rw [nonFinite]
      split_ifs <;> decide
    exact congrArg _ hnames.symm
  | some q =>
    have hcolumn (text : List Char) : signColumn v ++ (sign q.negative ++ text) =
        (if q.negative then '-' else ' ') :: text := by
      rw [signColumn, sign, Fraction.negative_of_ofFloat? hq]
      split_ifs <;> rfl
    have hnumber : ∀ d ∈ sign q.negative ++ pointed 3 (q.scientific 3).significand, d ≠ 'e' := by
      intro d hd
      rcases List.mem_append.mp hd with hd | hd
      · exact ne_e_of_mem_sign hd
      · exact ne_e_of_mem_pointed hd
    simp only [Fraction.scientific_negative]
    rw [resigned_intText hnumber, List.append_assoc, hcolumn, List.cons_append]

theorem readExponent?_exponentText (e : ℤ) :
    Literal.readExponent? ('e' :: exponentText e) = some e := by
  have hlower : 'e'.toLower = 'e' := by decide
  rw [exponentText]
  split_ifs with he
  · simp only [Literal.readExponent?, hlower, if_true, readNat?_padded, Option.map_some,
      Int.ofNat_eq_natCast]
    congr 1
    omega
  · simp only [Literal.readExponent?, hlower, if_true, readNat?_padded, Option.map_some,
      Int.ofNat_eq_natCast]
    congr 1
    omega

theorem read?_text {s : Scientific} {places : ℕ} (hs : s.Normal places) :
    (Literal.read? (pointed places s.significand ++ 'e' :: exponentText s.exponent)).bind
      Literal.value? = some (s.magnitude places) := by
  obtain ⟨lead, rest, hpadded, -, hpointed, -⟩ := exists_pointed hs.lt
  have hlead : lead.isDigit = true :=
    isDigit_of_mem_padded (hpadded ▸ List.mem_cons_self)
  have hmark : ∀ d ∈ ('e' :: exponentText s.exponent).head?, d.isDigit = false := by simp
  have hread := readNumber?_pointed hs.lt hmark
  rw [readExponent?_exponentText] at hread
  rw [hpointed] at hread ⊢
  rw [List.cons_append, read?_of_digit hlead, ← List.cons_append, hread]
  rfl

/-- The text of a double comes from digits and an exponent. -/
structure Shows (s : Scientific) (v : Float) : Prop where
  normal : s.Normal 3
  text_eq : scientific v = (if isNegative v then '-' else ' ') ::
    (pointed 3 s.significand ++ 'e' :: exponentText s.exponent)
  rounds : RoundsTo 3 (Double.value v) (if isNegative v then -s.magnitude 3 else s.magnitude 3)
  zero_iff : s.significand = 0 ↔ Double.value v = 0

theorem exists_shows {v : Float} (hv : v.isFinite = true) : ∃ s, Shows s v := by
  obtain ⟨q, hq, hof⟩ := Fraction.exists_ofFloat?_eq hv
  obtain ⟨hnormal, hrounds, hzero⟩ := Fraction.scientific_spec hof.den_pos 3
  have hnegative := Fraction.negative_of_ofFloat? hq
  refine ⟨q.scientific 3, hnormal, ?_, ?_, ?_⟩
  · simp only [scientific, hq, Fraction.scientific_negative, hnegative, List.cons_append]
  · rw [← hof.value_eq, Fraction.value, hnegative]
    split_ifs
    · exact hrounds.neg
    · exact hrounds
  · rw [hzero, ← hof.value_eq, Fraction.value_eq_zero_iff hof.den_pos]

namespace Shows

variable {s t : Scientific} {v w : Float}

theorem exists_form (h : Shows s v) :
    ∃ form : Form, scientific v = form.text ∧ form.column = (if isNegative v then '-' else ' ') ∧
      (form.lead = '0' ↔ Double.value v = 0) := by
  obtain ⟨lead, rest, hpadded, hrest, hpointed, hlead⟩ := exists_pointed h.normal.lt
  have hdigits (d : Char) (hd : d ∈ lead :: rest) : d.isDigit = true :=
    isDigit_of_mem_padded (hpadded ▸ hd)
  refine ⟨{
    column := if isNegative v then '-' else ' '
    lead := lead
    places := rest
    mark := if s.exponent < 0 then '-' else '+'
    exponent := padded 2 s.exponent.natAbs
    isDigit_lead := hdigits lead List.mem_cons_self
    isDigit_places := fun d hd => hdigits d (List.mem_cons_of_mem lead hd)
    length_places := hrest
    mark_eq := by split_ifs <;> simp
    isDigit_exponent := fun d hd => isDigit_of_mem_padded hd
    two_le_exponent := by
      rw [length_padded]
      exact le_max_left _ _
    head_exponent := head?_padded_ne_zero two_pos }, ?_, rfl, ?_⟩
  · rw [h.text_eq, hpointed]
    rfl
  · rw [hlead, h.normal.lt_iff, h.zero_iff]

theorem numberOf?_eq (h : Shows s v) :
    numberOf? (scientific v) = some (if isNegative v then -s.magnitude 3 else s.magnitude 3) := by
  rw [h.text_eq]
  split_ifs
  · simp only [numberOf?, read?_text h.normal, Option.map_some]
  · simp only [numberOf?, read?_text h.normal]

theorem text_congr (hv : Shows s v) (hw : Shows t w) (hsign : isNegative v = isNegative w) {r : ℚ}
    (hr : RoundsTo 3 (Double.value v) r) (hr' : RoundsTo 3 (Double.value w) r) :
    scientific v = scientific w := by
  have hvalue : s.magnitude 3 = t.magnitude 3 := by
    have hsame := (hv.rounds.unique hr).trans (hw.rounds.unique hr').symm
    rw [hsign] at hsame
    split_ifs at hsame
    · exact neg_injective hsame
    · exact hsame
  obtain ⟨hsignificand, hexponent⟩ := hv.normal.unique hw.normal hvalue
  rw [hv.text_eq, hw.text_eq, hsign, hsignificand, hexponent]

theorem isNegative_congr (hv : Shows s v) (hw : Shows t w) (h : scientific v = scientific w) :
    isNegative v = isNegative w := by
  rw [hv.text_eq, hw.text_eq] at h
  have hcolumn := List.head_eq_of_cons_eq h
  cases hsv : isNegative v <;> cases hsw : isNegative w <;> simp_all

end Shows

/-- A finite double is printed in the form, with its sign bit in the column, and only the first
digit of a zero is zero. The text reads as the double rounded to four digits, and is the usual text
with the exponent signed and filled up. So it is the same for two doubles just if they share the
sign bit and the rounding. -/
theorem scientific_finite {v : Float} (hv : v.isFinite = true) :
    (∃ form : Form, scientific v = form.text ∧ form.column = (if isNegative v then '-' else ' ') ∧
      (form.lead = '0' ↔ Double.value v = 0)) ∧
    (∃ r, numberOf? (scientific v) = some r ∧ RoundsTo 3 (Double.value v) r) ∧
    scientific v = signColumn v ++ resigned (scientificText 3 v) ∧
    ∀ w : Float, w.isFinite = true →
      (scientific v = scientific w ↔ isNegative v = isNegative w ∧
        ∃ r, RoundsTo 3 (Double.value v) r ∧ RoundsTo 3 (Double.value w) r) := by
  obtain ⟨s, hs⟩ := exists_shows hv
  refine ⟨hs.exists_form, ⟨_, hs.numberOf?_eq, hs.rounds⟩, scientific_eq_resigned v, ?_⟩
  intro w hw
  obtain ⟨t, ht⟩ := exists_shows hw
  constructor
  · intro h
    have hread := hs.numberOf?_eq.symm.trans ((congrArg numberOf? h).trans ht.numberOf?_eq)
    refine ⟨hs.isNegative_congr ht h, _, hs.rounds, ?_⟩
    rw [Option.some.inj hread]
    exact ht.rounds
  · rintro ⟨hsign, r, hr, hr'⟩
    exact hs.text_congr ht hsign hr hr'

/-- Halfway between two numbers of four digits the even one is printed, here a power of ten. -/
theorem scientific_finite_halfway :
    Float.isFinite 9999.5 = true ∧ Double.value 9999.5 = 19999 / 2 ∧
      scientific 9999.5 = [' ', '1', '.', '0', '0', '0', 'e', '+', '0', '4'] ∧
      RoundsTo 3 (19999 / 2) 10000 := by
  have hfinite : Float.isFinite 9999.5 = true := by decide +kernel
  have hvalue : Double.value 9999.5 = 19999 / 2 := by decide +kernel
  have htext : scientific 9999.5 = [' ', '1', '.', '0', '0', '0', 'e', '+', '0', '4'] := by
    decide +kernel
  have hnumber : numberOf? [' ', '1', '.', '0', '0', '0', 'e', '+', '0', '4'] = some 10000 := by
    decide +kernel
  obtain ⟨r, hread, hrounds⟩ := (scientific_finite hfinite).2.1
  rw [htext, hnumber] at hread
  rw [hvalue, ← Option.some.inj hread] at hrounds
  exact ⟨hfinite, hvalue, htext, hrounds⟩

end Trace

end RootFinder
