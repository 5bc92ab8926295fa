import Mathlib.Data.List.Basic
import Mathlib.Data.List.TakeDrop
import Mathlib.Algebra.Order.Ring.Nat
import RootFinder.Decimal.Literal
import RootFinder.Decimal.Text

/-! Numbers as text and back. The digits of a number read as the number, whether or not zeros are
put in front of them; a number with a point after its first digit and an exponent behind it reads
as that number and exponent. -/

namespace RootFinder.Decimal

open Literal

theorem isDigit_of_mem_digits {n : Nat} {d : Char} (h : d ∈ digits n) : d.isDigit = true :=
  Nat.isDigit_of_mem_toDigits (by decide) (by decide) h

theorem head?_digits_ne_zero {n : Nat} (hn : 0 < n) : (digits n).head? ≠ some '0' := by
  induction n using Nat.strongRecOn with
  | ind n ih =>
    rw [digits, Nat.toDigits_eq_if (by decide)]
    by_cases hlt : n < 10
    · have hdigit : ∀ k < 10, 0 < k → k.digitChar ≠ '0' := by decide
      rw [if_pos hlt, List.head?_cons]
      exact fun h => hdigit n hlt hn (Option.some.inj h)
    · rw [if_neg hlt, List.head?_append_of_ne_nil _ Nat.toDigits_ne_nil]
      exact ih (n / 10) (by omega) (by omega)

theorem length_digits_le_iff {n k : Nat} (hk : 0 < k) : (digits n).length ≤ k ↔ n < 10 ^ k :=
  Nat.length_toDigits_le_iff (by decide) hk

theorem digits_le {n : Nat} (hn : 0 < n) : 10 ^ ((digits n).length - 1) ≤ n := by
  by_cases hone : (digits n).length = 1
  · rw [hone]
    exact hn
  · have hpos : 0 < (digits n).length := Nat.length_toDigits_pos
    by_contra hlt
    have hle := (length_digits_le_iff (by omega)).mpr (not_le.mp hlt)
    omega

theorem lt_digits (n : Nat) : n < 10 ^ (digits n).length :=
  (length_digits_le_iff Nat.length_toDigits_pos).mp le_rfl

theorem isDigit_of_mem_padded {width n : Nat} {d : Char} (h : d ∈ padded width n) :
    d.isDigit = true := by
  rcases List.mem_append.mp h with h | h
  · rw [List.eq_of_mem_replicate h]
    decide
  · exact isDigit_of_mem_digits h

theorem length_padded (width n : Nat) :
    (padded width n).length = max width (digits n).length := by
  rw [padded, List.length_append, List.length_replicate]
  omega

theorem ofDigits_padded (width n : Nat) : ofDigits (padded width n) = n := by
  have h : Nat.ofDigitChars 10 (padded width n) 0 = n := by
    rw [padded, Nat.ofDigitChars_append, Nat.ofDigitChars_replicate_zero, Nat.mul_zero]
    exact Nat.ofDigitChars_ten_toDigits
  rwa [Nat.ofDigitChars_eq_foldl] at h

/-- There are no zeros in front but those that the width asks for. -/
theorem head?_padded_ne_zero {width n : Nat} (hwidth : 0 < width)
    (h : width < (padded width n).length) : (padded width n).head? ≠ some '0' := by
  have hlong : width < (digits n).length := by
    rw [length_padded] at h
    omega
  have hn : 0 < n := by
    by_contra hzero
    have hle := (length_digits_le_iff hwidth).mpr
      ((Nat.eq_zero_of_not_pos hzero).trans_lt (Nat.pow_pos (by decide)))
    omega
  rw [padded, Nat.sub_eq_zero_of_le hlong.le]
  exact head?_digits_ne_zero hn

theorem ofDigits_cons (d : Char) (ds : List Char) :
    ofDigits (d :: ds) = 10 ^ ds.length * (d.toNat - '0'.toNat) + ofDigits ds := by
  have h : Nat.ofDigitChars 10 (d :: ds) 0 =
      10 ^ ds.length * (d.toNat - '0'.toNat) + Nat.ofDigitChars 10 ds 0 := by
    rw [Nat.ofDigitChars_cons, Nat.mul_zero, Nat.zero_add]
    exact Nat.ofDigitChars_eq_ofDigitChars_zero
  rwa [Nat.ofDigitChars_eq_foldl, Nat.ofDigitChars_eq_foldl] at h

theorem ofDigits_lt {ds : List Char} (h : ∀ d ∈ ds, d.isDigit = true) :
    ofDigits ds < 10 ^ ds.length := by
  induction ds with
  | nil => decide
  | cons d ds ih =>
    have hrest := ih fun c hc => h c (List.mem_cons_of_mem d hc)
    have hdigit : d.toNat - '0'.toNat ≤ 9 := by
      have hnine : '9'.toNat = '0'.toNat + 9 := rfl
      have hd := Char.isDigit_iff_toNat.mp (h d List.mem_cons_self)
      omega
    rw [ofDigits_cons, List.length_cons, Nat.pow_succ]
    have hle := Nat.mul_le_mul_left (10 ^ ds.length) hdigit
    omega

/-- A number of at most so many places and one more digit is written with one digit in front of the
point. -/
theorem exists_pointed {places n : Nat} (hn : n < 10 ^ (places + 1)) :
    ∃ lead rest, padded (places + 1) n = lead :: rest ∧ rest.length = places ∧
      pointed places n = lead :: '.' :: rest ∧ (lead = '0' ↔ n < 10 ^ places) := by
  have hlength : (padded (places + 1) n).length = places + 1 := by
    have hle := (length_digits_le_iff (Nat.succ_pos places)).mpr hn
    rw [length_padded]
    omega
  obtain ⟨lead, rest, hpadded⟩ := List.exists_cons_of_length_eq_add_one hlength
  have hrest : rest.length = places := by
    rw [hpadded, List.length_cons] at hlength
    omega
  refine ⟨lead, rest, hpadded, hrest, ?_, ?_⟩
  · simp [pointed, hpadded, hrest]
  · have hdigits (d : Char) (hd : d ∈ lead :: rest) : d.isDigit = true :=
      isDigit_of_mem_padded (hpadded ▸ hd)
    have hlt := ofDigits_lt fun d hd => hdigits d (List.mem_cons_of_mem lead hd)
    have hvalue : 10 ^ places * (lead.toNat - '0'.toNat) + ofDigits rest = n := by
      rw [← hrest, ← ofDigits_cons, ← hpadded, ofDigits_padded]
    rw [hrest] at hlt
    constructor
    · rintro rfl
      simp only [Nat.sub_self, Nat.mul_zero, Nat.zero_add] at hvalue
      omega
    · intro hsmall
      have hnone : lead.toNat - '0'.toNat = 0 := by
        by_contra hpos
        have hle := Nat.le_mul_of_pos_right (10 ^ places) (Nat.pos_of_ne_zero hpos)
        omega
      have hlead := hdigits lead List.mem_cons_self
      rw [Char.isDigit_iff_toNat] at hlead
      exact Char.toNat_inj.mp (by omega)

theorem span_append_of_head? {p : Char → Bool} {ds rest : List Char}
    (hds : ∀ d ∈ ds, p d = true) (hrest : ∀ d ∈ rest.head?, p d = false) :
    (ds ++ rest).span p = (ds, rest) := by
  rw [List.span_eq_takeWhile_dropWhile, List.takeWhile_append_of_pos hds,
    List.dropWhile_append_of_pos hds]
  cases rest with
  | nil => simp
  | cons d rest => simp [hrest d rfl]

theorem readNat?_padded {width : Nat} (n : Nat) : readNat? (padded width n) = some n := by
  have hne : padded width n ≠ [] := by
    intro h
    have hlength := length_padded width n
    have hpos : 0 < (digits n).length := Nat.length_toDigits_pos
    rw [h, List.length_nil] at hlength
    omega
  rw [readNat?, if_pos ⟨hne, List.all_eq_true.mpr fun d hd => isDigit_of_mem_padded hd⟩,
    ofDigits_padded]

theorem readNumber?_pointed {places n : Nat} (hn : n < 10 ^ (places + 1)) {text : List Char}
    (htext : ∀ d ∈ text.head?, d.isDigit = false) :
    readNumber? (pointed places n ++ text) =
      (readExponent? text).map fun e => number n (e - places) := by
  obtain ⟨lead, rest, hpadded, hrest, hpointed, -⟩ := exists_pointed hn
  have hdigits (d : Char) (hd : d ∈ lead :: rest) : d.isDigit = true :=
    isDigit_of_mem_padded (hpadded ▸ hd)
  have hwhole : (pointed places n ++ text).span Char.isDigit = ([lead], '.' :: rest ++ text) := by
    rw [hpointed]
    have hlead : ∀ d ∈ [lead], d.isDigit = true :=
      List.forall_mem_singleton.mpr (hdigits lead List.mem_cons_self)
    exact span_append_of_head? hlead (by simp)
  have hpart : (rest ++ text).span Char.isDigit = (rest, text) :=
    span_append_of_head? (fun d hd => hdigits d (List.mem_cons_of_mem lead hd)) htext
  have hvalue : ofDigits (lead :: rest) = n := by rw [← hpadded, ofDigits_padded]
  simp only [readNumber?, hwhole, List.cons_append, List.nil_append, hpart]
  rw [if_neg (by simp), hvalue, hrest]

/-- Text that starts with a digit is no name. -/
theorem read?_of_digit {d : Char} (hd : d.isDigit = true) (text : List Char) :
    read? (d :: text) = readNumber? (d :: text) := by
  have hlower : d.toLower = d := by
    have hnine : d.toNat ≤ 57 := (Char.isDigit_iff_toNat.mp hd).2
    refine dif_neg fun hupper => ?_
    have hcapital : 65 ≤ d.toNat := UInt32.le_iff_toNat_le.mp hupper.1
    omega
  have hn : d ≠ 'n' := by
    rintro rfl
    exact absurd hd (by decide)
  have hi : d ≠ 'i' := by
    rintro rfl
    exact absurd hd (by decide)
  simp [read?, hlower, hn, hi]

end RootFinder.Decimal
