import DeskCalculator.Proofs.Decimal.Correctness
import DeskCalculator.Proofs.Decimal.Numeral
import DeskCalculator.Proofs.Decimal.Places
import DeskCalculator.Proofs.Operand.RoundTrip

/-!
# What texts denote

* `Decimal.toRat_eq`, `Decimal.toRat_digits` : the exact value of a decimal by its places and by its
  digits; `Decimal.layout_eq` : so equal values have the same digits around the same point;
* `Binary64.toRat` : the exact value of a finite number; `Decimal.toRat_exact`;
* `denoted?` : the number that a text denotes, if any; `denoted?_parts` : that of digits, a point and
  digits, and a power of ten;
* `denoted?_positional`, `denoted?_exponential` : the layouts of a decimal denote it.
-/

namespace DeskCalculator

/-! ## Exact values -/

namespace Decimal

variable {d e : Decimal}

theorem toRat_eq (hexp : -1074 ≤ d.exponent) : d.toRat = d.places / 10 ^ 1074 := by
  obtain ⟨n, hn⟩ : ∃ n : Nat, d.exponent = n - (1074 : Nat) := ⟨(d.exponent + 1074).toNat, by omega⟩
  rw [toRat, places, hn, show ((n : ℤ) - (1074 : Nat) + 1074).toNat = n by omega,
    zpow_sub₀ (by norm_num), zpow_natCast, zpow_natCast, Nat.cast_mul, Nat.cast_pow, Nat.cast_ofNat,
    mul_div_assoc]

theorem toRat_exact (rank : Nat) : (exact rank).toRat = magnitude rank := by
  have hten : (10 : ℚ) ^ 1074 = 2 ^ 1074 * 5 ^ 1074 := by
    rw [← mul_pow]
    congr 1
    norm_num
  rw [toRat_eq (Int.le_refl _), places_exact, coefficient_exact, magnitude, Nat.cast_mul, hten]
  simp only [Nat.cast_pow, Nat.cast_ofNat]
  exact mul_div_mul_right _ _ (pow_ne_zero 1074 (by norm_num))

/-- The digits count from the place of the last one. -/
theorem toRat_digits (d : Decimal) :
    (⟨Nat.ofDigitChars 10 d.digits 0, d.point - d.digits.length⟩ : Decimal).toRat = d.toRat := by
  have hlength := d.length_digits_le
  have hpoint : d.point - d.digits.length = d.exponent +
      ((decimalDigits d.coefficient).length - d.digits.length : Nat) := by
    unfold point
    omega
  unfold toRat
  conv => rhs; rw [← d.ofDigitChars_digits]
  dsimp only
  rw [hpoint, zpow_add₀ (by norm_num), zpow_natCast]
  push_cast
  ring

theorem layout_eq_of_le (hle : d.exponent ≤ e.exponent) (he : e.coefficient ≠ 0)
    (h : d.toRat = e.toRat) : d.digits = e.digits ∧ d.point = e.point := by
  obtain ⟨n, hn⟩ : ∃ n : Nat, e.exponent = n + d.exponent :=
    ⟨(e.exponent - d.exponent).toNat, by omega⟩
  have hcoefficient : d.coefficient = e.coefficient * 10 ^ n := by
    have hpower : (10 : ℚ) ^ d.exponent ≠ 0 := by positivity
    rw [toRat, toRat, hn, zpow_add₀ (by norm_num), zpow_natCast, ← mul_assoc,
      mul_left_inj' hpower] at h
    exact_mod_cast h
  constructor
  · rw [digits, hcoefficient, decimalDigits_mul_pow he, trimZeros_append_replicate, digits]
  · rw [point, hcoefficient, length_decimalDigits_mul_pow he, point, hn]
    omega

/-- Decimals of the same value have the same digits around the same point. -/
theorem layout_eq (hd : d.coefficient ≠ 0) (he : e.coefficient ≠ 0) (h : d.toRat = e.toRat) :
    d.digits = e.digits ∧ d.point = e.point := by
  rcases Int.le_total d.exponent e.exponent with hle | hge
  · exact layout_eq_of_le hle he h
  · exact (layout_eq_of_le hge hd h.symm).imp Eq.symm Eq.symm

end Decimal

namespace Binary64

/-- The exact value of a finite number. -/
def toRat : Binary64 → ℚ
  | .finite negative rank => if negative then -magnitude rank else magnitude rank
  | _ => 0

theorem abs_toRat (negative : Bool) (rank : Fin finiteRanks) :
    |toRat (.finite negative rank)| = magnitude rank := by
  have hnonneg := magnitude_nonneg rank
  cases negative
  · exact abs_of_nonneg hnonneg
  · exact (abs_neg _).trans (abs_of_nonneg hnonneg)

end Binary64

theorem magnitude_pos {rank : Nat} (h : rank ≠ 0) : 0 < magnitude rank :=
  lt_of_le_of_lt (magnitude_nonneg 0) (magnitude_lt_magnitude_iff.2 (Nat.pos_of_ne_zero h))

/-! ## Texts -/

/-- Splits a point and digits off, if they are there; there may be no digits behind the point. -/
def Numeral.splitPoint (cs : List Char) : List Char × List Char :=
  match cs with
  | '.' :: more => more.span isDigit
  | _ => ([], cs)

/-- The number that a text denotes: digits, then optionally a point and digits, then optionally a
power of ten, behind a minus sign or none. -/
def denoted? (text : List Char) : Option ℚ :=
  let (negative, unsigned) := Numeral.splitSign false text
  let (whole, rest) := unsigned.span isDigit
  let (fraction, rest) := Numeral.splitPoint rest
  let (power, rest) := Numeral.splitPower rest
  if whole.isEmpty || !rest.isEmpty then none
  else
    let value := (Decimal.ofParts whole fraction (power.getD 0)).toRat
    some (if negative then -value else value)

example : denoted? "-12.50e+2".toList = some (-1250) := by decide +kernel

theorem denoted?_zero : denoted? ['0'] = some 0 := by
  have hvalue : (Decimal.ofParts ['0'] [] 0).toRat = 0 := zero_mul _
  show some (Decimal.ofParts ['0'] [] 0).toRat = some 0
  rw [hvalue]

section Parts

variable {whole tail : List Char} {power : Option Int}

/-- Digits before and after a point and a power of ten denote what they count. -/
theorem denoted?_parts (fraction : Option (List Char)) (hwhole : ∀ c ∈ whole, isDigit c = true)
    (hne : whole ≠ []) (hfraction : ∀ ds ∈ fraction, ∀ c ∈ ds, isDigit c = true)
    (hpower : Numeral.splitPower tail = (power, []))
    (htail : ∀ c ∈ tail.head?, isDigit c = false ∧ c ≠ '.') (negative : Bool) :
    denoted? (signed negative (whole ++ (Numeral.fractionText fraction ++ tail))) =
      some (if negative then -(Decimal.ofParts whole (fraction.getD []) (power.getD 0)).toRat
        else (Decimal.ofParts whole (fraction.getD []) (power.getD 0)).toRat) := by
  have hsplit : Numeral.splitPoint (Numeral.fractionText fraction ++ tail) =
      (fraction.getD [], tail) := by
    cases fraction with
    | some ds => exact span_digits (hfraction ds rfl) fun c hc => (htail c hc).1
    | none =>
      show Numeral.splitPoint tail = _
      unfold Numeral.splitPoint
      split
      · exact absurd rfl (htail '.' rfl).2
      · rfl
  have hrest : ∀ c ∈ (Numeral.fractionText fraction ++ tail).head?, isDigit c = false := by
    cases fraction with
    | none => exact fun c hc => (htail c hc).1
    | some ds =>
      intro c hc
      obtain rfl := Option.some.inj hc
      rfl
  have hhead : ∃ c ∈ (whole ++ (Numeral.fractionText fraction ++ tail)).head?,
      isDigit c = true := by
    refine ⟨whole.head hne, ?_, hwhole _ (List.head_mem hne)⟩
    rw [List.head?_append, List.head?_eq_some_head hne]
    rfl
  unfold denoted?
  rw [Numeral.splitSign_signed hhead]
  dsimp only
  rw [span_digits hwhole hrest]
  dsimp only
  rw [hsplit]
  dsimp only
  rw [hpower, List.isEmpty_eq_false_iff.2 hne]
  rfl

end Parts

/-! ## Layouts -/

theorem denoted?_literal (l : Literal) (hwhole : l.hasPoint = true → l.whole ≠ [])
    (negative : Bool) :
    denoted? (signed negative l.text) =
      some (if negative then -l.decimal.toRat else l.decimal.toRat) := by
  have hlast : ∀ ds ∈ some l.last, ∀ c ∈ ds, isDigit c = true := by
    rintro ds ⟨⟩
    exact l.last_digits
  have hnone : Numeral.splitPower [] = (none, []) := rfl
  unfold Literal.text Literal.decimal
  cases hpoint : l.hasPoint with
  | true =>
    have hparts := denoted?_parts (some l.last) l.whole_digits (hwhole hpoint) hlast hnone (by simp)
      negative
    simpa [Numeral.fractionText, Decimal.ofParts] using hparts
  | false =>
    have hdigits := List.forall_mem_append.2 ⟨l.whole_digits, l.last_digits⟩
    have hne : l.whole ++ l.last ≠ [] := by simp [l.last_ne_nil]
    have hparts := denoted?_parts none hdigits hne (by simp) hnone (by simp) negative
    simpa [Numeral.fractionText, Decimal.ofParts] using hparts

namespace Decimal

variable {d : Decimal}

/-- A decimal in positional layout is the text of its value. -/
theorem denoted?_positional (hexp : -1074 ≤ d.exponent) (hd : d.coefficient ≠ 0) (negative : Bool) :
    denoted? (signed negative (positional d.digits d.point)) =
      some (if negative then -d.toRat else d.toRat) := by
  obtain ⟨l, htext, hwhole, -, hlexp, hplaces⟩ := exists_literal_places hexp hd
  rw [← htext, denoted?_literal l hwhole, toRat_eq hlexp, toRat_eq hexp, hplaces]

/-- Digits, a point behind the first of them, and a power of ten. -/
theorem denoted?_power (fraction : Option (List Char)) {first : Char} {rest : List Char}
    (hdigits : ∀ c ∈ first :: rest, isDigit c = true) (hfraction : fraction.getD [] = rest)
    (width : Nat) (point : Int) (negative : Bool) :
    denoted? (signed negative
        ([first] ++ (Numeral.fractionText fraction ++ exponentText width (point - 1)))) =
      some (if negative then
          -(⟨Nat.ofDigitChars 10 (first :: rest) 0, point - (first :: rest).length⟩ : Decimal).toRat
        else
          (⟨Nat.ofDigitChars 10 (first :: rest) 0,
            point - (first :: rest).length⟩ : Decimal).toRat) := by
  obtain ⟨hfirst, hrest⟩ := List.forall_mem_cons.1 hdigits
  have hwhole : ∀ c ∈ [first], isDigit c = true := List.forall_mem_singleton.2 hfirst
  have hdigits : ∀ ds ∈ fraction, ∀ c ∈ ds, isDigit c = true := by
    rintro ds ⟨⟩
    exact fun c hc => hrest c (hfraction ▸ hc)
  have hhead : ∀ c ∈ (exponentText width (point - 1)).head?, isDigit c = false ∧ c ≠ '.' := by
    rintro c ⟨⟩
    exact ⟨rfl, by decide⟩
  have hvalue : Decimal.ofParts [first] (fraction.getD []) ((some (point - 1)).getD 0) =
      ⟨Nat.ofDigitChars 10 (first :: rest) 0, point - (first :: rest).length⟩ := by
    rw [hfraction, ofParts, List.length_cons, Option.getD_some]
    congr 1
    omega
  rw [denoted?_parts fraction hwhole (List.cons_ne_nil _ _) hdigits
    (Numeral.splitPower_exponentText width (point - 1)) hhead, hvalue]

/-- So is a decimal in exponential layout, also with a point behind a single digit. -/
theorem denoted?_exponential (hd : d.coefficient ≠ 0) (width : Nat) (negative : Bool) :
    denoted? (signed negative (exponential width d.digits d.point)) =
        some (if negative then -d.toRat else d.toRat) ∧
      ∀ c, d.digits = [c] →
        denoted? (signed negative (c :: '.' :: exponentText width (d.point - 1))) =
          some (if negative then -d.toRat else d.toRat) := by
  have hdigits : ∀ c ∈ d.digits, isDigit c = true := fun c => d.isDigit_of_mem_digits
  obtain ⟨first, rest, hsplit⟩ := List.exists_cons_of_ne_nil (digits_ne_nil hd)
  rw [← toRat_digits d]
  rw [hsplit] at hdigits ⊢
  constructor
  · cases rest with
    | nil => exact denoted?_power none hdigits rfl width d.point negative
    | cons second rest =>
      exact denoted?_power (some (second :: rest)) hdigits rfl width d.point negative
  · rintro c ⟨⟩
    exact denoted?_power (some []) hdigits rfl width d.point negative

end Decimal

end DeskCalculator
