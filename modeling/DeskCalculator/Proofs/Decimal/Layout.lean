import DeskCalculator.Proofs.Decimal.Pattern

/-!
# Layouts of decimals in writing

* `plain_positional`, `scientific_exponential`, `dangling_exponential` : the shapes of the layouts;
* `positional_ofParts` : a plain text is the positional layout of the decimal that its digits count;
* `IsPlainTextOf y text` : the text is plain and denotes `y`; `Decimal.isPlainTextOf_positional` : a
  decimal in positional layout is one of its value; `IsPlainTextOf.eq` : a number other than zero has
  one only.
-/

namespace DeskCalculator

open Pattern

/-! ## Shapes of layouts -/

theorem getLast?_append_of_ne_nil (xs : List Char) {ys : List Char} (h : ys ≠ []) :
    (xs ++ ys).getLast? = ys.getLast? := by
  rw [List.getLast?_append, List.getLast?_eq_some_getLast h, Option.some_or]

section Shapes

variable {digits : List Char} (hdigits : ∀ c ∈ digits, isDigit c = true) (hne : digits ≠ [])
  (hhead : digits.head? ≠ some '0') (hlast : digits.getLast? ≠ some '0')

include hdigits hne hhead hlast

/-- Digits around a point, with no needless zero at either end. -/
theorem plain_positional (point : Int) (negative : Bool) :
    signed negative (positional digits point) ∈ plain.matches' := by
  have hzeros : ∀ n, ∀ c ∈ List.replicate n '0', isDigit c = true := by
    intro n c hc
    rw [List.eq_of_mem_replicate hc]
    rfl
  rw [mem_plain_iff]
  refine ⟨negative, ?_⟩
  suffices h : ∃ before ∈ whole.matches', ∃ after ∈ fraction.matches',
      positional digits point = before ++ after by
    obtain ⟨before, hbefore, after, hafter, heq⟩ := h
    exact ⟨before, hbefore, after, hafter, by rw [heq]⟩
  unfold positional
  split
  · refine ⟨['0'], mem_whole_iff.2 (.inl rfl), _,
      mem_fraction_iff.2 ⟨some (List.replicate (-point).toNat '0' ++ digits), rfl, ?_⟩, rfl⟩
    rintro _ ⟨⟩
    refine ⟨List.forall_mem_append.2 ⟨hzeros _, hdigits⟩, by simp [hne], ?_⟩
    rwa [getLast?_append_of_ne_nil _ hne]
  · rename_i hlarge
    dsimp only
    split
    · refine ⟨_, mem_whole_iff.2 (.inr ⟨?_, by simp [hne], ?_⟩), [],
        mem_fraction_iff.2 ⟨none, rfl, nofun⟩, (List.append_nil _).symm⟩
      · exact List.forall_mem_append.2 ⟨hdigits, hzeros _⟩
      · rwa [List.head?_append, List.head?_eq_some_head hne, Option.some_or,
          ← List.head?_eq_some_head hne]
    · rename_i hfraction
      refine ⟨digits.take point.toNat, mem_whole_iff.2 (.inr ⟨?_, ?_, ?_⟩), _,
        mem_fraction_iff.2 ⟨some (digits.drop point.toNat), rfl, ?_⟩, rfl⟩
      · exact fun c hc => hdigits c (List.mem_of_mem_take hc)
      · rw [ne_eq, List.take_eq_nil_iff, not_or]
        exact ⟨by omega, hne⟩
      · rwa [List.head?_take, if_neg (by omega)]
      · rintro _ ⟨⟩
        refine ⟨fun c hc => hdigits c (List.mem_of_mem_drop hc), ?_, ?_⟩
        · rw [ne_eq, List.drop_eq_nil_iff]
          omega
        · rwa [List.getLast?_drop, if_neg (by omega)]

omit hdigits hne hhead hlast in
theorem power_exponentText {p : Int} (hp : p ≠ 0) : exponentText 1 p ∈ power.matches' := by
  have hpos : 1 ≤ (decimalDigits p.natAbs).length := Nat.length_toDigits_pos
  refine mem_power_iff.2 ⟨if p < 0 then '-' else '+', decimalDigits p.natAbs, ?_, ?_, ?_, ?_, ?_⟩
  · unfold exponentText
    dsimp only
    rw [Nat.sub_eq_zero_of_le hpos, List.replicate_zero, List.nil_append]
  · split
    · exact .inr rfl
    · exact .inl rfl
  · exact fun c hc => isDigit_of_mem_decimalDigits hc
  · exact Nat.toDigits_ne_nil
  · exact head?_decimalDigits_ne (Int.natAbs_ne_zero.2 hp)

/-- A digit, the others after a point, and a power of ten other than one. -/
theorem scientific_exponential {point : Int} (hpoint : point ≠ 1) (negative : Bool) :
    signed negative (exponential 1 digits point) ∈ scientific.matches' := by
  have hpower := power_exponentText (sub_ne_zero.2 hpoint)
  obtain ⟨first, rest, rfl⟩ := List.exists_cons_of_ne_nil hne
  obtain ⟨hfirst, hrest⟩ := List.forall_mem_cons.1 hdigits
  have hnonzero : first ≠ '0' := fun heq => hhead (congrArg some heq)
  refine mem_scientific_iff.2 ⟨negative, first, ?_⟩
  cases rest with
  | nil =>
    exact ⟨[], mem_fraction_iff.2 ⟨none, rfl, nofun⟩, _, hpower, hfirst, hnonzero, rfl⟩
  | cons second rest =>
    refine ⟨'.' :: second :: rest, mem_fraction_iff.2 ⟨some (second :: rest), rfl, ?_⟩, _, hpower,
      hfirst, hnonzero, rfl⟩
    rintro _ ⟨⟩
    refine ⟨hrest, List.cons_ne_nil _ _, ?_⟩
    rwa [List.getLast?_cons_cons] at hlast

omit hne hlast in
/-- A single digit, the point behind it, and a power of ten other than one. -/
theorem dangling_exponential {c : Char} (hc : digits = [c]) {point : Int} (hpoint : point ≠ 1)
    (negative : Bool) :
    signed negative (c :: '.' :: exponentText 1 (point - 1)) ∈ dangling.matches' := by
  subst hc
  refine mem_dangling_iff.2 ⟨negative, c, _, power_exponentText (sub_ne_zero.2 hpoint), ?_, ?_,
    rfl⟩
  · exact hdigits c (List.mem_singleton_self c)
  · exact fun heq => hhead (congrArg some heq)

end Shapes

/-! ## One plain text -/

namespace Decimal

/-- The digits of a spelling without a zero in front. -/
theorem layout_of_coefficient {d : Decimal} {ds : List Char} (hdigits : ∀ c ∈ ds, isDigit c = true)
    (hne : ds ≠ []) (hhead : ds.head? ≠ some '0') (h : d.coefficient = Nat.ofDigitChars 10 ds 0) :
    d.digits = trimZeros ds ∧ d.point = ds.length + d.exponent := by
  unfold digits point
  rw [h, decimalDigits_ofDigitChars hdigits hne hhead]
  exact ⟨rfl, rfl⟩

/-- Zeros before and after the point, and then the digits. -/
theorem positional_fraction {ds : List Char} (h : EndsProperly ds) :
    positional (ofParts ['0'] ds 0).digits (ofParts ['0'] ds 0).point = '0' :: '.' :: ds := by
  obtain ⟨hdigits, hne, hlast⟩ := h
  obtain ⟨zeros, rest, rfl, hhead⟩ := exists_zeros_append ds
  have hrest : rest ≠ [] := by
    rintro rfl
    rw [List.append_nil] at hne hlast
    rw [List.getLast?_eq_some_getLast hne, List.getLast_replicate] at hlast
    exact hlast rfl
  rw [getLast?_append_of_ne_nil _ hrest] at hlast
  have hvalue : (ofParts ['0'] (List.replicate zeros '0' ++ rest) 0).coefficient =
      Nat.ofDigitChars 10 rest 0 := by
    show Nat.ofDigitChars 10 (['0'] ++ (List.replicate zeros '0' ++ rest)) 0 = _
    rw [List.singleton_append, Nat.ofDigitChars_cons, Nat.ofDigitChars_append,
      Nat.ofDigitChars_replicate_zero]
    simp
  obtain ⟨hd, hpoint⟩ := layout_of_coefficient (fun c hc => hdigits c (List.mem_append_right _ hc))
    hrest hhead hvalue
  have hexp : (ofParts ['0'] (List.replicate zeros '0' ++ rest) 0).exponent =
      -((zeros + rest.length : Nat) : Int) := by
    simp [ofParts]
  rw [hd, hpoint, hexp, trimZeros_eq_self hlast]
  unfold positional
  rw [if_pos (by omega), show (-((rest.length : Int) + -((zeros + rest.length : Nat) : Int))).toNat =
    zeros by omega]

theorem positional_whole {before : List Char} (hdigits : ∀ c ∈ before, isDigit c = true)
    (hne : before ≠ []) (hhead : before.head? ≠ some '0') :
    positional (ofParts before [] 0).digits (ofParts before [] 0).point = before := by
  have hpos := List.length_pos_iff.2 hne
  have hvalue : (ofParts before [] 0).coefficient = Nat.ofDigitChars 10 before 0 := by
    rw [ofParts, List.append_nil]
  obtain ⟨hd, hpoint⟩ := layout_of_coefficient hdigits hne hhead hvalue
  have hexp : (ofParts before [] 0).exponent = 0 := rfl
  rw [hd, hpoint, hexp, Int.add_zero]
  unfold positional
  rw [if_neg (by omega)]
  dsimp only
  rw [Int.toNat_natCast, if_pos (length_trimZeros_le before), trimZeros_append]

theorem positional_mixed {before ds : List Char} (hdigits : ∀ c ∈ before, isDigit c = true)
    (hne : before ≠ []) (hhead : before.head? ≠ some '0') (h : EndsProperly ds) :
    positional (ofParts before ds 0).digits (ofParts before ds 0).point = before ++ '.' :: ds := by
  obtain ⟨hds, hdsne, hlast⟩ := h
  have hpos := List.length_pos_iff.2 hne
  have hdspos := List.length_pos_iff.2 hdsne
  have hfirst : (before ++ ds).head? ≠ some '0' := by
    rwa [List.head?_append, List.head?_eq_some_head hne, Option.some_or,
      ← List.head?_eq_some_head hne]
  obtain ⟨hd, hpoint⟩ := layout_of_coefficient (d := ofParts before ds 0)
    (List.forall_mem_append.2 ⟨hdigits, hds⟩) (by simp [hne]) hfirst rfl
  have hexp : (ofParts before ds 0).exponent = -(ds.length : Int) := Int.zero_sub _
  rw [← getLast?_append_of_ne_nil before hdsne] at hlast
  rw [hd, hpoint, hexp, trimZeros_eq_self hlast, List.length_append, Nat.cast_add,
    Int.add_neg_cancel_right]
  unfold positional
  rw [if_neg (by omega)]
  dsimp only
  rw [Int.toNat_natCast, if_neg (by rw [List.length_append]; omega), List.take_left, List.drop_left]

end Decimal

/-- A plain text is the positional layout of the decimal that its digits count. -/
theorem positional_ofParts {before : List Char} {after : Option (List Char)}
    (hbefore : before ∈ whole.matches') (hafter : ∀ ds ∈ after, EndsProperly ds)
    (hne : (Decimal.ofParts before (after.getD []) 0).coefficient ≠ 0) :
    positional (Decimal.ofParts before (after.getD []) 0).digits
      (Decimal.ofParts before (after.getD []) 0).point = before ++ Numeral.fractionText after := by
  rcases mem_whole_iff.1 hbefore with rfl | ⟨hdigits, hnil, hhead⟩
  · cases after with
    | none => exact absurd rfl hne
    | some ds => exact Decimal.positional_fraction (hafter ds rfl)
  · cases after with
    | none => exact (Decimal.positional_whole hdigits hnil hhead).trans (List.append_nil _).symm
    | some ds => exact Decimal.positional_mixed hdigits hnil hhead (hafter ds rfl)

/-- A plain text of a number. -/
def IsPlainTextOf (y : ℚ) (text : List Char) : Prop :=
  text ∈ plain.matches' ∧ denoted? text = some y

namespace IsPlainTextOf

variable {y : ℚ} {a b text : List Char}

/-- It is the sign and the positional layout of the magnitude. -/
theorem exists_decimal (h : IsPlainTextOf y text) (hy : y ≠ 0) :
    ∃ d : Decimal, d.coefficient ≠ 0 ∧ d.toRat = |y| ∧
      text = signed (decide (y < 0)) (positional d.digits d.point) := by
  obtain ⟨hplain, hvalue⟩ := h
  obtain ⟨negative, before, hbefore, _, hafter, rfl⟩ := mem_plain_iff.1 hplain
  obtain ⟨after, rfl, hends⟩ := mem_fraction_iff.1 hafter
  have hbeforeDigits : ∀ c ∈ before, isDigit c = true := by
    rcases mem_whole_iff.1 hbefore with rfl | ⟨hall, -⟩
    · exact List.forall_mem_singleton.2 rfl
    · exact hall
  have hbeforeNe : before ≠ [] := by
    rcases mem_whole_iff.1 hbefore with rfl | ⟨-, hne, -⟩
    · exact List.cons_ne_nil _ _
    · exact hne
  have hnone : Numeral.splitPower [] = (none, []) := rfl
  have hparts := denoted?_parts after hbeforeDigits hbeforeNe (fun ds hds => (hends ds hds).1) hnone
    nofun negative
  rw [List.append_nil, Option.getD_none] at hparts
  rw [hparts] at hvalue
  obtain rfl := Option.some.inj hvalue
  have hd : (Decimal.ofParts before (after.getD []) 0).coefficient ≠ 0 := by
    intro hzero
    have htoRat : (Decimal.ofParts before (after.getD []) 0).toRat = 0 := by
      rw [Decimal.toRat, hzero, Nat.cast_zero, zero_mul]
    rw [htoRat, neg_zero, ite_self] at hy
    exact hy rfl
  have hpos := Decimal.toRat_pos hd
  refine ⟨_, hd, ?_, ?_⟩
  · cases negative
    · exact (abs_of_pos hpos).symm
    · exact ((abs_neg _).trans (abs_of_pos hpos)).symm
  · rw [positional_ofParts hbefore hends hd]
    cases negative
    · rw [if_neg Bool.false_ne_true, decide_eq_false (not_lt.2 (le_of_lt hpos))]
    · rw [if_pos rfl, decide_eq_true (neg_neg_of_pos hpos)]

/-- **A number other than zero has one plain text.** -/
theorem eq (ha : IsPlainTextOf y a) (hb : IsPlainTextOf y b) (hy : y ≠ 0) : a = b := by
  obtain ⟨d, hd, hdvalue, rfl⟩ := ha.exists_decimal hy
  obtain ⟨e, he, hevalue, rfl⟩ := hb.exists_decimal hy
  obtain ⟨hdigits, hpoint⟩ := Decimal.layout_eq hd he (hdvalue.trans hevalue.symm)
  rw [hdigits, hpoint]

end IsPlainTextOf

/-- A decimal in positional layout is the plain text of its value. -/
theorem Decimal.isPlainTextOf_positional {d : Decimal} (hexp : -1074 ≤ d.exponent)
    (hd : d.coefficient ≠ 0) (negative : Bool) :
    IsPlainTextOf (if negative then -d.toRat else d.toRat)
      (signed negative (positional d.digits d.point)) :=
  ⟨plain_positional (fun _ => d.isDigit_of_mem_digits) (digits_ne_nil hd) (head?_digits_ne hd)
    (getLast?_trimZeros_ne _) d.point negative, denoted?_positional hexp hd negative⟩

end DeskCalculator
