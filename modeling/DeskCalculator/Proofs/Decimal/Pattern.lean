import DeskCalculator.Proofs.Decimal.Denotation
import Mathlib.Computability.RegularExpressions

/-!
# Patterns of numerals

* `Pattern.plain`, `Pattern.scientific`, `Pattern.dangling` : the shapes of numbers in writing;
* `Pattern.mem_plain_iff`, `Pattern.mem_scientific_iff`, `Pattern.mem_dangling_iff` : what texts of
  these shapes are made of;
* `Pattern.not_mem_plain_of_dangling`, `Pattern.not_mem_scientific_of_dangling` : no text of the last
  shape is of one of the others.
-/

namespace DeskCalculator

namespace Pattern

open RegularExpression

/-! ## Shapes -/

/-- One of the characters. -/
def oneOf (cs : List Char) : RegularExpression Char := cs.foldr (fun c p => char c + p) 0

/-- What the pattern matches, or nothing. -/
def optional (p : RegularExpression Char) : RegularExpression Char := 1 + p

/-- `[0-9]` -/
def digit : RegularExpression Char := oneOf "0123456789".toList

/-- `[1-9]` -/
def nonzero : RegularExpression Char := oneOf "123456789".toList

/-- `(0|[1-9][0-9]*)` -/
def whole : RegularExpression Char := char '0' + nonzero * star digit

/-- `(\.[0-9]*[1-9])?` -/
def fraction : RegularExpression Char := optional (char '.' * (star digit * nonzero))

/-- `e[+-][1-9][0-9]*` -/
def power : RegularExpression Char := char 'e' * (oneOf ['+', '-'] * (nonzero * star digit))

/-- `-?(0|[1-9][0-9]*)(\.[0-9]*[1-9])?` -/
def plain : RegularExpression Char := optional (char '-') * (whole * fraction)

/-- `-?[1-9](\.[0-9]*[1-9])?e[+-][1-9][0-9]*` -/
def scientific : RegularExpression Char := optional (char '-') * (nonzero * (fraction * power))

/-- `-?[1-9]\.e[+-][1-9][0-9]*` -/
def dangling : RegularExpression Char := optional (char '-') * (nonzero * (char '.' * power))

example : "-12.05".toList ∈ plain.matches' ∧ "1.50".toList ∉ plain.matches' := by decide +kernel

/-! ## Texts of a shape -/

variable {text cs : List Char}

theorem mem_oneOf_iff {alternatives : List Char} :
    cs ∈ (oneOf alternatives).matches' ↔ ∃ c ∈ alternatives, cs = [c] := by
  induction alternatives with
  | nil => simp [oneOf, Language.notMem_zero]
  | cons a alternatives ih =>
    have hcons : cs ∈ (oneOf (a :: alternatives)).matches' ↔
        cs = [a] ∨ cs ∈ (oneOf alternatives).matches' := Iff.rfl
    rw [hcons, ih, List.exists_mem_cons_iff]

theorem mem_optional_iff {p : RegularExpression Char} :
    cs ∈ (optional p).matches' ↔ cs = [] ∨ cs ∈ p.matches' := Iff.rfl

theorem mem_mul_iff {p q : RegularExpression Char} :
    cs ∈ (p * q).matches' ↔ ∃ a ∈ p.matches', ∃ b ∈ q.matches', a ++ b = cs := Language.mem_mul

theorem mem_char_mul_iff {c : Char} {p : RegularExpression Char} :
    cs ∈ (char c * p).matches' ↔ ∃ rest ∈ p.matches', cs = c :: rest := by
  rw [mem_mul_iff]
  constructor
  · rintro ⟨_, rfl, rest, hrest, rfl⟩
    exact ⟨rest, hrest, rfl⟩
  · rintro ⟨rest, hrest, rfl⟩
    exact ⟨[c], rfl, rest, hrest, rfl⟩

theorem mem_oneOf_mul_iff {alternatives : List Char} {p : RegularExpression Char} :
    cs ∈ (oneOf alternatives * p).matches' ↔
      ∃ c ∈ alternatives, ∃ rest ∈ p.matches', cs = c :: rest := by
  rw [mem_mul_iff]
  constructor
  · rintro ⟨first, hfirst, rest, hrest, rfl⟩
    obtain ⟨c, hc, rfl⟩ := mem_oneOf_iff.1 hfirst
    exact ⟨c, hc, rest, hrest, rfl⟩
  · rintro ⟨c, hc, rest, hrest, rfl⟩
    exact ⟨[c], mem_oneOf_iff.2 ⟨c, hc, rfl⟩, rest, hrest, rfl⟩

theorem mem_digits_iff {c : Char} : c ∈ "0123456789".toList ↔ isDigit c = true := by
  have hall : "0123456789".toList.all isDigit = true := by decide
  exact ⟨List.all_eq_true.1 hall c, mem_digits_of_isDigit⟩

theorem mem_nonzero_iff {c : Char} : c ∈ "123456789".toList ↔ isDigit c = true ∧ c ≠ '0' := by
  have hall : "123456789".toList.all isDigit = true ∧ '0' ∉ "123456789".toList := by decide
  refine ⟨fun hc => ⟨List.all_eq_true.1 hall.1 c hc, ?_⟩, fun ⟨hdigit, hne⟩ => ?_⟩
  · rintro rfl
    exact hall.2 hc
  · exact List.mem_of_ne_of_mem hne (mem_digits_of_isDigit hdigit)

theorem mem_star_digit_iff : cs ∈ (star digit).matches' ↔ ∀ c ∈ cs, isDigit c = true := by
  constructor
  · intro h c hc
    obtain ⟨parts, rfl, hparts⟩ := Language.mem_kstar.1 h
    obtain ⟨part, hpart, hmem⟩ := List.mem_flatten.1 hc
    obtain ⟨d, hd, rfl⟩ := mem_oneOf_iff.1 (hparts part hpart)
    obtain rfl := List.mem_singleton.1 hmem
    exact mem_digits_iff.1 hd
  · intro h
    refine Language.mem_kstar.2 ⟨cs.map fun c => [c], ?_, ?_⟩
    · induction cs with
      | nil => rfl
      | cons c cs ih => exact congrArg (c :: ·) (ih fun d hd => h d (List.mem_cons_of_mem c hd))
    · intro part hpart
      obtain ⟨c, hc, rfl⟩ := List.mem_map.1 hpart
      exact mem_oneOf_iff.2 ⟨c, mem_digits_iff.2 (h c hc), rfl⟩

/-- Digits that begin with another one than zero. -/
theorem mem_nonzero_mul_iff {p : RegularExpression Char} : cs ∈ (nonzero * p).matches' ↔
    ∃ c rest, cs = c :: rest ∧ isDigit c = true ∧ c ≠ '0' ∧ rest ∈ p.matches' := by
  unfold nonzero
  rw [mem_oneOf_mul_iff]
  constructor
  · rintro ⟨c, hc, rest, hrest, rfl⟩
    obtain ⟨hdigit, hne⟩ := mem_nonzero_iff.1 hc
    exact ⟨c, rest, rfl, hdigit, hne, hrest⟩
  · rintro ⟨c, rest, rfl, hdigit, hne, hrest⟩
    exact ⟨c, mem_nonzero_iff.2 ⟨hdigit, hne⟩, rest, hrest, rfl⟩

theorem mem_whole_iff : cs ∈ whole.matches' ↔
    cs = ['0'] ∨ (∀ c ∈ cs, isDigit c = true) ∧ cs ≠ [] ∧ cs.head? ≠ some '0' := by
  have hsum : cs ∈ whole.matches' ↔ cs = ['0'] ∨ cs ∈ (nonzero * star digit).matches' := Iff.rfl
  rw [hsum, mem_nonzero_mul_iff]
  refine or_congr_right ⟨?_, ?_⟩
  · rintro ⟨c, rest, rfl, hdigit, hne, hrest⟩
    refine ⟨List.forall_mem_cons.2 ⟨hdigit, mem_star_digit_iff.1 hrest⟩, List.cons_ne_nil _ _, ?_⟩
    exact fun heq => hne (Option.some.inj heq)
  · rintro ⟨hdigits, hnil, hhead⟩
    obtain ⟨c, rest, rfl⟩ := List.exists_cons_of_ne_nil hnil
    obtain ⟨hdigit, hrest⟩ := List.forall_mem_cons.1 hdigits
    exact ⟨c, rest, rfl, hdigit, fun heq => hhead (congrArg some heq), mem_star_digit_iff.2 hrest⟩

/-- Digits that do not end in a zero. -/
def EndsProperly (ds : List Char) : Prop :=
  (∀ c ∈ ds, isDigit c = true) ∧ ds ≠ [] ∧ ds.getLast? ≠ some '0'

theorem mem_fraction_iff : cs ∈ fraction.matches' ↔
    ∃ ds : Option (List Char), cs = Numeral.fractionText ds ∧
      ∀ digits ∈ ds, EndsProperly digits := by
  unfold fraction
  rw [mem_optional_iff, mem_char_mul_iff]
  constructor
  · rintro (rfl | ⟨ds, hds, rfl⟩)
    · exact ⟨none, rfl, nofun⟩
    · obtain ⟨before, hbefore, last, hlast, rfl⟩ := mem_mul_iff.1 hds
      obtain ⟨c, hc, rfl⟩ := mem_oneOf_iff.1 hlast
      obtain ⟨hdigit, hne⟩ := mem_nonzero_iff.1 hc
      refine ⟨some (before ++ [c]), rfl, ?_⟩
      rintro digits ⟨⟩
      refine ⟨?_, by simp, by simpa using hne⟩
      exact List.forall_mem_append.2
        ⟨mem_star_digit_iff.1 hbefore, List.forall_mem_singleton.2 hdigit⟩
  · rintro ⟨_ | ds, rfl, hds⟩
    · exact .inl rfl
    · obtain ⟨hdigits, hnil, hlast⟩ := hds ds rfl
      rw [List.getLast?_eq_some_getLast hnil] at hlast
      refine .inr ⟨ds, mem_mul_iff.2 ⟨ds.dropLast, ?_, [ds.getLast hnil], ?_, ?_⟩, rfl⟩
      · exact mem_star_digit_iff.2 fun c hc => hdigits c (List.mem_of_mem_dropLast hc)
      · refine mem_oneOf_iff.2 ⟨_, mem_nonzero_iff.2 ⟨hdigits _ (List.getLast_mem hnil), ?_⟩, rfl⟩
        exact fun heq => hlast (congrArg some heq)
      · exact List.dropLast_append_getLast hnil

theorem mem_power_iff : cs ∈ power.matches' ↔
    ∃ sign ds, cs = 'e' :: sign :: ds ∧ (sign = '+' ∨ sign = '-') ∧
      (∀ c ∈ ds, isDigit c = true) ∧ ds ≠ [] ∧ ds.head? ≠ some '0' := by
  unfold power
  rw [mem_char_mul_iff]
  constructor
  · rintro ⟨rest, hrest, rfl⟩
    obtain ⟨sign, hsign, ds, hds, rfl⟩ := mem_oneOf_mul_iff.1 hrest
    obtain ⟨c, rest, rfl, hdigit, hne, hrest⟩ := mem_nonzero_mul_iff.1 hds
    refine ⟨sign, _, rfl, by simpa using hsign, ?_, List.cons_ne_nil _ _, ?_⟩
    · exact List.forall_mem_cons.2 ⟨hdigit, mem_star_digit_iff.1 hrest⟩
    · exact fun heq => hne (Option.some.inj heq)
  · rintro ⟨sign, ds, rfl, hsign, hdigits, hnil, hhead⟩
    obtain ⟨c, rest, rfl⟩ := List.exists_cons_of_ne_nil hnil
    obtain ⟨hdigit, hrest⟩ := List.forall_mem_cons.1 hdigits
    refine ⟨_, mem_oneOf_mul_iff.2 ⟨sign, by simpa using hsign, _, ?_, rfl⟩, rfl⟩
    exact mem_nonzero_mul_iff.2
      ⟨c, rest, rfl, hdigit, fun heq => hhead (congrArg some heq), mem_star_digit_iff.2 hrest⟩

/-- A sign, and a text of another shape. -/
theorem mem_signed_iff {p : RegularExpression Char} :
    text ∈ (optional (char '-') * p).matches' ↔
      ∃ negative, ∃ unsigned ∈ p.matches', text = signed negative unsigned := by
  rw [mem_mul_iff]
  constructor
  · rintro ⟨sign, hsign, unsigned, hunsigned, rfl⟩
    rcases mem_optional_iff.1 hsign with rfl | rfl
    · exact ⟨false, unsigned, hunsigned, rfl⟩
    · exact ⟨true, unsigned, hunsigned, rfl⟩
  · rintro ⟨negative, unsigned, hunsigned, rfl⟩
    cases negative with
    | false => exact ⟨[], mem_optional_iff.2 (.inl rfl), unsigned, hunsigned, rfl⟩
    | true => exact ⟨['-'], mem_optional_iff.2 (.inr rfl), unsigned, hunsigned, rfl⟩

theorem mem_plain_iff : text ∈ plain.matches' ↔
    ∃ negative, ∃ before ∈ whole.matches', ∃ after ∈ fraction.matches',
      text = signed negative (before ++ after) := by
  unfold plain
  rw [mem_signed_iff]
  refine exists_congr fun negative => ?_
  constructor
  · rintro ⟨unsigned, hunsigned, rfl⟩
    obtain ⟨before, hbefore, after, hafter, rfl⟩ := mem_mul_iff.1 hunsigned
    exact ⟨before, hbefore, after, hafter, rfl⟩
  · rintro ⟨before, hbefore, after, hafter, rfl⟩
    exact ⟨_, mem_mul_iff.2 ⟨before, hbefore, after, hafter, rfl⟩, rfl⟩

theorem mem_scientific_iff : text ∈ scientific.matches' ↔
    ∃ negative c, ∃ after ∈ fraction.matches', ∃ tail ∈ power.matches',
      isDigit c = true ∧ c ≠ '0' ∧ text = signed negative (c :: (after ++ tail)) := by
  unfold scientific
  rw [mem_signed_iff]
  refine exists_congr fun negative => ?_
  constructor
  · rintro ⟨unsigned, hunsigned, rfl⟩
    obtain ⟨c, rest, rfl, hdigit, hne, hrest⟩ := mem_nonzero_mul_iff.1 hunsigned
    obtain ⟨after, hafter, tail, htail, rfl⟩ := mem_mul_iff.1 hrest
    exact ⟨c, after, hafter, tail, htail, hdigit, hne, rfl⟩
  · rintro ⟨c, after, hafter, tail, htail, hdigit, hne, rfl⟩
    refine ⟨_, mem_nonzero_mul_iff.2 ⟨c, _, rfl, hdigit, hne, ?_⟩, rfl⟩
    exact mem_mul_iff.2 ⟨after, hafter, tail, htail, rfl⟩

theorem mem_dangling_iff : text ∈ dangling.matches' ↔
    ∃ negative c, ∃ tail ∈ power.matches',
      isDigit c = true ∧ c ≠ '0' ∧ text = signed negative (c :: '.' :: tail) := by
  unfold dangling
  rw [mem_signed_iff]
  refine exists_congr fun negative => ?_
  constructor
  · rintro ⟨unsigned, hunsigned, rfl⟩
    obtain ⟨c, rest, rfl, hdigit, hne, hrest⟩ := mem_nonzero_mul_iff.1 hunsigned
    obtain ⟨tail, htail, rfl⟩ := mem_char_mul_iff.1 hrest
    exact ⟨c, tail, htail, hdigit, hne, rfl⟩
  · rintro ⟨c, tail, htail, hdigit, hne, rfl⟩
    refine ⟨_, mem_nonzero_mul_iff.2 ⟨c, _, rfl, hdigit, hne, ?_⟩, rfl⟩
    exact mem_char_mul_iff.2 ⟨tail, htail, rfl⟩

/-! ## Shapes are apart -/

theorem not_mem_plain_of_dangling (h : text ∈ dangling.matches') : text ∉ plain.matches' := by
  obtain ⟨negative, c, tail, htail, -, -, rfl⟩ := mem_dangling_iff.1 h
  obtain ⟨sign, ds, rfl, -⟩ := mem_power_iff.1 htail
  intro hplain
  obtain ⟨negative', before, hbefore, after, hafter, heq⟩ := mem_plain_iff.1 hplain
  obtain ⟨fr, rfl, hfr⟩ := mem_fraction_iff.1 hafter
  have hmem : 'e' ∈ signed negative' (before ++ Numeral.fractionText fr) := by
    rw [← heq]
    cases negative <;> simp [signed]
  have hdigits : ∀ ds : List Char, (∀ c ∈ ds, isDigit c = true) → 'e' ∉ ds :=
    fun ds hds hmem => Bool.false_ne_true (hds 'e' hmem)
  have hwhole : 'e' ∉ before := by
    rcases mem_whole_iff.1 hbefore with rfl | ⟨hall, -⟩
    · decide
    · exact hdigits before hall
  have hfraction : 'e' ∉ Numeral.fractionText fr := by
    cases fr with
    | none => exact List.not_mem_nil
    | some ds =>
      have hds := hdigits ds (hfr ds rfl).1
      simp [Numeral.fractionText, hds]
  cases negative' <;> simp [signed, hwhole, hfraction] at hmem

theorem not_mem_scientific_of_dangling (h : text ∈ dangling.matches') :
    text ∉ scientific.matches' := by
  obtain ⟨negative, c, tail, htail, hc, -, rfl⟩ := mem_dangling_iff.1 h
  obtain ⟨sign, ds, rfl, -⟩ := mem_power_iff.1 htail
  intro hscientific
  obtain ⟨negative', c', after, hafter, tail', htail', hc', -, heq⟩ :=
    mem_scientific_iff.1 hscientific
  obtain ⟨sign', ds', rfl, -⟩ := mem_power_iff.1 htail'
  obtain ⟨fr, rfl, hfr⟩ := mem_fraction_iff.1 hafter
  have hsplit := congrArg (Numeral.splitSign false) heq
  rw [Numeral.splitSign_signed ⟨c, rfl, hc⟩, Numeral.splitSign_signed ⟨c', rfl, hc'⟩] at hsplit
  obtain ⟨-, hrest⟩ := List.cons.inj (Prod.mk.inj hsplit).2
  cases fr with
  | none => exact absurd (List.cons.inj hrest).1 (by decide)
  | some digits =>
    obtain ⟨hdigits, hnil, -⟩ := hfr digits rfl
    obtain ⟨first, rest, rfl⟩ := List.exists_cons_of_ne_nil hnil
    obtain rfl := (List.cons.inj (List.cons.inj hrest).2).1
    exact Bool.false_ne_true (hdigits 'e' List.mem_cons_self)

end Pattern

end DeskCalculator
