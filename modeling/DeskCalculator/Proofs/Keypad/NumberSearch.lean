import DeskCalculator.Proofs.Keypad.LastNumber
import DeskCalculator.Text.Matcher
import Mathlib.Data.List.Basic
import Mathlib.Order.Bounds.Basic

/-!
# Searching the last number

* `numberMatcher`, `laterDigitMatcher`, `lastNumberMatcher` : a number after which its line holds no
  digit, for a search that backtracks;
* `mem_rests_numberMatcher_iff`, `head?_rests_numberMatcher`, `IsNumber.prefix_spanNumber` : the
  first choice at a place is the longest number there;
* `rests_laterDigitMatcher_eq_nil_iff`, `head?_rests_lastNumberMatcher` : no other choice is worth a
  try, as more digits follow it;
* `search_lastNumberMatcher_eq`, `findLastNumber_eq_search` : so the search finds what
  `findLastNumber` does, in every text;
* `LastSpan` : where the last number stands, by the places of digits and points;
  `LastNumber.lastSpan`, `LastSpan.unique` : there is one such part;
* `search_lastNumberMatcher_iff` : the search finds that part.
-/

namespace DeskCalculator.Keypad

open Matcher

/-! ## The pattern -/

/-- A number, `[0-9]+(?:\.[0-9]+)?`. -/
def numberMatcher : Matcher :=
  .next (.several isDigit) (.optional (.next (.one (· == '.')) (.several isDigit)))

/-- A digit further on in the line, `.*[0-9]`. -/
def laterDigitMatcher : Matcher := .next (.many (· != '\n')) (.one isDigit)

/-- A number with no digit after it, `[0-9]+(?:\.[0-9]+)?(?!.*[0-9])`. -/
def lastNumberMatcher : Matcher := .next numberMatcher (.notAhead laterDigitMatcher)

variable {cs rest e number after : List Char}

/-! ## Numbers at a place -/

theorem mem_rests_numberMatcher_iff :
    rest ∈ numberMatcher.rests cs ↔ ∃ number, IsNumber number ∧ cs = number ++ rest := by
  simp only [numberMatcher, mem_rests_next_iff, mem_rests_optional_iff, mem_rests_one_iff,
    mem_rests_several_iff]
  constructor
  · rintro ⟨mid, ⟨whole, hne, hwhole, rfl⟩, hmid⟩
    rcases hmid with ⟨more, ⟨c, hc, rfl⟩, digits, hdigits_ne, hdigits, rfl⟩ | rfl
    · obtain rfl := beq_iff_eq.1 hc
      exact ⟨whole ++ '.' :: digits, .fraction hwhole hne hdigits hdigits_ne, by simp⟩
    · exact ⟨whole, .whole hwhole hne, rfl⟩
  · rintro ⟨number, hnumber, rfl⟩
    cases hnumber with
    | whole hdigits hne => exact ⟨rest, ⟨number, hne, hdigits, rfl⟩, .inr rfl⟩
    | fraction hwhole hwhole_ne hdigits hne =>
      rename_i whole digits
      exact ⟨'.' :: (digits ++ rest), ⟨whole, hwhole_ne, hwhole, by simp⟩,
        .inl ⟨digits ++ rest, ⟨'.', rfl, rfl⟩, digits, hne, hdigits, rfl⟩⟩

/-- The first choice is the longest number. -/
theorem head?_rests_numberMatcher {c : Char} (hc : isDigit c = true) :
    (numberMatcher.rests (c :: cs)).head? = some (spanNumber (c :: cs)).2 := by
  refine head?_rests_next (head?_rests_several hc) ?_
  rw [head?_rests_optional]
  simp only [spanNumber, List.span_eq_takeWhile_dropWhile]
  congr 1
  split
  · rename_i more hmid
    rw [hmid]
    cases more with
    | nil => rfl
    | cons d more =>
      have hpoint : ((one (· == '.')).rests ('.' :: d :: more)).head? = some (d :: more) := rfl
      cases hd : isDigit d with
      | true => simp [head?_rests_next hpoint (head?_rests_several hd), hd]
      | false =>
        have hnone : (several isDigit).rests (d :: more) = [] :=
          rests_several_of_head? fun c hc => Option.some.inj hc ▸ hd
        simp [rests, hnone, hd]
  · rename_i hmid
    have hnone : (one (· == '.')).rests ((c :: cs).dropWhile isDigit) = [] := by
      rw [List.eq_nil_iff_forall_not_mem]
      intro rest hrest
      obtain ⟨d, hd, heq⟩ := mem_rests_one_iff.1 hrest
      exact hmid rest (beq_iff_eq.1 hd ▸ heq)
    rw [rests, hnone]
    rfl

theorem rests_numberMatcher_of_not_isDigit {c : Char} (hc : isDigit c = false) :
    numberMatcher.rests (c :: cs) = [] := by
  rw [numberMatcher, rests, rests_several_of_head? fun d hd => Option.some.inj hd ▸ hc,
    List.flatMap_nil]

/-- No number at a place is longer than the one that is split off there. -/
theorem IsNumber.prefix_spanNumber (h : IsNumber number) (rest : List Char) :
    number <+: (spanNumber (number ++ rest)).1 := by
  simp only [spanNumber, List.span_eq_takeWhile_dropWhile]
  cases h with
  | whole hdigits hne =>
    have hwhole : number <+: (number ++ rest).takeWhile isDigit := by
      rw [List.takeWhile_append_of_pos hdigits]
      exact List.prefix_append _ _
    split
    · split
      · exact hwhole
      · exact hwhole.trans (List.prefix_append _ _)
    · exact hwhole
  | fraction hwhole hwhole_ne hdigits hne =>
    rename_i whole digits
    have hspan : (whole ++ '.' :: digits ++ rest).takeWhile isDigit = whole ∧
        (whole ++ '.' :: digits ++ rest).dropWhile isDigit = '.' :: (digits ++ rest) := by
      rw [List.append_assoc, List.takeWhile_append_of_pos hwhole,
        List.dropWhile_append_of_pos hwhole]
      simp [not_isDigit_point]
    rw [hspan.1, hspan.2]
    simp only [List.takeWhile_append_of_pos hdigits]
    rw [if_neg (by simp [hne])]
    exact (List.prefix_append_right_inj whole).2
      (List.cons_prefix_cons.2 ⟨rfl, List.prefix_append _ _⟩)

theorem IsNumber.not_mem_newline (h : IsNumber number) : '\n' ∉ number := by
  have hnone : ∀ {digits : List Char}, (∀ c ∈ digits, isDigit c = true) → '\n' ∉ digits :=
    fun hdigits hmem => absurd (hdigits _ hmem) (by decide)
  cases h with
  | whole hdigits hne => exact hnone hdigits
  | fraction hwhole hwhole_ne hdigits hne => simp [hnone hwhole, hnone hdigits]

/-! ## Numbers with no digit after them -/

theorem lineHoldsDigit_cons (c : Char) (cs : List Char) :
    lineHoldsDigit (c :: cs) = (c != '\n' && (isDigit c || lineHoldsDigit cs)) := by
  rw [lineHoldsDigit, List.takeWhile_cons]
  cases c != '\n' <;> rfl

theorem lineHoldsDigit_append (h : '\n' ∉ number) (hafter : lineHoldsDigit after = true) :
    lineHoldsDigit (number ++ after) = true := by
  induction number with
  | nil => exact hafter
  | cons c number ih =>
    rw [List.mem_cons, not_or] at h
    rw [List.cons_append, lineHoldsDigit_cons, ih h.2, Bool.or_true, Bool.and_true]
    exact bne_iff_ne.2 (Ne.symm h.1)

theorem rests_laterDigitMatcher_eq_nil_iff :
    laterDigitMatcher.rests cs = [] ↔ lineHoldsDigit cs = false := by
  rw [laterDigitMatcher, rests, rests]
  induction cs with
  | nil => exact ⟨fun _ => rfl, fun _ => rfl⟩
  | cons c cs ih =>
    rw [manyRests, lineHoldsDigit_cons]
    cases hline : c != '\n' with
    | true =>
      rw [if_pos rfl, List.flatMap_append, List.append_eq_nil_iff, ih, List.flatMap_singleton,
        rests, Bool.true_and, Bool.or_eq_false_iff, and_comm]
      cases isDigit c <;> simp
    | false =>
      obtain rfl : c = '\n' := by simpa using hline
      exact ⟨fun _ => rfl, fun _ => rfl⟩

/-- The longest number at a place is tried alone: shorter ones have a digit more after them. -/
theorem head?_rests_lastNumberMatcher (c : Char) (cs : List Char) :
    (lastNumberMatcher.rests (c :: cs)).head? =
      if isDigit c && !lineHoldsDigit (spanNumber (c :: cs)).2 then some (spanNumber (c :: cs)).2
      else none := by
  cases hc : isDigit c with
  | false =>
    rw [lastNumberMatcher, rests, rests_numberMatcher_of_not_isDigit hc]
    rfl
  | true =>
    cases hafter : lineHoldsDigit (spanNumber (c :: cs)).2 with
    | false =>
      refine head?_rests_next (head?_rests_numberMatcher hc) ?_
      rw [rests_notAhead_of_eq_nil (rests_laterDigitMatcher_eq_nil_iff.2 hafter)]
      rfl
    | true =>
      rw [lastNumberMatcher, rests, List.head?_eq_none_iff.2]
      · rfl
      -- what another choice leaves is the rest of the longest number, and what comes after that
      refine List.flatMap_eq_nil_iff.2 fun rest hrest => ?_
      obtain ⟨number, hnumber, hcs⟩ := mem_rests_numberMatcher_iff.1 hrest
      obtain ⟨more, hmore⟩ := hnumber.prefix_spanNumber rest
      have happend := spanNumber_append (c :: cs)
      rw [← hcs] at hmore
      have hrest : rest = more ++ (spanNumber (c :: cs)).2 := by
        rw [← hmore, List.append_assoc, hcs] at happend
        rw [hcs]
        exact (List.append_cancel_left happend).symm
      have hline : '\n' ∉ more := fun hmem =>
        (isNumber_spanNumber hc cs).not_mem_newline (hmore ▸ List.mem_append_right number hmem)
      refine rests_notAhead_of_ne_nil ?_
      rw [ne_eq, rests_laterDigitMatcher_eq_nil_iff, hrest, lineHoldsDigit_append hline hafter]
      exact Bool.noConfusion

/-- The place of a number that is found. -/
def Found.span (found : Found) : Span :=
  ⟨found.before.length, found.before.length + found.number.length⟩

/-- The search that backtracks finds the number that is found without. -/
theorem search_lastNumberMatcher_eq (cs : List Char) :
    lastNumberMatcher.search cs = (findLastNumber cs).map Found.span := by
  induction cs with
  | nil => rfl
  | cons c cs ih =>
    have hlength := congrArg List.length (spanNumber_append (c :: cs))
    rw [List.length_append] at hlength
    rw [search_cons, head?_rests_lastNumberMatcher, findLastNumber, ih]
    dsimp only
    by_cases hfirst : (isDigit c && !lineHoldsDigit (spanNumber (c :: cs)).2) = true
    · rw [if_pos hfirst, if_pos hfirst]
      simp only [Option.map_some, Found.span, List.length_nil, Option.some.injEq, Span.mk.injEq,
        true_and]
      omega
    · rw [if_neg hfirst, if_neg hfirst]
      simp only [Option.map_map]
      refine Option.map_congr fun found _ => ?_
      simp only [Function.comp_apply, Found.span, List.length_cons, Span.mk.injEq, true_and]
      omega

/-! ## Places -/

/-- Whether a digit stands at a place. -/
def digitAt (e : List Char) (i : Nat) : Bool := e[i]?.any isDigit

/-- A run of digits from its start: digits at all places from `first` to `last`, and none directly
before. -/
structure IsRun (e : List Char) (first last : Nat) : Prop where
  first_le : first ≤ last
  digits : ∀ i, first ≤ i → i ≤ last → digitAt e i = true
  no_digit_before : ∀ i, first = i + 1 → digitAt e i = false

/-- A point directly before the place `first`, and a digit directly before the point, at `d`. -/
def PointBetween (e : List Char) (d first : Nat) : Prop :=
  first = d + 2 ∧ e[d + 1]? = some '.' ∧ digitAt e d = true

/-- A part of a text that ends right after the last digit, and starts at the first digit of the run
that ends there, or, where a point with a digit before it stands directly before that run, at the
first digit of the run before the point. -/
def LastSpan (e : List Char) (span : Span) : Prop :=
  ∃ first last, IsGreatest {i | digitAt e i = true} last ∧ IsRun e first last ∧
    span.stop = last + 1 ∧
    ((∃ d, PointBetween e d first ∧ IsRun e span.start d) ∨
      (¬∃ d, PointBetween e d first) ∧ span.start = first)

theorem IsRun.unique {a b last : Nat} (ha : IsRun e a last) (hb : IsRun e b last) : a = b := by
  have hle : ∀ {a b : Nat}, IsRun e a last → IsRun e b last → b ≤ a := by
    intro a b ha hb
    by_contra hlt
    have hfalse := hb.no_digit_before (b - 1) (by omega)
    rw [ha.digits (b - 1) (by omega) (by have := hb.first_le; omega)] at hfalse
    cases hfalse
  exact Nat.le_antisymm (hle hb ha) (hle ha hb)

theorem LastSpan.unique {s t : Span} (hs : LastSpan e s) (ht : LastSpan e t) : s = t := by
  obtain ⟨first, last, hlast, hrun, hstop, hstart⟩ := hs
  obtain ⟨first', last', hlast', hrun', hstop', hstart'⟩ := ht
  obtain rfl := hlast.unique hlast'
  obtain rfl := hrun.unique hrun'
  have hstarts : s.start = t.start := by
    rcases hstart with ⟨d, hd, hwhole⟩ | ⟨hnone, hstart⟩ <;>
      rcases hstart' with ⟨d', hd', hwhole'⟩ | ⟨hnone', hstart'⟩
    · obtain rfl : d = d' := by have := hd.1; have := hd'.1; omega
      exact hwhole.unique hwhole'
    · exact absurd ⟨d, hd⟩ hnone'
    · exact absurd ⟨d', hd'⟩ hnone
    · rw [hstart, hstart']
  exact Span.ext hstarts (by rw [hstop, hstop'])

theorem LastSpan.exists_digit {span : Span} (h : LastSpan e span) :
    ∃ c ∈ e, isDigit c = true := by
  obtain ⟨first, last, ⟨hlast, -⟩, -⟩ := h
  obtain ⟨c, hc, hdigit⟩ := (Option.any_eq_true _ _).1 hlast
  exact ⟨c, List.mem_of_getElem? hc, hdigit⟩

section

variable {before digits text : List Char}

/-- A run of digits between other text. -/
theorem isRun_append (hne : digits ≠ []) (hdigits : ∀ c ∈ digits, isDigit c = true)
    (hbefore : ∀ c ∈ before.getLast?, isDigit c = false) {last : Nat}
    (hlast : last + 1 = before.length + digits.length) :
    IsRun (before ++ (digits ++ after)) before.length last := by
  refine ⟨?_, ?_, ?_⟩
  · have := List.length_pos_iff.2 hne
    omega
  · intro i hfirst hi
    have hlt : i - before.length < digits.length := by omega
    rw [digitAt, List.getElem?_append_right hfirst, List.getElem?_append_left hlt,
      List.getElem?_eq_getElem hlt]
    exact hdigits _ (List.getElem_mem hlt)
  · intro i hi
    rw [digitAt, List.getElem?_append_left (by omega)]
    rw [List.getLast?_eq_getElem?, hi, Nat.add_sub_cancel] at hbefore
    rw [Option.any_eq_false]
    exact fun c hc => by simp [hbefore c hc]

/-- A digit with none after it is the last one. -/
theorem isGreatest_append (htext : ∃ d ∈ text.getLast?, isDigit d = true)
    (hafter : ∀ c ∈ after, isDigit c = false) {last : Nat} (hlast : last + 1 = text.length) :
    IsGreatest {i | digitAt (text ++ after) i = true} last := by
  constructor
  · obtain ⟨d, hd, hdigit⟩ := htext
    rw [List.getLast?_eq_getElem?, ← hlast, Nat.add_sub_cancel] at hd
    change digitAt (text ++ after) last = true
    rw [digitAt, List.getElem?_append_left (by omega), Option.mem_def.1 hd]
    exact hdigit
  · intro i hi
    by_contra hlt
    change digitAt (text ++ after) i = true at hi
    rw [digitAt, List.getElem?_append_right (by omega), Option.any_eq_true] at hi
    obtain ⟨d, hd, hdigit⟩ := hi
    rw [hafter d (List.mem_of_getElem? hd)] at hdigit
    cases hdigit

theorem not_pointBetween_append
    (hbefore : ∀ outer d, before = outer ++ [d, '.'] → isDigit d = false) :
    ¬∃ d, PointBetween (before ++ text) d before.length := by
  rintro ⟨i, hlength, hpoint, hdigit⟩
  obtain ⟨d, c, hend⟩ := List.length_eq_two.1
    (show (before.drop i).length = 2 by rw [List.length_drop]; omega)
  have hsplit : before = before.take i ++ [d, c] := by rw [← hend, List.take_append_drop]
  have hplace : ∀ j < 2, (before ++ text)[i + j]? = [d, c][j]? := by
    intro j hj
    rw [List.getElem?_append_left (by omega), ← hend, List.getElem?_drop]
  obtain rfl : c = '.' := by
    rw [hplace 1 (by decide)] at hpoint
    exact Option.some.inj hpoint
  have hd : isDigit d = true := by
    rw [digitAt, ← Nat.add_zero i, hplace 0 (by decide)] at hdigit
    exact hdigit
  rw [hbefore _ d hsplit] at hd
  cases hd

end

/-- The number that a text can be split at stands last in it. -/
theorem LastNumber.lastSpan {before : List Char} (h : LastNumber before number after) :
    LastSpan (before ++ (number ++ after)) ⟨before.length, before.length + number.length⟩ := by
  obtain ⟨hnumber, hafter, hbefore, hwhole_before⟩ := h
  have hlast : ∃ d ∈ (before ++ number).getLast?, isDigit d = true := by
    obtain ⟨d, hd, hdigit⟩ := hnumber.exists_getLast?
    exact ⟨d, by rw [List.getLast?_append, hd]; rfl, hdigit⟩
  have hpos : 0 < number.length := by
    obtain ⟨d, ds, -, rfl⟩ := hnumber.exists_cons
    exact Nat.zero_lt_succ _
  obtain ⟨last, hstop⟩ : ∃ last, last + 1 = before.length + number.length :=
    ⟨before.length + number.length - 1, by omega⟩
  have hgreatest : IsGreatest {i | digitAt (before ++ number ++ after) i = true} last :=
    isGreatest_append hlast hafter (by rw [List.length_append, hstop])
  rw [List.append_assoc] at hgreatest
  cases hnumber with
  | whole hdigits hne =>
    have hpoint : '.' ∉ number := fun hmem => absurd (hdigits _ hmem) (by decide)
    exact ⟨before.length, last, hgreatest, isRun_append hne hdigits hbefore hstop, hstop.symm,
      .inr ⟨not_pointBetween_append (hwhole_before hpoint), rfl⟩⟩
  | fraction hwhole hwhole_ne hdigits hne =>
    rename_i whole digits
    obtain ⟨d, hd⟩ : ∃ d, d + 1 = before.length + whole.length :=
      ⟨before.length + whole.length - 1, by have := List.length_pos_iff.2 hwhole_ne; omega⟩
    have hlead : (before ++ (whole ++ ['.'])).length = d + 2 := by
      simp only [List.length_append, List.length_singleton]
      omega
    have hpoint : ∀ c ∈ (before ++ (whole ++ ['.'])).getLast?, isDigit c = false := by
      rw [← List.append_assoc, List.getLast?_concat]
      exact fun c hc => Option.some.inj hc ▸ not_isDigit_point
    -- the text is cut in front of the digits for one run, and in front of the point for the other
    have hrun : IsRun (before ++ (whole ++ '.' :: digits ++ after)) (d + 2) last := by
      rw [← hlead, show before ++ (whole ++ '.' :: digits ++ after) =
        before ++ (whole ++ ['.']) ++ (digits ++ after) by simp]
      refine isRun_append hne hdigits hpoint ?_
      rw [hlead, hstop, List.length_append, List.length_cons]
      omega
    have hwhole_run : IsRun (before ++ (whole ++ '.' :: digits ++ after)) before.length d := by
      rw [List.append_assoc]
      exact isRun_append hwhole_ne hwhole hbefore hd
    have hbetween : PointBetween (before ++ (whole ++ '.' :: digits ++ after)) d (d + 2) :=
      ⟨rfl, by rw [hd]; simp, hwhole_run.digits d hwhole_run.first_le (Nat.le_refl d)⟩
    exact ⟨d + 2, last, hgreatest, hrun, hstop.symm, .inl ⟨d, hbetween, hwhole_run⟩⟩

/-- What a search finds by its place is what is found in the text. -/
def Found.ofSpan (e : List Char) (span : Span) : Found :=
  ⟨e.take span.start, (e.take span.stop).drop span.start, e.drop span.stop⟩

theorem Found.ofSpan_span {found : Found} (h : found.before ++ (found.number ++ found.after) = e) :
    Found.ofSpan e found.span = found := by
  obtain ⟨before, number, after⟩ := found
  dsimp only at h
  rw [Found.ofSpan, Found.span, ← h, Found.mk.injEq]
  dsimp only
  refine ⟨List.take_left, ?_, ?_⟩
  · rw [← List.append_assoc, ← List.length_append, List.take_left, List.drop_left]
  · rw [← List.append_assoc, ← List.length_append, List.drop_left]

theorem lastSpan_of_search (hline : '\n' ∉ e) {span : Span}
    (h : lastNumberMatcher.search e = some span) : LastSpan e span := by
  rw [search_lastNumberMatcher_eq] at h
  obtain ⟨found, hfound, rfl⟩ := Option.map_eq_some_iff.1 h
  rw [← (findLastNumber_append hfound).1]
  exact (lastNumber_of_findLastNumber hline hfound).lastSpan

theorem exists_search (hline : '\n' ∉ e) (h : ∃ c ∈ e, isDigit c = true) :
    ∃ span, lastNumberMatcher.search e = some span := by
  obtain ⟨found, hfound⟩ := exists_findLastNumber hline h
  exact ⟨found.span, by rw [search_lastNumberMatcher_eq, hfound]; rfl⟩

theorem findLastNumber_eq_search (e : List Char) :
    findLastNumber e = (lastNumberMatcher.search e).map (Found.ofSpan e) := by
  rw [search_lastNumberMatcher_eq, Option.map_map]
  cases hfound : findLastNumber e with
  | none => rfl
  | some found =>
    rw [Option.map_some, Function.comp_apply, Found.ofSpan_span (findLastNumber_append hfound).1]

/-- **The search finds the last number**: in a text without a line end there is a match exactly if
there is a digit, it ends right after the last digit, and it starts where the run of digits there
does, or where the run before that does if only a point stands between. Flipping a sign takes the
number from that place. -/
theorem search_lastNumberMatcher_iff {e : List Char} (hline : '\n' ∉ e) :
    ((∃ span, lastNumberMatcher.search e = some span) ↔ ∃ c ∈ e, isDigit c = true) ∧
      (∀ span, lastNumberMatcher.search e = some span ↔ LastSpan e span) ∧
      findLastNumber e = (lastNumberMatcher.search e).map (Found.ofSpan e) := by
  refine ⟨⟨?_, exists_search hline⟩, fun span => ⟨lastSpan_of_search hline, fun h => ?_⟩,
    findLastNumber_eq_search e⟩
  · rintro ⟨span, h⟩
    exact (lastSpan_of_search hline h).exists_digit
  · obtain ⟨other, hother⟩ := exists_search hline h.exists_digit
    rw [hother, (lastSpan_of_search hline hother).unique h]

/-- With several points the last two runs are one number. -/
theorem search_lastNumberMatcher_iff_points :
    let e := "3-1.50.25)".toList
    '\n' ∉ e ∧ lastNumberMatcher.search e = some ⟨4, 9⟩ ∧ LastSpan e ⟨4, 9⟩ ∧
      findLastNumber e = some ⟨"3-1.".toList, "50.25".toList, ")".toList⟩ := by
  intro e
  have hline : '\n' ∉ e := by decide
  have hsearch : lastNumberMatcher.search e = some ⟨4, 9⟩ := by decide
  obtain ⟨-, hspan, hfound⟩ := search_lastNumberMatcher_iff hline
  refine ⟨hline, hsearch, (hspan _).1 hsearch, ?_⟩
  rw [hfound, hsearch]
  rfl

end DeskCalculator.Keypad
