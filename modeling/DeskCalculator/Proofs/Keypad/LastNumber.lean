import DeskCalculator.Keypad.Sign
import DeskCalculator.Proofs.Decimal.Digits
import Mathlib.Data.List.TakeDrop

/-!
# Where the last number stands

* `spanNumber_append`, `spanNumber_cons` : a number is split off without a character lost, and
  starts with the digit that it is looked for at;
* `findLastNumber_append` : so the number that is found and what surrounds it are the text;
* `of_endsInSign` : before a sign stands nothing, an operator or an opening parenthesis;
* `LastNumber` : where the last number of a text stands, whatever it is found by;
  `lastNumber_of_findLastNumber`, `exists_findLastNumber`, `findLastNumber_eq_none` : what is found
  in one line of text is that number, if there is a digit;
* `LastNumber.unique`, `findLastNumber_of_lastNumber` : there is only one, so it is found.
-/

namespace DeskCalculator.Keypad

theorem span_append {α : Type} (p : α → Bool) (cs : List α) :
    (cs.span p).1 ++ (cs.span p).2 = cs := by
  rw [List.span_eq_takeWhile_dropWhile, List.takeWhile_append_dropWhile]

theorem spanNumber_append (cs : List Char) : (spanNumber cs).1 ++ (spanNumber cs).2 = cs := by
  have hwhole := span_append isDigit cs
  unfold spanNumber
  split
  rename_i whole rest hspan
  rw [hspan] at hwhole
  split
  · rename_i more
    have hfraction := span_append isDigit more
    dsimp only
    split
    · exact hwhole
    · rw [List.append_assoc, List.cons_append, hfraction, hwhole]
  · exact hwhole

theorem spanNumber_cons {c : Char} (hc : isDigit c = true) (cs : List Char) :
    ∃ ds, (spanNumber (c :: cs)).1 = c :: ds := by
  have hspan : (c :: cs).span isDigit = (c :: cs.takeWhile isDigit, cs.dropWhile isDigit) := by
    rw [List.span_eq_takeWhile_dropWhile, List.takeWhile_cons_of_pos hc,
      List.dropWhile_cons_of_pos hc]
  unfold spanNumber
  rw [hspan]
  dsimp only
  split
  · split
    · exact ⟨_, rfl⟩
    · exact ⟨_, rfl⟩
  · exact ⟨_, rfl⟩

/-- The number that is found and what surrounds it are the text, and the number starts with a
digit. -/
theorem findLastNumber_append {cs : List Char} {found : Found}
    (h : findLastNumber cs = some found) :
    found.before ++ (found.number ++ found.after) = cs ∧
      ∃ d ds, isDigit d = true ∧ found.number = d :: ds := by
  induction cs generalizing found with
  | nil => cases h
  | cons c cs ih =>
    simp only [findLastNumber] at h
    split at h
    · rename_i hfirst
      obtain rfl := Option.some.inj h
      rw [Bool.and_eq_true] at hfirst
      obtain ⟨ds, hds⟩ := spanNumber_cons hfirst.1 cs
      exact ⟨spanNumber_append (c :: cs), c, ds, hfirst.1, hds⟩
    · obtain ⟨rest, hrest, rfl⟩ := Option.map_eq_some_iff.1 h
      obtain ⟨happend, hdigit⟩ := ih hrest
      exact ⟨by rw [List.cons_append, happend], hdigit⟩

/-- Before a sign stands nothing, an operator or an opening parenthesis. -/
theorem of_endsInSign {before : List Char} (h : endsInSign before = true) :
    ∃ outer, before = outer ++ ['-'] ∧
      ∀ c ∈ outer.getLast?, isOperatorChar c = true ∨ c = '(' := by
  unfold endsInSign at h
  split at h
  · rename_i heq
    exact ⟨[], by simpa using congrArg List.reverse heq, by simp⟩
  · rename_i c cs heq
    refine ⟨cs.reverse ++ [c], by simpa using congrArg List.reverse heq, ?_⟩
    intro d hd
    rw [List.getLast?_concat, Option.mem_some_iff] at hd
    subst hd
    simpa using h
  · cases h

/-! ## Which number is found -/

/-- Digits, and a point with digits if there is one. -/
inductive IsNumber : List Char → Prop
  | whole {digits : List Char} (hdigits : ∀ c ∈ digits, isDigit c = true) (hne : digits ≠ []) :
      IsNumber digits
  | fraction {whole digits : List Char} (hwhole : ∀ c ∈ whole, isDigit c = true)
      (hwhole_ne : whole ≠ []) (hdigits : ∀ c ∈ digits, isDigit c = true) (hne : digits ≠ []) :
      IsNumber (whole ++ '.' :: digits)

/-- Where the last number of a text stands: no digit comes after it or directly before it, and
unless it has a point, no digit with a point comes directly before it. -/
structure LastNumber (before number after : List Char) : Prop where
  isNumber : IsNumber number
  no_digit_after : ∀ c ∈ after, isDigit c = false
  no_digit_before : ∀ c ∈ before.getLast?, isDigit c = false
  no_whole_before : '.' ∉ number → ∀ outer d, before = outer ++ [d, '.'] → isDigit d = false

theorem exists_isDigit_getLast? {digits : List Char} (h : ∀ c ∈ digits, isDigit c = true)
    (hne : digits ≠ []) : ∃ d ∈ digits.getLast?, isDigit d = true :=
  ⟨_, List.getLast?_eq_some_getLast hne, h _ (List.getLast_mem hne)⟩

theorem IsNumber.exists_cons {number : List Char} (h : IsNumber number) :
    ∃ d ds, isDigit d = true ∧ number = d :: ds := by
  cases h with
  | whole hdigits hne =>
    obtain ⟨d, ds, rfl⟩ := List.exists_cons_of_ne_nil hne
    exact ⟨d, ds, hdigits d List.mem_cons_self, rfl⟩
  | fraction hwhole hwhole_ne hdigits hne =>
    obtain ⟨d, ds, rfl⟩ := List.exists_cons_of_ne_nil hwhole_ne
    exact ⟨d, _, hwhole d List.mem_cons_self, rfl⟩

theorem IsNumber.exists_getLast? {number : List Char} (h : IsNumber number) :
    ∃ d ∈ number.getLast?, isDigit d = true := by
  cases h with
  | whole hdigits hne => exact exists_isDigit_getLast? hdigits hne
  | fraction hwhole hwhole_ne hdigits hne =>
    obtain ⟨d, hd, hdigit⟩ := exists_isDigit_getLast? hdigits hne
    refine ⟨d, ?_, hdigit⟩
    rw [List.getLast?_append, List.getLast?_cons, hd]
    rfl

theorem IsNumber.cons {c : Char} (hc : isDigit c = true) {number : List Char}
    (h : IsNumber number) : IsNumber (c :: number) := by
  cases h with
  | whole hdigits hne => exact .whole (List.forall_mem_cons.2 ⟨hc, hdigits⟩) (List.cons_ne_nil _ _)
  | fraction hwhole hwhole_ne hdigits hne =>
    exact .fraction (List.forall_mem_cons.2 ⟨hc, hwhole⟩) (List.cons_ne_nil _ _) hdigits hne

theorem IsNumber.cons_point {c : Char} (hc : isDigit c = true) {number : List Char}
    (h : IsNumber number) (hpoint : '.' ∉ number) : IsNumber (c :: '.' :: number) := by
  cases h with
  | whole hdigits hne =>
    have hwhole : ∀ d ∈ [c], isDigit d = true := by simpa using hc
    exact .fraction hwhole (List.cons_ne_nil _ _) hdigits hne
  | fraction hwhole hwhole_ne hdigits hne => exact absurd (by simp) hpoint

theorem not_isDigit_point : isDigit '.' = false := by decide

theorem head?_point {cs : List Char} : ∀ c ∈ ('.' :: cs).head?, isDigit c = false := by
  rintro c hc
  rw [← Option.some.inj hc]
  decide

/-- A number before what holds no digit is split off whole. -/
theorem spanNumber_of_isNumber {number after : List Char} (h : IsNumber number)
    (hafter : ∀ c ∈ after, isDigit c = false) : spanNumber (number ++ after) = (number, after) := by
  have hhead : ∀ c ∈ after.head?, isDigit c = false :=
    fun c hc => hafter c (List.mem_of_mem_head? hc)
  unfold spanNumber
  cases h with
  | whole hdigits hne =>
    simp only [span_digits hdigits hhead]
    split
    · rename_i more
      have hmore : more.span isDigit = ([], more) :=
        span_digits (List.forall_mem_nil _) fun c hc =>
          hafter c (List.mem_cons_of_mem _ (List.mem_of_mem_head? hc))
      simp only [hmore, List.isEmpty_nil, if_true]
    · rfl
  | fraction hwhole hwhole_ne hdigits hne =>
    rw [List.append_assoc, List.cons_append, span_digits hwhole head?_point]
    simp only [span_digits hdigits hhead]
    simp [hne]

theorem isNumber_spanNumber {c : Char} (hc : isDigit c = true) (cs : List Char) :
    IsNumber (spanNumber (c :: cs)).1 := by
  have hdigits : ∀ (cs : List Char), ∀ d ∈ cs.takeWhile isDigit, isDigit d = true :=
    fun cs d hd => List.mem_takeWhile_imp hd
  have hne : (c :: cs).takeWhile isDigit ≠ [] := by simp [hc]
  simp only [spanNumber, List.span_eq_takeWhile_dropWhile]
  split
  · split
    · exact .whole (hdigits _) hne
    · rename_i hfraction
      exact .fraction (hdigits _) hne (hdigits _) (by simpa using hfraction)
  · exact .whole (hdigits _) hne

theorem lineHoldsDigit_iff {cs : List Char} (h : '\n' ∉ cs) :
    lineHoldsDigit cs = true ↔ ∃ d ∈ cs, isDigit d = true := by
  have hline : cs.takeWhile (· != '\n') = cs := by
    rw [List.takeWhile_eq_self_iff]
    intro c hc
    exact bne_iff_ne.2 fun heq => h (heq ▸ hc)
  rw [lineHoldsDigit, hline, List.any_eq_true]

/-- A number that starts directly before the last one would be found in its place. -/
theorem LastNumber.cons {before number after : List Char} (h : LastNumber before number after)
    {c : Char} (hc : isDigit c = true →
      ∃ d ∈ (spanNumber (c :: (before ++ (number ++ after)))).2, isDigit d = true) :
    LastNumber (c :: before) number after := by
  have hlonger : ∀ front, IsNumber (c :: (front ++ number)) → isDigit c = true → front ≠ before := by
    rintro front hnumber hdigit rfl
    obtain ⟨d, hd, hdigit⟩ := hc hdigit
    rw [← List.append_assoc, ← List.cons_append,
      spanNumber_of_isNumber hnumber h.no_digit_after] at hd
    rw [h.no_digit_after d hd] at hdigit
    cases hdigit
  refine ⟨h.isNumber, h.no_digit_after, ?_, ?_⟩
  · intro d hd
    cases before with
    | nil =>
      obtain rfl := Option.some.inj hd
      by_contra hdigit
      rw [Bool.not_eq_false] at hdigit
      exact hlonger [] (h.isNumber.cons hdigit) hdigit rfl
    | cons b before => exact h.no_digit_before d (by rwa [List.getLast?_cons_cons] at hd)
  · intro hpoint outer d houter
    cases outer with
    | nil =>
      obtain ⟨rfl, rfl⟩ := List.cons.inj houter
      by_contra hdigit
      rw [Bool.not_eq_false] at hdigit
      exact hlonger ['.'] (h.isNumber.cons_point hdigit hpoint) hdigit rfl
    | cons x outer => exact h.no_whole_before hpoint outer d (List.cons.inj houter).2

/-- What is found is the last number. -/
theorem lastNumber_of_findLastNumber {cs : List Char} (hline : '\n' ∉ cs) {found : Found}
    (h : findLastNumber cs = some found) : LastNumber found.before found.number found.after := by
  induction cs generalizing found with
  | nil => cases h
  | cons c cs ih =>
    have hrest : '\n' ∉ (spanNumber (c :: cs)).2 := by
      intro hmem
      rw [← spanNumber_append (c :: cs)] at hline
      exact hline (List.mem_append_right _ hmem)
    have hcs : '\n' ∉ cs := fun hmem => hline (List.mem_cons_of_mem c hmem)
    simp only [findLastNumber] at h
    split at h
    · rename_i hfirst
      obtain rfl := Option.some.inj h
      simp only [Bool.and_eq_true, Bool.not_eq_true', ← Bool.not_eq_true, lineHoldsDigit_iff hrest,
        not_exists, not_and] at hfirst
      obtain ⟨hc, hafter⟩ := hfirst
      exact ⟨isNumber_spanNumber hc cs, by simpa using hafter, by simp, by simp⟩
    · rename_i hfirst
      obtain ⟨rest, hfound, rfl⟩ := Option.map_eq_some_iff.1 h
      refine (ih hcs hfound).cons fun hc => ?_
      rw [(findLastNumber_append hfound).1, ← lineHoldsDigit_iff hrest]
      simpa [hc] using hfirst

/-- A text with a digit has a number to be found. -/
theorem exists_findLastNumber {cs : List Char} (hline : '\n' ∉ cs)
    (h : ∃ d ∈ cs, isDigit d = true) : ∃ found, findLastNumber cs = some found := by
  induction cs with
  | nil => simp at h
  | cons c cs ih =>
    have hcs : '\n' ∉ cs := fun hmem => hline (List.mem_cons_of_mem c hmem)
    simp only [findLastNumber]
    split
    · exact ⟨_, rfl⟩
    · rename_i hfirst
      suffices hlater : ∃ d ∈ cs, isDigit d = true by
        obtain ⟨found, hfound⟩ := ih hcs hlater
        exact ⟨_, by rw [hfound]; rfl⟩
      obtain ⟨d, hd, hdigit⟩ := h
      rcases List.mem_cons.1 hd with rfl | hd
      · -- the digits that are left over after a number come later
        obtain ⟨ds, hds⟩ := spanNumber_cons hdigit cs
        have happend := spanNumber_append (d :: cs)
        rw [hds, List.cons_append] at happend
        have hafter : (spanNumber (d :: cs)).2 ⊆ cs :=
          fun e he => (List.cons.inj happend).2 ▸ List.mem_append_right ds he
        rw [hdigit, Bool.true_and, Bool.not_eq_true', Bool.not_eq_false,
          lineHoldsDigit_iff fun hmem => hcs (hafter hmem)] at hfirst
        obtain ⟨e, he, hdigit⟩ := hfirst
        exact ⟨e, hafter he, hdigit⟩
      · exact ⟨d, hd, hdigit⟩

theorem findLastNumber_eq_none {cs : List Char} (h : ∀ c ∈ cs, isDigit c = false) :
    findLastNumber cs = none := by
  cases hfound : findLastNumber cs with
  | none => rfl
  | some found =>
    obtain ⟨happend, d, ds, hd, hnumber⟩ := findLastNumber_append hfound
    have hmem : d ∈ cs := by simp [← happend, hnumber]
    rw [h d hmem] at hd
    cases hd

/-! ## There is one only -/

theorem eq_nil_of_getLast?_append {α : Type} {p : α → Bool} {u v : List α}
    (hlast : ∀ a ∈ (u ++ v).getLast?, p a = false) (hall : ∀ a ∈ v, p a = true) : v = [] := by
  by_contra hne
  have hmem : v.getLast hne ∈ (u ++ v).getLast? := by
    rw [List.getLast?_append, List.getLast?_eq_some_getLast hne]
    rfl
  have hfalse := hlast _ hmem
  rw [hall _ (List.getLast_mem hne)] at hfalse
  cases hfalse

/-- A list ends in one way in elements of a class with none of it before them. -/
theorem append_inj_of_getLast? {α : Type} {p : α → Bool} {u v x y : List α}
    (h : u ++ x = v ++ y) (hx : ∀ a ∈ x, p a = true) (hy : ∀ a ∈ y, p a = true)
    (hu : ∀ a ∈ u.getLast?, p a = false) (hv : ∀ a ∈ v.getLast?, p a = false) :
    u = v ∧ x = y := by
  rcases List.append_eq_append_iff.1 h with ⟨w, rfl, rfl⟩ | ⟨w, rfl, rfl⟩
  · obtain rfl := eq_nil_of_getLast?_append hv fun a ha => hx a (List.mem_append_left _ ha)
    simp
  · obtain rfl := eq_nil_of_getLast?_append hu fun a ha => hy a (List.mem_append_left _ ha)
    simp

/-- The digits at the end of the last number, with what comes before them. -/
theorem LastNumber.exists_digits {before number after : List Char}
    (h : LastNumber before number after) : ∃ lead digits, number = lead ++ digits ∧
      (∀ c ∈ digits, isDigit c = true) ∧ (∀ c ∈ (before ++ lead).getLast?, isDigit c = false) ∧
      (lead = [] ∧ (∀ outer d, before = outer ++ [d, '.'] → isDigit d = false) ∨
        ∃ whole d, lead = whole ++ [d, '.'] ∧ ∀ c ∈ whole ++ [d], isDigit c = true) := by
  obtain ⟨hnumber, -, hbefore, hwhole_before⟩ := h
  cases hnumber with
  | whole hdigits hne =>
    have hpoint : '.' ∉ number := fun hmem => absurd (hdigits _ hmem) (by decide)
    exact ⟨[], number, rfl, hdigits, by rwa [List.append_nil], .inl ⟨rfl, hwhole_before hpoint⟩⟩
  | fraction hwhole hwhole_ne hdigits hne =>
    rename_i whole digits
    rcases List.eq_nil_or_concat whole with rfl | ⟨front, d, rfl⟩
    · exact absurd rfl hwhole_ne
    · rw [List.concat_eq_append] at *
      refine ⟨front ++ [d, '.'], digits, by simp, hdigits, ?_, .inr ⟨front, d, rfl, hwhole⟩⟩
      rw [show before ++ (front ++ [d, '.']) = (before ++ (front ++ [d])) ++ ['.'] by simp,
        List.getLast?_concat]
      simp only [Option.mem_some_iff, forall_eq', not_isDigit_point]

theorem LastNumber.unique {before number after before' number' after' : List Char}
    (h : LastNumber before number after) (h' : LastNumber before' number' after')
    (heq : before ++ (number ++ after) = before' ++ (number' ++ after')) :
    before = before' ∧ number = number' ∧ after = after' := by
  have hlast : ∀ {before number after : List Char}, LastNumber before number after →
      ∀ c ∈ (before ++ number).getLast?, (!isDigit c) = false := by
    intro before number after h c hc
    obtain ⟨d, hd, hdigit⟩ := h.isNumber.exists_getLast?
    rw [List.getLast?_append, hd] at hc
    rw [← Option.some.inj hc, hdigit, Bool.not_true]
  rw [← List.append_assoc, ← List.append_assoc] at heq
  obtain ⟨hnumber, rfl⟩ := append_inj_of_getLast? heq
    (fun c hc => by simp [h.no_digit_after c hc]) (fun c hc => by simp [h'.no_digit_after c hc])
    (hlast h) (hlast h')
  obtain ⟨lead, digits, rfl, hdigits, hbefore, hlead⟩ := h.exists_digits
  obtain ⟨lead', digits', rfl, hdigits', hbefore', hlead'⟩ := h'.exists_digits
  rw [← List.append_assoc, ← List.append_assoc] at hnumber
  obtain ⟨hleads, rfl⟩ := append_inj_of_getLast? hnumber hdigits hdigits' hbefore hbefore'
  rcases hlead with ⟨rfl, hpoint⟩ | ⟨whole, d, rfl, hwhole⟩ <;>
    rcases hlead' with ⟨rfl, hpoint'⟩ | ⟨whole', d', rfl, hwhole'⟩
  · rw [List.append_nil, List.append_nil] at hleads
    exact ⟨hleads, rfl, rfl⟩
  · rw [List.append_nil, ← List.append_assoc] at hleads
    have hdigit := hwhole' d' (by simp)
    rw [hpoint _ _ hleads] at hdigit
    cases hdigit
  · rw [List.append_nil, ← List.append_assoc] at hleads
    have hdigit := hwhole d (by simp)
    rw [hpoint' _ _ hleads.symm] at hdigit
    cases hdigit
  · have hwholes : before ++ (whole ++ [d]) = before' ++ (whole' ++ [d']) := by
      rw [← List.append_left_inj ['.']]
      simpa using hleads
    obtain ⟨rfl, -⟩ := append_inj_of_getLast? hwholes hwhole hwhole' h.no_digit_before
      h'.no_digit_before
    exact ⟨rfl, by rw [List.append_cancel_left hleads], rfl⟩

/-- The last number is found. -/
theorem findLastNumber_of_lastNumber {before number after : List Char}
    (hline : '\n' ∉ before ++ (number ++ after)) (h : LastNumber before number after) :
    findLastNumber (before ++ (number ++ after)) = some ⟨before, number, after⟩ := by
  obtain ⟨d, ds, hd, hnumber⟩ := h.isNumber.exists_cons
  obtain ⟨found, hfound⟩ := exists_findLastNumber hline ⟨d, by simp [hnumber], hd⟩
  obtain ⟨hbefore, hnumber, hafter⟩ :=
    (lastNumber_of_findLastNumber hline hfound).unique h (findLastNumber_append hfound).1
  rw [← hbefore, ← hnumber, ← hafter] at hfound ⊢
  exact hfound

end DeskCalculator.Keypad
