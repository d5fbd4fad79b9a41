import DeskCalculator.Proofs.Keypad.Composed

/-!
# Points and signs of composed expressions

* `Allowed front c` : whether composing an expression ever puts `c` after the whole of `front`: no
  second point into a number, and no operator after a sign;
* `Orderly` : the invariant of composition that each character is allowed after all before it;
  `orderly_append_iff`, `orderly_concat_iff` : what has to be checked when text is appended;
  `Orderly.not_point` : so there are no two points in a number;
* `Orderly.pressed`, `orderly_pressAll` : whatever a key does keeps the invariant, so all keys do.
-/

namespace DeskCalculator.Keypad

/-! ## The last segment and the sign at the end -/

theorem lastSegment_concat (e : List Char) (c : Char) :
    lastSegment (e ++ [c]) = if isSeparator c then [] else lastSegment e ++ [c] := by
  unfold lastSegment
  rw [List.reverse_append, List.reverse_singleton, List.singleton_append, List.takeWhile_cons]
  cases isSeparator c <;> simp

theorem lastSegment_append_of_nil {e : List Char} (h : lastSegment e = []) (v : List Char) :
    lastSegment (e ++ v) = lastSegment v := by
  induction v using List.reverseRecOn with
  | nil => rw [List.append_nil, h]; rfl
  | append_singleton v c ih =>
    rw [← List.append_assoc, lastSegment_concat, lastSegment_concat, ih]

theorem subset_lastSegment_append (e v : List Char) : lastSegment v ⊆ lastSegment (e ++ v) := by
  induction v using List.reverseRecOn with
  | nil => exact List.nil_subset _
  | append_singleton v c ih =>
    rw [← List.append_assoc, lastSegment_concat, lastSegment_concat]
    split
    · exact List.nil_subset _
    · exact List.append_subset.2 ⟨List.subset_append_of_subset_left _ ih,
        List.subset_append_right _ _⟩

theorem lastSegment_append_of_forall (e : List Char) {v : List Char}
    (h : ∀ c ∈ v, isSeparator c = false) : lastSegment (e ++ v) = lastSegment e ++ v := by
  induction v using List.reverseRecOn with
  | nil => rw [List.append_nil, List.append_nil]
  | append_singleton v c ih =>
    rw [List.forall_mem_append] at h
    rw [← List.append_assoc, lastSegment_concat, ih h.1, if_neg (by simp [h.2 c]),
      List.append_assoc]

theorem not_isSeparator_of_isDigit {c : Char} (h : isDigit c = true) : isSeparator c = false := by
  have hall : "0123456789".toList.all (!isSeparator ·) = true := by decide
  simpa using of_isDigit hall h

theorem lastSegment_eq_nil {e : List Char} (h : ∀ c ∈ e.getLast?, isSeparator c = true) :
    lastSegment e = [] := by
  rcases List.eq_nil_or_concat e with rfl | ⟨front, c, rfl⟩
  · rfl
  · rw [List.concat_eq_append] at *
    rw [lastSegment_concat, if_pos (h c List.getLast?_concat)]

/-- A minus is a sign at the start, after an operator and after an opening parenthesis. -/
theorem endsInSign_concat (e : List Char) (c : Char) :
    endsInSign (e ++ [c]) =
      (c == '-' && e.getLast?.all fun b => isOperatorChar b || b == '(') := by
  unfold endsInSign
  rcases List.eq_nil_or_concat e with rfl | ⟨front, b, rfl⟩
  · by_cases hc : c = '-' <;> simp [hc]
  · by_cases hc : c = '-' <;> simp [hc]

/-- A sign is an operator at the end. -/
theorem endsInSign_eq_false {test : Char → Bool} (htest : test '-' = false) {e : List Char}
    (h : endsWith test e = true) : endsInSign e = false := by
  obtain ⟨front, c, rfl, hc⟩ := exists_append_of_endsWith h
  rw [endsInSign_concat, Bool.and_eq_false_iff]
  refine .inl (beq_eq_false_iff_ne.2 ?_)
  rintro rfl
  rw [htest] at hc
  cases hc

theorem endsInSign_eq_false_of_not_operator {e : List Char} (h : endsWith isOperatorChar e = false) :
    endsInSign e = false := by
  rcases List.eq_nil_or_concat e with rfl | ⟨front, c, rfl⟩
  · rfl
  · rw [List.concat_eq_append] at *
    rw [endsInSign_concat, Bool.and_eq_false_iff]
    refine .inl (beq_eq_false_iff_ne.2 ?_)
    rintro rfl
    simp [endsWith, isOperatorChar] at h

/-- After a digit it does not matter what came before that. -/
theorem endsInSign_append_digit {d : Char} (hd : isDigit d = true) (e v : List Char) :
    endsInSign (e ++ d :: v) = endsInSign (d :: v) := by
  have hminus : d ≠ '-' := by
    rintro rfl
    cases hd
  rcases List.eq_nil_or_concat v with rfl | ⟨v, c, rfl⟩
  · rw [endsInSign_concat, ← List.nil_append [d], endsInSign_concat]
    simp [hminus]
  · rw [List.concat_eq_append, ← List.cons_append, ← List.append_assoc, endsInSign_concat,
      endsInSign_concat, List.getLast?_append_of_ne_nil _ (List.cons_ne_nil d v)]

/-! ## The invariant -/

/-- No second point comes into a number, and no operator after a sign. -/
structure Allowed (front : List Char) (c : Char) : Prop where
  point : c = '.' → '.' ∉ lastSegment front
  operator : isOperatorChar c = true → endsInSign front = false

/-- Each character is allowed after all that is before it. -/
def Orderly (e : List Char) : Prop := ∀ front c, front ++ [c] <+: e → Allowed front c

theorem Allowed.of_plain {c : Char} (hpoint : c ≠ '.') (hc : isOperatorChar c = false)
    (front : List Char) : Allowed front c :=
  ⟨fun h => absurd h hpoint, fun h => by simp [hc] at h⟩

theorem Orderly.nil : Orderly [] := by
  intro front c h
  simpa using h.length_le

theorem Orderly.of_isPrefix {e e' : List Char} (h : Orderly e) (hp : e' <+: e) : Orderly e' :=
  fun front c hfront => h front c (hfront.trans hp)

theorem orderly_append_iff {e v : List Char} :
    Orderly (e ++ v) ↔ Orderly e ∧ ∀ front c, front ++ [c] <+: v → Allowed (e ++ front) c := by
  constructor
  · intro h
    have he := h.of_isPrefix (List.prefix_append e v)
    refine ⟨he, fun front c hfront => h _ c ?_⟩
    rw [List.append_assoc]
    exact (List.prefix_append_right_inj e).2 hfront
  · rintro ⟨he, hv⟩ front c hfront
    rcases List.prefix_or_prefix_of_prefix hfront (List.prefix_append e v) with hp | hp
    · exact he front c hp
    · obtain ⟨w, hw⟩ := hp
      rcases List.eq_nil_or_concat w with rfl | ⟨w, d, rfl⟩
      · rw [List.append_nil] at hw
        exact he front c (hw ▸ List.prefix_refl _)
      · rw [List.concat_eq_append, ← List.append_assoc] at hw
        obtain ⟨rfl, hd⟩ := List.append_inj' hw rfl
        obtain rfl := List.singleton_injective hd
        rw [List.append_assoc] at hfront
        exact hv w d ((List.prefix_append_right_inj e).1 hfront)

theorem orderly_concat_iff {e : List Char} {c : Char} :
    Orderly (e ++ [c]) ↔ Orderly e ∧ Allowed e c := by
  rw [orderly_append_iff]
  refine and_congr_right fun _ => ⟨fun h => ?_, fun h front d hfront => ?_⟩
  · simpa using h [] c (List.prefix_refl _)
  · have hnil : front = [] := List.eq_nil_of_length_eq_zero (by
      have hlength := hfront.length_le
      simp only [List.length_append, List.length_singleton] at hlength
      omega)
    subst hnil
    obtain rfl : d = c := by simpa using hfront
    rwa [List.append_nil]

theorem Orderly.concat {e : List Char} (h : Orderly e) {c : Char} (hc : Allowed e c) :
    Orderly (e ++ [c]) :=
  orderly_concat_iff.2 ⟨h, hc⟩

/-- No point comes after digits that a point comes before. -/
theorem Orderly.not_point {front digits after : List Char} (hdigits : ∀ c ∈ digits, isDigit c = true) :
    ¬Orderly ((front ++ ['.']) ++ (digits ++ '.' :: after)) := by
  intro h
  rw [← List.append_assoc, List.append_cons _ '.' after] at h
  have hallowed := h ((front ++ ['.']) ++ digits) '.' (List.prefix_append _ _)
  refine hallowed.point rfl ?_
  rw [lastSegment_append_of_forall _ fun c hc => not_isSeparator_of_isDigit (hdigits c hc),
    lastSegment_concat]
  simp [isSeparator, isOperatorChar]

/-! ## Characters that are appended -/

theorem Orderly.appendedPoint {e : List Char} (h : Orderly e) :
    Orderly (e ++ appendedPoint e) := by
  -- a zero that starts a segment
  have hzero : ∀ {e : List Char}, Orderly e → lastSegment e = [] → Orderly (e ++ ['0', '.']) := by
    intro e he hsegment
    have hnext := he.concat (.of_plain (c := '0') (by decide) (by decide) e)
    have hpoint : Allowed (e ++ ['0']) '.' := by
      refine ⟨fun _ => ?_, fun hop => absurd hop (by decide)⟩
      rw [lastSegment_concat, hsegment]
      decide
    simpa using hnext.concat hpoint
  unfold Keypad.appendedPoint
  dsimp only
  split
  · rwa [List.append_nil]
  · rename_i hpoint
    split
    · rename_i hsegment
      split
      · rename_i hclosing
        have hstar := h.concat ⟨fun hc => absurd hc (by decide),
          fun _ => endsInSign_eq_false (by decide) hclosing⟩ (c := '*')
        simpa using hzero hstar (by rw [lastSegment_concat]; rfl)
      · exact hzero h (by simpa using hsegment)
    · refine h.concat ⟨fun _ => by simpa using hpoint, fun hop => absurd hop (by decide)⟩

theorem not_isOperatorChar_of_isDigit {c : Char} (h : isDigit c = true) :
    isOperatorChar c = false := by
  have hall : "0123456789".toList.all (!isOperatorChar ·) = true := by decide
  simpa using of_isDigit hall h

theorem not_isOperatorChar_of_isDigitRun {c : Char} (h : isDigitRun [c] = true) :
    isOperatorChar c = false := by
  rw [Bool.eq_false_iff]
  intro hop
  simp only [isOperatorChar, Bool.or_eq_true, beq_iff_eq] at hop
  rcases hop with ((rfl | rfl) | rfl) | rfl <;> revert h <;> decide

theorem Orderly.appended {e : List Char} (h : Orderly e) {c : Char}
    (hoperator : isOperatorChar c = true → endsWith isOperatorChar e = false) :
    Orderly (e ++ appended e [c]) := by
  unfold Keypad.appended
  split
  · exact h.appendedPoint
  · rename_i hpoint
    split
    · rename_i hopening
      split
      · rename_i hend
        have hstar := h.concat ⟨fun hc => absurd hc (by decide),
          fun _ => endsInSign_eq_false (by decide) hend⟩ (c := '*')
        simpa using hstar.concat (.of_plain (c := '(') (by decide) (by decide) _)
      · exact h.concat (.of_plain (by decide) (by decide) e)
    · simp only [List.cons.injEq, and_true] at hpoint
      split
      · rename_i hdigit
        rw [Bool.and_eq_true] at hdigit
        have hstar := h.concat ⟨fun hc => absurd hc (by decide),
          fun _ => endsInSign_eq_false (by decide) hdigit.2⟩ (c := '*')
        have hc := not_isOperatorChar_of_isDigitRun hdigit.1
        simpa using hstar.concat (.of_plain hpoint hc _)
      · exact h.concat ⟨fun hc => absurd hc hpoint,
          fun hop => endsInSign_eq_false_of_not_operator (hoperator hop)⟩

/-! ## Keys -/

/-- What comes after a digit may come after it elsewhere too, where its segment holds no more. -/
theorem Allowed.after_digit {d : Char} (hd : isDigit d = true) {e e' rest front : List Char}
    {c : Char} (hfront : front ++ [c] <+: d :: rest)
    (hsegment : lastSegment (e' ++ front) ⊆ lastSegment (e ++ front))
    (h : Allowed (e ++ front) c) : Allowed (e' ++ front) c := by
  refine ⟨fun hc hmem => h.point hc (hsegment hmem), fun hop => ?_⟩
  cases front with
  | nil =>
    obtain ⟨rfl, -⟩ := List.cons_prefix_cons.1 hfront
    rw [not_isOperatorChar_of_isDigit hd] at hop
    cases hop
  | cons x front =>
    obtain ⟨rfl, -⟩ := List.cons_prefix_cons.1 hfront
    rw [endsInSign_append_digit hd, ← endsInSign_append_digit hd e]
    exact h.operator hop

theorem Orderly.pressed {e e' : List Char} (h : Orderly e) (hpressed : Pressed e e') :
    Orderly e' := by
  cases hpressed with
  | shortened hp => exact h.of_isPrefix hp
  | replaced ho hc =>
    obtain ⟨hfront, hlast⟩ := orderly_concat_iff.1 h
    refine hfront.concat ⟨?_, fun _ => hlast.operator ho⟩
    rintro rfl
    cases hc
  | appended hc hstart hoperator => exact h.appended hoperator
  | minus => exact h.concat ⟨fun hc => absurd hc (by decide), fun _ => rfl⟩
  | signed hfound hsign =>
    obtain ⟨-, d, ds, hd, hnumber⟩ := findLastNumber_append hfound
    dsimp only at hnumber
    subst hnumber
    obtain ⟨hbefore, hrest⟩ := orderly_append_iff.1 h
    rw [List.append_cons]
    refine orderly_append_iff.2 ⟨hbefore.concat ⟨fun hc => absurd hc (by decide), fun _ => hsign⟩, ?_⟩
    intro front c hfront
    refine (hrest front c hfront).after_digit hd hfront ?_
    rw [lastSegment_append_of_nil (by rw [lastSegment_concat]; rfl)]
    exact subset_lastSegment_append _ _
  | unsigned hfound hsign =>
    rename_i outer number after
    obtain ⟨-, d, ds, hd, hnumber⟩ := findLastNumber_append hfound
    dsimp only at hnumber
    subst hnumber
    rw [List.append_cons] at h
    obtain ⟨hbefore, hrest⟩ := orderly_append_iff.1 h
    refine orderly_append_iff.2 ⟨(orderly_concat_iff.1 hbefore).1, ?_⟩
    intro front c hfront
    refine (hrest front c hfront).after_digit hd hfront ?_
    have hnil : lastSegment outer = [] := lastSegment_eq_nil fun c hc => by
      rcases hsign c hc with hop | rfl
      · simp [isSeparator, hop]
      · rfl
    rw [lastSegment_append_of_nil hnil]
    exact subset_lastSegment_append _ _

theorem orderly_pressAll (limit : Option Int) (keys : List (List Char)) {e : List Char}
    (h : Orderly e) : Orderly (pressAll limit e keys) :=
  pressAll_induction (fun _ _ hp he => he.of_isPrefix hp) (fun _ _ hp he => he.pressed hp)
    limit keys h

end DeskCalculator.Keypad
