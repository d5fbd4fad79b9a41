import DeskCalculator.Proofs.Expression.Acceptance
import DeskCalculator.Proofs.Keypad.Composed

/-!
# What is accepted of what keys compose

* `Composed.operandsApart` : composed characters, scanned, are tokens with their operands apart;
* `isSentence_of_pressAll` : so what keys compose is a sentence, if it has a value.
-/

namespace DeskCalculator

open Grammar (IsSentence)

theorem Lexeme.of_endsOperand {l : Lexeme} {t : Token} (h : l.token = .ok t)
    (ht : t.endsOperand = true) :
    (∃ d ∈ l.chars.getLast?, isDigit d = true ∧ l.isRun = true) ∨ l = .mark ')' := by
  rcases of_token h with ⟨cs, n, rfl, hn, -⟩ | ⟨-, rfl⟩ | ⟨hl, -⟩ | ⟨c, o, -, -, rfl⟩
  · obtain ⟨d, hd, hdigit⟩ := isDigit_getLast_of_runNumeral? hn
    exact .inl ⟨d, hd, hdigit, rfl⟩
  · cases ht
  · exact .inr hl
  · cases ht

theorem Lexeme.of_startsOperand {l : Lexeme} {t : Token} (h : l.token = .ok t)
    (ht : t.startsOperand = true) : l.isRun = true ∨ l = .mark '(' := by
  rcases of_token h with ⟨cs, n, rfl, -, -⟩ | ⟨hl, -⟩ | ⟨-, rfl⟩ | ⟨c, o, -, -, rfl⟩
  · exact .inl rfl
  · exact .inr hl
  · cases ht
  · cases ht

namespace Keypad

theorem not_isBlank_of_isCharacterKey {c : Char} (h : isCharacterKey c = true) :
    isBlank c = false := by
  simp only [isCharacterKey, isOperatorChar, Bool.or_eq_true, beq_iff_eq] at h
  rcases h with (((hdigit | ((rfl | rfl) | rfl) | rfl) | rfl) | rfl) | rfl
  · exact not_isBlank_of_isNumberChar (by simp [isNumberChar, hdigit])
  all_goals decide

theorem Composed.withoutBlanks {e : List Char} (h : Composed e) : withoutBlanks e = e :=
  withoutBlanks_eq_self_iff.2 fun c hc => not_isBlank_of_isCharacterKey (h.keys c hc)

theorem Composed.isBlankText {e : List Char} (h : Composed e) (hne : e ≠ []) :
    isBlankText e = false := by
  obtain ⟨c, cs, rfl⟩ := List.exists_cons_of_ne_nil hne
  simp [DeskCalculator.isBlankText, not_isBlank_of_isCharacterKey (h.keys c List.mem_cons_self)]

theorem Composed.operandsApart {e : List Char} (h : Composed e) {tokens : List Token}
    (htokens : tokenize e = .ok tokens) : OperandsApart tokens := by
  rw [tokenize, h.withoutBlanks] at htokens
  -- the invariant, read at the seams of lexemes
  have hseams : (lexemes e).IsChain fun l m =>
      ∀ a ∈ l.chars.getLast?, ∀ b ∈ m.chars.head?, mayFollow a b = true := by
    have hfollow := h.follow.tail
    rw [List.tail_cons, ← flatten_lexemes e, List.isChain_flatten, List.isChain_map] at hfollow
    · exact hfollow.2
    · intro hnil
      obtain ⟨l, hl, hchars⟩ := List.mem_map.1 hnil
      exact (of_mem_lexemes hl).1 hchars
  have hboth : (lexemes e).IsChain fun l m =>
      (∀ a ∈ l.chars.getLast?, ∀ b ∈ m.chars.head?, mayFollow a b = true) ∧
        (l.isRun = false ∨ m.isRun = false) :=
    List.isChain_iff_getElem.2 fun i hi => ⟨hseams.getElem i hi, (isChain_lexemes e).getElem i hi⟩
  refine isChain_of_mapM_eq_ok htokens hboth ?_
  rintro l hl m hm t u ⟨hfollow, hruns⟩ ht hu ⟨hends, hstarts⟩
  rcases Lexeme.of_startsOperand hu hstarts with hrun | rfl
  · obtain ⟨c, cs, hchars⟩ := List.exists_cons_of_ne_nil (of_mem_lexemes hm).1
    have hc : isNumberChar c = true := by
      rw [(of_mem_lexemes hm).2 c (by rw [hchars]; exact List.mem_cons_self), hrun]
    rcases Lexeme.of_endsOperand ht hends with ⟨d, -, -, hrun'⟩ | rfl
    · -- two runs would have been one
      rw [hrun, hrun'] at hruns
      simp at hruns
    · have hnext := hfollow ')' rfl c (by rw [hchars]; rfl)
      rw [not_mayFollow_number hc] at hnext
      cases hnext
  · have hlast : ∃ d ∈ l.chars.getLast?, isDigit d = true ∨ d = ')' := by
      rcases Lexeme.of_endsOperand ht hends with ⟨d, hd, hdigit, -⟩ | rfl
      · exact ⟨d, hd, .inl hdigit⟩
      · exact ⟨')', rfl, .inr rfl⟩
    obtain ⟨d, hd, hdigit⟩ := hlast
    have hnext := hfollow d hd '(' rfl
    rw [not_mayFollow_opening hdigit] at hnext
    cases hnext

/-- **What keys compose is a sentence, if it has a value**, whatever the keys and the length
limit. -/
theorem isSentence_of_pressAll (limit : Option Int) (keys : List (List Char)) {value : Binary64}
    (hne : pressAll limit [] keys ≠ [])
    (h : evaluate (pressAll limit [] keys) = .ok value) :
    ∃ tokens, tokenize (pressAll limit [] keys) = .ok tokens ∧ IsSentence tokens := by
  have hcomposed : Composed (pressAll limit [] keys) := composed_pressAll limit keys .nil
  obtain ⟨tokens, htokens⟩ := exists_tokens_of_evaluate h
  have hapart := hcomposed.operandsApart htokens
  exact ⟨tokens, htokens, isSentence_of_evaluate (hcomposed.isBlankText hne) htokens h hapart⟩

/-- Two products are implied, and a sign is put after the second one. -/
theorem isSentence_of_pressAll_implied_products :
    let keys := ["2", "(", "3", "-", "4", ")", "5", "toggleSign", "nothing"].map String.toList
    pressAll (some 10) [] keys = "2*(3-4)*-5".toList ∧
      ∃ tokens, tokenize (pressAll (some 10) [] keys) = .ok tokens ∧ IsSentence tokens := by
  intro keys
  have hvalue : evaluate (pressAll (some 10) [] keys)
      = .ok (.finite false ⟨0x4024000000000000, by decide⟩) := by
    decide +kernel
  exact ⟨by decide +kernel, isSentence_of_pressAll (some 10) keys (by decide +kernel) hvalue⟩

end Keypad

end DeskCalculator
