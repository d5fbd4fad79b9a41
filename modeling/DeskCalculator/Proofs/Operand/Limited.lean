import DeskCalculator.Operand

/-!
# Operands within a length

* `of_firstFitting`, `firstFitting_eq_none_iff` : the search takes the most digits that fit, and
  gives up when not even one does;
* `length_of_operand` : what is given within a limit keeps to it.
-/

namespace DeskCalculator

variable {negative : Bool} {rank : Nat} {limit : Int} {text : List Char}

/-- Among the roundings that fit, the one with the most digits is taken. -/
theorem of_firstFitting {n : Nat} (h : firstFitting negative rank limit n = some text) :
    ∃ k, 1 ≤ k ∧ k ≤ n ∧ text = shortenedText negative rank k ∧ (text.length : Int) ≤ limit ∧
      ∀ j, k < j → j ≤ n → limit < (shortenedText negative rank j).length := by
  induction n with
  | zero => cases h
  | succ n ih =>
    unfold firstFitting at h
    dsimp only at h
    split at h
    · rename_i hfits
      obtain rfl := Option.some.inj h
      exact ⟨n + 1, by omega, Nat.le_refl _, rfl, hfits, by omega⟩
    · rename_i hlong
      obtain ⟨k, hpos, hk, htext, hfits, hmost⟩ := ih h
      refine ⟨k, hpos, by omega, htext, hfits, fun j hkj hj => ?_⟩
      rcases Nat.eq_or_lt_of_le hj with rfl | hlt
      · exact Int.not_le.1 hlong
      · exact hmost j hkj (Nat.le_of_lt_succ hlt)

theorem firstFitting_eq_none_iff {n : Nat} :
    firstFitting negative rank limit n = none ↔
      ∀ k, 1 ≤ k → k ≤ n → limit < (shortenedText negative rank k).length := by
  induction n with
  | zero => exact ⟨fun _ k hpos hk => by omega, fun _ => rfl⟩
  | succ n ih =>
    unfold firstFitting
    dsimp only
    split
    · rename_i hfits
      refine ⟨nofun, fun hall => ?_⟩
      have hlong := hall (n + 1) (by omega) (Nat.le_refl _)
      omega
    · rename_i hlong
      rw [ih]
      refine ⟨fun hall k hpos hk => ?_, fun hall k hpos hk => hall k hpos (by omega)⟩
      rcases Nat.eq_or_lt_of_le hk with rfl | hlt
      · exact Int.not_le.1 hlong
      · exact hall k hpos (Nat.le_of_lt_succ hlt)

/-- What is given within a limit keeps to it, a limit below one apart. -/
theorem length_of_operandWithin (hlimit : 1 ≤ limit)
    (h : operandWithin negative rank (some limit) = some text) : (text.length : Int) ≤ limit := by
  unfold operandWithin at h
  dsimp only at h
  split at h
  · rename_i hwhole
    obtain rfl := Option.some.inj h
    rcases hwhole with hzero | hfits
    · rw [operandText, if_pos hzero]
      exact hlimit
    · exact hfits
  · obtain ⟨k, -, -, -, hfits, -⟩ := of_firstFitting h
    exact hfits

theorem length_of_operand (hlimit : 1 ≤ limit) {v : Binary64}
    (h : operand (some limit) v = .ok (some text)) : (text.length : Int) ≤ limit := by
  cases v with
  | nan => cases h
  | infinite negative => cases h
  | finite negative rank => exact length_of_operandWithin hlimit (Except.ok.inj h)

end DeskCalculator
