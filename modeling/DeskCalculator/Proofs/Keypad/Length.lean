import DeskCalculator.Keypad.Press
import DeskCalculator.Proofs.Keypad.Appended
import DeskCalculator.Proofs.Keypad.LastNumber

/-!
# Lengths of composed expressions

* `length_clip_le` : what is cut to a limit keeps to it, or loses a character;
* `length_toggleSign_le` : a sign keeps to the limit, unless the expression was longer already, as a
  value does (`length_appendValue_le`);
* `length_press_le` : so does every key; `length_press_le_limit`, `length_pressAll_le_limit` : a limit
  once kept is kept.
-/

namespace DeskCalculator.Keypad

/-- A negative limit takes at least one character away. -/
theorem length_clip_le (limit : Int) (text : List Char) :
    (clip limit text).length ≤ max limit.toNat (text.length - 1) := by
  unfold clip upTo
  split <;> rw [List.length_take] <;> omega

/-- A sign is put in or taken out, or is all there is. -/
theorem length_toggleSign_le (limit : Option Int) (e : List Char) :
    (toggleSign limit e).length ≤ max (max e.length 1) (effectiveLimit limit).toNat := by
  unfold toggleSign
  split
  · split
    · rw [List.length_singleton]
      omega
    · omega
  · rename_i before number after hfound
    have hlength := congrArg List.length (findLastNumber_append hfound).1
    simp only [List.length_append] at hlength
    split
    · simp only [List.length_append, List.length_dropLast]
      omega
    · have hclip := length_clip_le (effectiveLimit limit)
        (before ++ '-' :: (number ++ after))
      simp only [List.length_append, List.length_cons] at hclip
      omega

/-- **No key makes an expression longer than the limit**, if it is not longer already. -/
theorem length_press_le (limit : Option Int) (e key : List Char) :
    (press limit e key).length ≤ max (max e.length 1) (effectiveLimit limit).toNat := by
  have hsame : e.length ≤ max (max e.length 1) (effectiveLimit limit).toNat := by omega
  unfold press
  split
  · exact Nat.zero_le _
  · split
    · unfold backspace
      rw [List.length_dropLast]
      omega
    · split
      · exact length_toggleSign_le limit e
      · split
        · split
          · exact Nat.le_trans (length_appendValue_le limit e _) (by omega)
          · exact hsame
        · exact hsame

theorem length_press_le_limit {limit : Option Int} {n : Nat} (hlimit : effectiveLimit limit = n)
    (hpos : 1 ≤ n) {e : List Char} (h : e.length ≤ n) (key : List Char) :
    (press limit e key).length ≤ n := by
  have hpress := length_press_le limit e key
  omega

theorem length_pressAll_le_limit {limit : Option Int} {n : Nat} (hlimit : effectiveLimit limit = n)
    (hpos : 1 ≤ n) (keys : List (List Char)) {e : List Char} (h : e.length ≤ n) :
    (pressAll limit e keys).length ≤ n := by
  induction keys generalizing e with
  | nil => exact h
  | cons key keys ih => exact ih (length_press_le_limit hlimit hpos h key)

end DeskCalculator.Keypad
