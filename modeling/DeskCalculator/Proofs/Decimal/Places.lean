import DeskCalculator.Decimal.Layout
import DeskCalculator.Proofs.Decimal.Reading

/-!
# Texts of magnitudes

* `decimalDigits_mul_pow` : powers of ten are zeros at the end; `significant` : how many digits are
  left without them (`significant_add_le`, `pow_dvd`);
* `placesText` : the text of a magnitude counted in the 1074th decimal place;
  `Decimal.positional_eq` : a decimal in positional layout has that of its places;
* `length_placesText` : it is as long as its size and its significant digits say, and fewer of these
  make it no longer (`textLength_mono`).
-/

namespace DeskCalculator

/-! ## Powers of ten -/

theorem decimalDigits_mul_pow {n : Nat} (h : n ≠ 0) (k : Nat) :
    decimalDigits (n * 10 ^ k) = decimalDigits n ++ List.replicate k '0' := by
  induction k with
  | zero => rw [Nat.pow_zero, Nat.mul_one, List.replicate_zero, List.append_nil]
  | succ k ih =>
    have hpos : 0 < n * 10 ^ k := Nat.mul_pos (Nat.pos_of_ne_zero h) (Nat.pow_pos (by decide))
    have hzero := Nat.toDigits_append_toDigits (b := 10) (by decide) hpos (by decide : 0 < 10)
    rw [Nat.pow_succ, ← Nat.mul_assoc, Nat.mul_comm (n * 10 ^ k), List.replicate_succ',
      ← List.append_assoc, ← ih]
    exact hzero.symm

theorem length_decimalDigits_mul_pow {n : Nat} (h : n ≠ 0) (k : Nat) :
    (decimalDigits (n * 10 ^ k)).length = (decimalDigits n).length + k := by
  rw [decimalDigits_mul_pow h, List.length_append, List.length_replicate]

theorem length_decimalDigits_pow (k : Nat) : (decimalDigits (10 ^ k)).length = k + 1 := by
  have h := length_decimalDigits_mul_pow Nat.one_ne_zero k
  rw [Nat.one_mul] at h
  rw [h]
  exact Nat.add_comm 1 k

theorem trimZeros_append_replicate (ds : List Char) (k : Nat) :
    trimZeros (ds ++ List.replicate k '0') = trimZeros ds := by
  unfold trimZeros
  rw [List.reverse_append, List.reverse_replicate, List.dropWhile_append_of_pos]
  intro c hc
  rw [List.eq_of_mem_replicate hc]
  rfl

/-! ## Significant digits -/

/-- How many digits a number has without the zeros at its end. -/
def significant (n : Nat) : Nat := (trimZeros (decimalDigits n)).length

theorem significant_mul_pow {n : Nat} (h : n ≠ 0) (k : Nat) :
    significant (n * 10 ^ k) = significant n := by
  unfold significant
  rw [decimalDigits_mul_pow h, trimZeros_append_replicate]

theorem significant_add_le {n k : Nat} (hn : n ≠ 0) (h : 10 ^ k ∣ n) :
    significant n + k ≤ (decimalDigits n).length := by
  obtain ⟨m, rfl⟩ := h
  have hm : m ≠ 0 := fun hzero => hn (by rw [hzero, Nat.mul_zero])
  rw [Nat.mul_comm, significant_mul_pow hm, length_decimalDigits_mul_pow hm]
  exact Nat.add_le_add_right (length_trimZeros_le _) k

theorem pow_dvd (n : Nat) : 10 ^ ((decimalDigits n).length - significant n) ∣ n := by
  have hvalue : _ = Nat.ofDigitChars 10 (decimalDigits n) 0 := ofDigitChars_trimZeros _
  rw [Nat.ofDigitChars_ten_toDigits] at hvalue
  exact ⟨_, (hvalue.symm.trans (Nat.mul_comm _ _))⟩

theorem significant_pos {n : Nat} (h : n ≠ 0) : 1 ≤ significant n :=
  List.length_pos_iff.2 (Decimal.digits_ne_nil (d := ⟨n, 0⟩) h)

/-! ## Texts -/

/-- The text of a magnitude counted in the 1074th decimal place. -/
def placesText (n : Nat) : List Char :=
  positional (trimZeros (decimalDigits n)) ((decimalDigits n).length - 1074)

namespace Decimal

variable {d : Decimal}

theorem length_decimalDigits_places (hexp : -1074 ≤ d.exponent) (hd : d.coefficient ≠ 0) :
    ((decimalDigits d.places).length : Int) = d.point + 1074 := by
  unfold places point
  rw [length_decimalDigits_mul_pow hd]
  omega

theorem positional_eq (hexp : -1074 ≤ d.exponent) (hd : d.coefficient ≠ 0) :
    positional d.digits d.point = placesText d.places := by
  have hdigits : d.digits = trimZeros (decimalDigits d.places) := by
    unfold digits places
    rw [decimalDigits_mul_pow hd, trimZeros_append_replicate]
  unfold placesText
  rw [length_decimalDigits_places hexp hd, hdigits, Int.add_sub_cancel]

end Decimal

/-! ## Lengths -/

theorem length_positional (digits : List Char) (point : Int) :
    (positional digits point).length =
      if point ≤ 0 then 2 + (-point).toNat + digits.length
      else if digits.length ≤ point.toNat then point.toNat else digits.length + 1 := by
  unfold positional
  split
  · simp only [List.length_cons, List.length_append, List.length_replicate]
    omega
  · dsimp only
    split
    · rw [List.length_append, List.length_replicate]
      omega
    · simp only [List.length_append, List.length_cons, List.length_take, List.length_drop]
      omega

/-- The length of the text of a number of some size, `n` of its digits significant. -/
def textLength (size n : Nat) : Nat :=
  if size ≤ 1074 then 2 + (1074 - size) + n
  else if n ≤ size - 1074 then size - 1074 else n + 1

theorem length_placesText (n : Nat) :
    (placesText n).length = textLength (decimalDigits n).length (significant n) := by
  unfold placesText textLength
  rw [length_positional]
  change (if _ then _ + significant n else if significant n ≤ _ then _ else significant n + 1) = _
  by_cases hsize : (decimalDigits n).length ≤ 1074
  · rw [if_pos (by omega), if_pos hsize]
    congr 2
    omega
  · rw [if_neg (by omega), if_neg hsize,
      show (((decimalDigits n).length : Int) - 1074).toNat = (decimalDigits n).length - 1074 by omega]

theorem textLength_mono (size : Nat) {n m : Nat} (h : n ≤ m) :
    textLength size n ≤ textLength size m := by
  unfold textLength
  split
  · omega
  · split <;> split <;> omega

/-- A single digit one place further up needs no more room, unless the digits stand before the
point: there it needs room for one character more. -/
theorem textLength_succ_one (size : Nat) {n : Nat} (h : 1 ≤ n) :
    textLength (size + 1) 1 ≤ textLength size n ∨
      1074 < size ∧ textLength (size + 1) 1 ≤ textLength size n + 1 := by
  unfold textLength
  by_cases hsize : size ≤ 1074
  · left
    rw [if_pos hsize]
    split
    · omega
    · split <;> omega
  · right
    refine ⟨by omega, ?_⟩
    rw [if_neg hsize, if_neg (by omega), if_pos (by omega)]
    split <;> omega

end DeskCalculator
