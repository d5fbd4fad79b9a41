import DeskCalculator.Decimal.Numeral
import Mathlib.Data.List.Induction
import Mathlib.Data.List.TakeDrop
import Mathlib.Data.List.TakeWhile

/-!
# Digits of numbers

* `mem_digits_of_isDigit`, `of_isDigit` : there are ten digits; `isDigit_of_mem_decimalDigits` :
  numbers are written with these;
* `lt_pow_length_decimalDigits`, `pow_le_of_ne_zero`, `ofDigitChars_lt` : the number of digits
  brackets a number; `head?_decimalDigits_ne` : the first digit is zero for zero only;
  `decimalDigits_ofDigitChars` : digits without a zero in front are those of their number;
* `trimZeros_append` : what is trimmed off is zeros; `getLast?_trimZeros_ne` : all at the end;
  `ofDigitChars_trimZeros` : so much is a number divided by.
-/

namespace DeskCalculator

theorem mem_digits_of_isDigit {c : Char} (h : isDigit c = true) : c ∈ "0123456789".toList := by
  simp only [isDigit, Bool.and_eq_true, decide_eq_true_eq, Char.le_def, UInt32.le_iff_toNat_le] at h
  obtain ⟨hlow, hhigh⟩ := h
  have hcode : c.toNat ∈ List.range' 48 10 := by
    rw [List.mem_range']
    exact ⟨c.toNat - 48, by simp at hlow hhigh; omega⟩
  have hall : ∀ n ∈ List.range' 48 10, Char.ofNat n ∈ "0123456789".toList := by decide
  have hmem := hall c.toNat hcode
  rwa [Char.ofNat_toNat] at hmem

/-- What holds of the ten digits. -/
theorem of_isDigit {p : Char → Bool} (h : "0123456789".toList.all p = true) {c : Char}
    (hc : isDigit c = true) : p c = true :=
  List.all_eq_true.1 h c (mem_digits_of_isDigit hc)

theorem isDigit_of_mem_decimalDigits {n : Nat} {c : Char} (h : c ∈ decimalDigits n) :
    isDigit c = true := by
  have hc := Nat.isDigit_of_mem_toDigits (by decide) (by decide) h
  simp only [Char.isDigit, Bool.and_eq_true, decide_eq_true_eq] at hc
  simp only [isDigit, Bool.and_eq_true, decide_eq_true_eq, Char.le_def]
  exact ⟨hc.1, hc.2⟩

theorem lt_pow_length_decimalDigits (n : Nat) : n < 10 ^ (decimalDigits n).length :=
  (Nat.length_toDigits_le_iff (by decide) Nat.length_toDigits_pos).1 (Nat.le_refl _)

theorem pow_le_of_ne_zero {n : Nat} (h : n ≠ 0) : 10 ^ ((decimalDigits n).length - 1) ≤ n := by
  by_contra hlt
  have hpos : 0 < (decimalDigits n).length := Nat.length_toDigits_pos
  rcases Nat.eq_zero_or_pos ((decimalDigits n).length - 1) with hone | hmore
  · rw [hone] at hlt
    omega
  · have hle := (Nat.length_toDigits_le_iff (by decide) hmore).2 (Nat.lt_of_not_le hlt)
    change (decimalDigits n).length ≤ _ at hle
    omega

theorem span_digits {cs rest : List Char} (hcs : ∀ c ∈ cs, isDigit c = true)
    (hrest : ∀ c ∈ rest.head?, isDigit c = false) : (cs ++ rest).span isDigit = (cs, rest) := by
  rw [List.span_eq_takeWhile_dropWhile, List.takeWhile_append_of_pos hcs,
    List.dropWhile_append_of_pos hcs]
  cases rest with
  | nil => simp
  | cons c rest => simp [hrest c rfl]

/-! ## Numbers of digits -/

theorem ofDigitChars_lt {ds : List Char} (h : ∀ c ∈ ds, isDigit c = true) :
    Nat.ofDigitChars 10 ds 0 < 10 ^ ds.length := by
  suffices hinit : ∀ init, Nat.ofDigitChars 10 ds init < (init + 1) * 10 ^ ds.length by
    simpa using hinit 0
  induction ds with
  | nil =>
    intro init
    rw [Nat.ofDigitChars_nil, List.length_nil, Nat.pow_zero]
    omega
  | cons c ds ih =>
    intro init
    have hall : "0123456789".toList.all (fun d => d.toNat - '0'.toNat < 10) = true := by decide
    have hc := of_decide_eq_true (of_isDigit hall (h c List.mem_cons_self))
    have hrest := ih (fun d hd => h d (List.mem_cons_of_mem c hd))
    rw [Nat.ofDigitChars_cons]
    calc Nat.ofDigitChars 10 ds (10 * init + (c.toNat - '0'.toNat))
        < (10 * init + (c.toNat - '0'.toNat) + 1) * 10 ^ ds.length := hrest _
      _ ≤ (10 * (init + 1)) * 10 ^ ds.length := Nat.mul_le_mul_right _ (by omega)
      _ = (init + 1) * 10 ^ (c :: ds).length := by
        rw [List.length_cons, Nat.pow_succ, Nat.mul_comm 10, Nat.mul_assoc, Nat.mul_comm 10]

/-- A number has no more digits than any spelling of it. -/
theorem length_decimalDigits_ofDigitChars_le {ds : List Char} (h : ∀ c ∈ ds, isDigit c = true)
    (hne : ds ≠ []) : (decimalDigits (Nat.ofDigitChars 10 ds 0)).length ≤ ds.length :=
  (Nat.length_toDigits_le_iff (by decide) (List.length_pos_iff.2 hne)).2 (ofDigitChars_lt h)

theorem head?_decimalDigits_ne {n : Nat} (h : n ≠ 0) : (decimalDigits n).head? ≠ some '0' := by
  intro hhead
  obtain ⟨ds, hds⟩ := List.head?_eq_some_iff.1 hhead
  have hdigits : ∀ c ∈ ds, isDigit c = true := by
    intro c hc
    apply isDigit_of_mem_decimalDigits (n := n)
    rw [hds]
    exact List.mem_cons_of_mem '0' hc
  have hvalue : Nat.ofDigitChars 10 (decimalDigits n) 0 = n := Nat.ofDigitChars_ten_toDigits
  have hlow := pow_le_of_ne_zero h
  have hhigh := ofDigitChars_lt hdigits
  rw [hds, Nat.ofDigitChars_cons] at hvalue
  rw [hds, List.length_cons, Nat.add_sub_cancel] at hlow
  change Nat.ofDigitChars 10 ds 0 = n at hvalue
  omega

/-- Digits that do not begin with a zero are those of the number that they denote. -/
theorem decimalDigits_ofDigitChars {ds : List Char} (hdigits : ∀ c ∈ ds, isDigit c = true)
    (hne : ds ≠ []) (hhead : ds.head? ≠ some '0') :
    decimalDigits (Nat.ofDigitChars 10 ds 0) = ds := by
  induction ds using List.reverseRecOn with
  | nil => exact absurd rfl hne
  | append_singleton ds c ih =>
    obtain ⟨hds, hc⟩ := List.forall_mem_append.1 hdigits
    have hall : "0123456789".toList.all (fun d => d.toNat - '0'.toNat < 10 &&
      Nat.digitChar (d.toNat - '0'.toNat) == d) = true := by decide
    have hchar := of_isDigit hall (hc c (List.mem_singleton_self c))
    simp only [Bool.and_eq_true, decide_eq_true_eq, beq_iff_eq] at hchar
    obtain ⟨hlt, hchar⟩ := hchar
    have hlast : decimalDigits (c.toNat - '0'.toNat) = [c] := by
      rw [decimalDigits, Nat.toDigits_of_lt_base hlt, hchar]
    rw [Nat.ofDigitChars_append, Nat.ofDigitChars_cons, Nat.ofDigitChars_nil]
    by_cases hnil : ds = []
    · subst hnil
      rw [Nat.ofDigitChars_nil, Nat.mul_zero, Nat.zero_add]
      exact hlast
    · rw [List.head?_append, List.head?_eq_some_head hnil, Option.some_or,
        ← List.head?_eq_some_head hnil] at hhead
      have hdigits := ih hds hnil hhead
      have hpos : 0 < Nat.ofDigitChars 10 ds 0 := by
        refine Nat.pos_of_ne_zero fun hzero => hhead ?_
        rw [← hdigits, hzero]
        rfl
      rw [decimalDigits, ← Nat.toDigits_append_toDigits (by decide) hpos hlt]
      exact congrArg₂ (· ++ ·) hdigits hlast

/-! ## Zeros at the end -/

theorem trimZeros_append (ds : List Char) :
    trimZeros ds ++ List.replicate (ds.length - (trimZeros ds).length) '0' = ds := by
  have hsplit := List.takeWhile_append_dropWhile (p := (· == '0')) (l := ds.reverse)
  have hzeros : ds.reverse.takeWhile (· == '0') =
      List.replicate (ds.reverse.takeWhile (· == '0')).length '0' :=
    List.eq_replicate_iff.2 ⟨rfl, fun c hc => by simpa using List.mem_takeWhile_imp hc⟩
  have hlength := congrArg List.length hsplit
  rw [List.length_append, List.length_reverse] at hlength
  have hcount : ds.length - (trimZeros ds).length = (ds.reverse.takeWhile (· == '0')).length := by
    rw [trimZeros, List.length_reverse]
    omega
  rw [hcount, trimZeros, ← List.reverse_replicate, ← hzeros, ← List.reverse_append, hsplit,
    List.reverse_reverse]

theorem length_trimZeros_le (ds : List Char) : (trimZeros ds).length ≤ ds.length := by
  have hlength := congrArg List.length (trimZeros_append ds)
  rw [List.length_append] at hlength
  omega

theorem mem_of_mem_trimZeros {ds : List Char} {c : Char} (h : c ∈ trimZeros ds) : c ∈ ds := by
  rw [← trimZeros_append ds]
  exact List.mem_append_left _ h

theorem getLast?_trimZeros_ne (ds : List Char) : (trimZeros ds).getLast? ≠ some '0' := by
  intro hlast
  unfold trimZeros at hlast
  rw [List.getLast?_reverse] at hlast
  have hnot := List.head?_dropWhile_not (· == '0') ds.reverse
  rw [hlast] at hnot
  cases hnot

theorem trimZeros_eq_self {ds : List Char} (h : ds.getLast? ≠ some '0') : trimZeros ds = ds := by
  rw [← List.head?_reverse] at h
  unfold trimZeros
  cases hrev : ds.reverse with
  | nil =>
    rw [List.reverse_eq_nil_iff.1 hrev]
    rfl
  | cons c rest =>
    rw [hrev] at h
    have hc : ¬(c == '0') = true := fun heq => h (congrArg some (beq_iff_eq.1 heq))
    rw [List.dropWhile_cons_of_neg (p := (· == '0')) hc, ← hrev, List.reverse_reverse]

/-- Zeros in front can be counted off. -/
theorem exists_zeros_append (ds : List Char) :
    ∃ zeros rest, ds = List.replicate zeros '0' ++ rest ∧ rest.head? ≠ some '0' := by
  refine ⟨(ds.takeWhile (· == '0')).length, ds.dropWhile (· == '0'), ?_, fun hhead => ?_⟩
  · have hzeros : ds.takeWhile (· == '0') =
        List.replicate (ds.takeWhile (· == '0')).length '0' :=
      List.eq_replicate_iff.2 ⟨rfl, fun c hc => by simpa using List.mem_takeWhile_imp hc⟩
    rw [← hzeros, List.takeWhile_append_dropWhile]
  · have hnot := List.head?_dropWhile_not (· == '0') ds
    rw [hhead] at hnot
    cases hnot

theorem ofDigitChars_trimZeros (ds : List Char) :
    Nat.ofDigitChars 10 (trimZeros ds) 0 * 10 ^ (ds.length - (trimZeros ds).length) =
      Nat.ofDigitChars 10 ds 0 := by
  have hvalue : Nat.ofDigitChars 10 (_ ++ _) 0 = Nat.ofDigitChars 10 ds 0 :=
    congrArg (Nat.ofDigitChars 10 · 0) (trimZeros_append ds)
  rwa [Nat.ofDigitChars_append, Nat.ofDigitChars_replicate_zero, Nat.mul_comm] at hvalue

theorem head?_trimZeros {ds : List Char} (h : trimZeros ds ≠ []) :
    (trimZeros ds).head? = ds.head? := by
  conv => rhs; rw [← trimZeros_append ds]
  rw [List.head?_append, List.head?_eq_some_head h, Option.some_or]

namespace Decimal

variable (d : Decimal)

theorem isDigit_of_mem_digits {c : Char} (h : c ∈ d.digits) : isDigit c = true :=
  isDigit_of_mem_decimalDigits (mem_of_mem_trimZeros h)

/-- The digits without the zeros at the end, and as many zeros as were trimmed off. -/
theorem ofDigitChars_digits :
    Nat.ofDigitChars 10 d.digits 0 * 10 ^ ((decimalDigits d.coefficient).length - d.digits.length) =
      d.coefficient :=
  (ofDigitChars_trimZeros _).trans Nat.ofDigitChars_ten_toDigits

theorem length_digits_le : d.digits.length ≤ (decimalDigits d.coefficient).length :=
  length_trimZeros_le _

theorem head?_digits_ne {d : Decimal} (h : d.coefficient ≠ 0) : d.digits.head? ≠ some '0' := by
  unfold digits
  by_cases hnil : trimZeros (decimalDigits d.coefficient) = []
  · rw [hnil]
    exact nofun
  · rw [head?_trimZeros hnil]
    exact head?_decimalDigits_ne h

theorem digits_ne_nil {d : Decimal} (h : d.coefficient ≠ 0) : d.digits ≠ [] := by
  intro hnil
  have hvalue := d.ofDigitChars_digits
  rw [hnil, Nat.ofDigitChars_nil, Nat.zero_mul] at hvalue
  exact h hvalue.symm

end Decimal

end DeskCalculator
