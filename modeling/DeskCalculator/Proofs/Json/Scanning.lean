import DeskCalculator.Json.Token
import DeskCalculator.Json.Writer

/-!
# Scanning what was written

* `isBare` : the characters of words and numbers; `EndsWord` : where a word in front would end;
* `scan_word` : a run of bare characters is scanned on its own, whatever follows that ends it;
  `IsWord` : the runs that are a value's word or number;
* `scan_escape` : an escaped character is scanned as the character;
* `scan_renderText` : a written string is scanned as the token of the string.
-/

namespace DeskCalculator.Json

/-! ## Words -/

/-- The characters that a word goes on with. -/
def isBare (c : Char) : Bool := !(isGap c || c == '"' || (punctuation? c).isSome)

/-- Whether a word in front of the text ends there. -/
def EndsWord (rest : List Char) : Prop := ∀ c ∈ rest.head?, isBare c = false

theorem endsWord_nil : EndsWord [] := nofun

theorem endsWord_cons {c : Char} (hc : isBare c = false) (cs : List Char) : EndsWord (c :: cs) := by
  intro d hd
  obtain rfl := Option.some.inj hd
  exact hc

theorem isBare_of_punctuation? {c : Char} {t : Token} (hc : punctuation? c = some t) :
    isBare c = false := by
  unfold isBare
  rw [hc, Option.isSome_some, Bool.or_true, Bool.not_true]

theorem stepBetween_of_isBare {c : Char} (hc : isBare c = true) :
    stepBetween c = ([], .bare [c]) := by
  unfold isBare at hc
  simp only [Bool.not_eq_true', Bool.or_eq_false_iff, beq_eq_false_iff_ne] at hc
  obtain ⟨⟨hgap, hquote⟩, hmark⟩ := hc
  unfold stepBetween
  rw [hgap, if_neg Bool.false_ne_true, if_neg hquote]
  split
  · rename_i heq
    rw [heq] at hmark
    cases hmark
  · rfl

theorem step_bare_of_isBare {c : Char} (hc : isBare c = true) (word : List Char) :
    (Mode.bare word).step c = ([], .bare (c :: word)) := by
  unfold isBare at hc
  rw [Bool.not_eq_true'] at hc
  unfold Mode.step
  dsimp only
  rw [hc, if_neg Bool.false_ne_true]

theorem scan_bare (word : List Char) {cs rest : List Char} (hcs : ∀ c ∈ cs, isBare c = true)
    (hrest : EndsWord rest) :
    scan (.bare word) (cs ++ rest) = bareTokens (word.reverse ++ cs) ++ scan .between rest := by
  induction cs generalizing word with
  | nil =>
    rw [List.nil_append, List.append_nil]
    cases rest with
    | nil => exact (List.append_nil _).symm
    | cons c rest =>
      have hc := hrest c rfl
      unfold isBare at hc
      rw [Bool.not_eq_false'] at hc
      have hstep : (Mode.bare word).step c =
          (bareTokens word.reverse ++ (stepBetween c).1, (stepBetween c).2) := by
        unfold Mode.step
        dsimp only
        rw [hc, if_pos rfl]
      show ((Mode.bare word).step c).1 ++ scan ((Mode.bare word).step c).2 rest = _
      rw [hstep]
      exact List.append_assoc _ _ _
  | cons c cs ih =>
    show ((Mode.bare word).step c).1 ++ scan ((Mode.bare word).step c).2 (cs ++ rest) = _
    rw [step_bare_of_isBare (hcs c List.mem_cons_self) word]
    refine (ih (c :: word) fun d hd => hcs d (List.mem_cons_of_mem c hd)).trans ?_
    rw [List.reverse_cons, List.append_assoc]
    rfl

/-- A word is scanned on its own. -/
theorem scan_word {cs rest : List Char} (hne : cs ≠ []) (hcs : ∀ c ∈ cs, isBare c = true)
    (hrest : EndsWord rest) : scan .between (cs ++ rest) = bareTokens cs ++ scan .between rest := by
  cases cs with
  | nil => exact absurd rfl hne
  | cons c cs =>
    show (stepBetween c).1 ++ scan (stepBetween c).2 (cs ++ rest) = _
    rw [stepBetween_of_isBare (hcs c List.mem_cons_self)]
    exact scan_bare [c] (fun d hd => hcs d (List.mem_cons_of_mem c hd)) hrest

/-- The characters are the word, or the number, of a value. -/
structure IsWord (cs : List Char) (v : Json) : Prop where
  ne_nil : cs ≠ []
  bare : ∀ c ∈ cs, isBare c = true
  tokens : bareTokens cs = [.scalar v]

theorem IsWord.scan {cs rest : List Char} {v : Json} (h : IsWord cs v) (hrest : EndsWord rest) :
    scan .between (cs ++ rest) = .scalar v :: scan .between rest := by
  rw [scan_word h.ne_nil h.bare hrest, h.tokens]
  rfl

/-! ## Strings -/

theorem hexValue?_digitChar : ∀ d < 16, hexValue? (Nat.digitChar d) = some d := by decide

theorem ofUnit_toNat {c : Char} (hc : c.toNat < 0x20) : Glyph.ofUnit c.toNat = .char c := by
  unfold Glyph.ofUnit
  rw [dif_neg (by omega), Char.ofNat_toNat]

/-- A control character in four hexadecimal digits. -/
theorem scan_control {c : Char} (hc : c.toNat < 0x20) (read : Text) (cs : List Char) :
    scan (.string read) ('\\' :: 'u' :: '0' :: '0' :: Nat.digitChar (c.toNat / 16) ::
      Nat.digitChar (c.toNat % 16) :: cs) = scan (.string (.char c :: read)) cs := by
  have hhigh := hexValue?_digitChar (c.toNat / 16) (by omega)
  have hlow := hexValue?_digitChar (c.toNat % 16) (by omega)
  have hunit : Glyph.ofUnit (c.toNat / 16 * 16 + c.toNat % 16) = .char c := by
    rw [Nat.div_add_mod', ofUnit_toNat hc]
  show scan (.unit read 2 0) _ = _
  generalize c.toNat / 16 = high at *
  generalize c.toNat % 16 = low at *
  simp only [scan, Mode.step, hhigh, hlow]
  simp [hunit]

theorem scan_escape (c : Char) (read : Text) (cs : List Char) :
    scan (.string read) (escape c ++ cs) = scan (.string (.char c :: read)) cs := by
  unfold escape
  split
  · rename_i letter hletter
    unfold shortEscape? at hletter
    split at hletter
    case h_8 => cases hletter
    all_goals
      obtain rfl := Option.some.inj hletter
      rfl
  · rename_i hnone
    split
    · rename_i hcontrol
      exact scan_control hcontrol read cs
    · rename_i hplain
      have hquote : c ≠ '"' := by
        rintro rfl
        cases hnone
      have hslash : c ≠ '\\' := by
        rintro rfl
        cases hnone
      show ((Mode.string read).step c).1 ++ scan ((Mode.string read).step c).2 cs = _
      unfold Mode.step
      dsimp only
      rw [if_neg hquote, if_neg hslash, if_neg hplain]
      rfl

theorem scan_escaped (xs : List Char) (read : Text) (rest : List Char) :
    scan (.string read) (xs.flatMap escape ++ '"' :: rest) =
      .scalar (.text (Text.joinHalves (read.reverse ++ Text.ofChars xs))) :: scan .between rest := by
  induction xs generalizing read with
  | nil =>
    show Token.scalar (.text (Text.joinHalves read.reverse)) :: scan .between rest = _
    rw [show Text.ofChars [] = [] from rfl, List.append_nil]
  | cons x xs ih =>
    rw [List.flatMap_cons, List.append_assoc, scan_escape, ih, List.reverse_cons, List.append_assoc]
    rfl

/-- What is written of a string without halves are its characters, escaped. -/
theorem exists_chars_of_escaped {text : Text} {cs : List Char}
    (h : text.flatMap escapeGlyph = Text.ofChars cs) :
    ∃ xs, text = Text.ofChars xs ∧ cs = xs.flatMap escape := by
  induction text generalizing cs with
  | nil =>
    have hnil := List.map_eq_nil_iff.1 h.symm
    exact ⟨[], rfl, hnil⟩
  | cons g text ih =>
    rw [List.flatMap_cons] at h
    obtain ⟨front, back, rfl, hfront, hback⟩ := List.map_eq_append_iff.1 h.symm
    obtain ⟨xs, rfl, rfl⟩ := ih hback.symm
    cases g with
    | half offset =>
      obtain ⟨c, -, -, hc, -⟩ := List.map_eq_cons_iff.1 hfront
      cases hc
    | char c =>
      have hinj : front = escape c := (List.map_inj_right fun _ _ => Glyph.char.inj).1 hfront
      exact ⟨c :: xs, rfl, by rw [hinj, List.flatMap_cons]⟩

/-- A written string is scanned as its token. -/
theorem scan_renderText {text : Text} {cs : List Char} (h : renderText text = Text.ofChars cs)
    (rest : List Char) :
    scan .between (cs ++ rest) = .scalar (.text text) :: scan .between rest := by
  obtain ⟨quote, cs, rfl, hquote, htail⟩ := List.map_eq_cons_iff.1 h.symm
  obtain ⟨front, back, rfl, hfront, hback⟩ := List.map_eq_append_iff.1 htail
  obtain ⟨close, nothing, rfl, hclose, hnothing⟩ := List.map_eq_cons_iff.1 hback
  obtain rfl := List.map_eq_nil_iff.1 hnothing
  obtain rfl := Glyph.char.inj hquote
  obtain rfl := Glyph.char.inj hclose
  obtain ⟨xs, rfl, rfl⟩ := exists_chars_of_escaped hfront.symm
  have hscan := scan_escaped xs [] rest
  rw [List.reverse_nil, List.nil_append, Text.joinHalves_ofChars] at hscan
  rw [← hscan]
  show scan (.string []) (_ ++ rest) = _
  rw [List.append_assoc]
  rfl

end DeskCalculator.Json
