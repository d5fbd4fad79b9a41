/-!
# Matching with backtracking

A match at a place of a text takes as much as it can, and takes less when what comes next does not
match otherwise.

* `Matcher` : what a part of a text has to look like;
* `Matcher.rests` : what a match at the start of a text can leave, the first choice first;
  `Matcher.rests_suffix` : an end of the text;
* `Matcher.head?_manyRests`, `Matcher.head?_rests_several`, `Matcher.head?_rests_next` : the first
  choice; `Matcher.mem_manyRests_iff`, `Matcher.mem_rests_several_iff` : all choices;
* `Matcher.search` : the first place of a text where there is a match, and where it ends
  (`Matcher.search_cons`).
-/

namespace DeskCalculator

/-- What a part of a text has to look like. Only single characters are repeated. -/
inductive Matcher
  /-- One character of a class. -/
  | one (p : Char → Bool)
  /-- As many characters of a class as there are, or fewer. -/
  | many (p : Char → Bool)
  /-- A match directly after another. -/
  | next (first second : Matcher)
  /-- A match, or else nothing. -/
  | optional (matcher : Matcher)
  /-- Nothing, and no match directly after it. -/
  | notAhead (matcher : Matcher)

/-- A part of a text by its places: where it starts, and where what follows it starts. -/
@[ext] structure Span where
  start : Nat
  stop : Nat
  deriving DecidableEq

namespace Matcher

/-- One character of a class, and as many more as there are, or fewer. -/
def several (p : Char → Bool) : Matcher := .next (.one p) (.many p)

/-- What is left of a text after characters of a class, the most of them first. -/
def manyRests (p : Char → Bool) : List Char → List (List Char)
  | [] => [[]]
  | c :: cs => if p c then manyRests p cs ++ [c :: cs] else [c :: cs]

/-- What a match at the start of a text can leave, in the order in which it is tried. -/
def rests : Matcher → List Char → List (List Char)
  | one _, [] => []
  | one p, c :: cs => if p c then [cs] else []
  | many p, cs => manyRests p cs
  | next first second, cs => (first.rests cs).flatMap second.rests
  | optional matcher, cs => matcher.rests cs ++ [cs]
  | notAhead matcher, cs => if (matcher.rests cs).isEmpty then [cs] else []

/-- The first place of a text where there is a match, with the end of the first choice there. -/
def search (matcher : Matcher) (text : List Char) : Option Span :=
  (List.range (text.length + 1)).findSome? fun start =>
    (matcher.rests (text.drop start)).head?.map fun rest => ⟨start, text.length - rest.length⟩

variable {p : Char → Bool} {matcher first second : Matcher} {cs mid rest : List Char}

/-! ## All choices -/

theorem self_mem_manyRests (cs : List Char) : cs ∈ manyRests p cs := by
  cases cs with
  | nil => exact List.mem_singleton_self _
  | cons c cs =>
    unfold manyRests
    split
    · exact List.mem_append_right _ (List.mem_singleton_self _)
    · exact List.mem_singleton_self _

theorem mem_manyRests_iff :
    rest ∈ manyRests p cs ↔ ∃ taken, (∀ c ∈ taken, p c = true) ∧ cs = taken ++ rest := by
  constructor
  · intro h
    induction cs with
    | nil => exact ⟨[], by simp, (List.mem_singleton.1 h).symm⟩
    | cons c cs ih =>
      unfold manyRests at h
      split at h
      · rename_i hc
        rcases List.mem_append.1 h with h | h
        · obtain ⟨taken, htaken, rfl⟩ := ih h
          exact ⟨c :: taken, List.forall_mem_cons.2 ⟨hc, htaken⟩, rfl⟩
        · exact ⟨[], by simp, (List.mem_singleton.1 h).symm⟩
      · exact ⟨[], by simp, (List.mem_singleton.1 h).symm⟩
  · rintro ⟨taken, htaken, rfl⟩
    induction taken with
    | nil => exact self_mem_manyRests rest
    | cons c taken ih =>
      obtain ⟨hc, htaken⟩ := List.forall_mem_cons.1 htaken
      rw [List.cons_append, manyRests, if_pos hc]
      exact List.mem_append_left _ (ih htaken)

theorem mem_rests_one_iff : rest ∈ (one p).rests cs ↔ ∃ c, p c = true ∧ cs = c :: rest := by
  cases cs with
  | nil => simp [rests]
  | cons c cs =>
    rw [rests]
    split
    · rename_i hc
      rw [List.mem_singleton]
      constructor
      · rintro rfl
        exact ⟨c, hc, rfl⟩
      · rintro ⟨d, -, h⟩
        exact (List.cons.inj h).2.symm
    · rename_i hc
      constructor
      · exact fun h => absurd h List.not_mem_nil
      · rintro ⟨d, hd, h⟩
        obtain ⟨rfl, -⟩ := List.cons.inj h
        exact absurd hd hc

theorem mem_rests_next_iff :
    rest ∈ (next first second).rests cs ↔ ∃ mid ∈ first.rests cs, rest ∈ second.rests mid :=
  List.mem_flatMap

theorem mem_rests_optional_iff :
    rest ∈ (optional matcher).rests cs ↔ rest ∈ matcher.rests cs ∨ rest = cs := by
  rw [rests, List.mem_append, List.mem_singleton]

theorem mem_rests_several_iff : rest ∈ (several p).rests cs ↔
    ∃ taken, taken ≠ [] ∧ (∀ c ∈ taken, p c = true) ∧ cs = taken ++ rest := by
  rw [several, mem_rests_next_iff]
  constructor
  · rintro ⟨mid, hmid, hrest⟩
    obtain ⟨c, hc, rfl⟩ := mem_rests_one_iff.1 hmid
    obtain ⟨taken, htaken, rfl⟩ := mem_manyRests_iff.1 hrest
    exact ⟨c :: taken, List.cons_ne_nil _ _, List.forall_mem_cons.2 ⟨hc, htaken⟩, rfl⟩
  · rintro ⟨taken, hne, htaken, rfl⟩
    obtain ⟨c, taken, rfl⟩ := List.exists_cons_of_ne_nil hne
    obtain ⟨hc, htaken⟩ := List.forall_mem_cons.1 htaken
    exact ⟨taken ++ rest, mem_rests_one_iff.2 ⟨c, hc, rfl⟩,
      mem_manyRests_iff.2 ⟨taken, htaken, rfl⟩⟩

theorem rests_suffix (h : rest ∈ matcher.rests cs) : rest <:+ cs := by
  induction matcher generalizing cs rest with
  | one p =>
    obtain ⟨c, -, rfl⟩ := mem_rests_one_iff.1 h
    exact List.suffix_cons c rest
  | many p =>
    obtain ⟨taken, -, rfl⟩ := mem_manyRests_iff.1 h
    exact List.suffix_append taken rest
  | next first second ihfirst ihsecond =>
    obtain ⟨mid, hmid, hrest⟩ := mem_rests_next_iff.1 h
    exact (ihsecond hrest).trans (ihfirst hmid)
  | optional matcher ih =>
    rcases mem_rests_optional_iff.1 h with h | rfl
    · exact ih h
    · exact List.suffix_rfl
  | notAhead matcher ih =>
    rw [rests] at h
    split at h
    · obtain rfl := List.mem_singleton.1 h
      exact List.suffix_rfl
    · exact absurd h List.not_mem_nil

/-! ## The first choice -/

theorem head?_manyRests : (manyRests p cs).head? = some (cs.dropWhile p) := by
  induction cs with
  | nil => rfl
  | cons c cs ih =>
    rw [manyRests, List.dropWhile_cons]
    split
    · rw [List.head?_append, ih, Option.some_or]
    · rfl

theorem head?_rests_next (hfirst : (first.rests cs).head? = some mid)
    (hsecond : (second.rests mid).head? = some rest) :
    ((next first second).rests cs).head? = some rest := by
  obtain ⟨others, hrests⟩ := List.head?_eq_some_iff.1 hfirst
  rw [rests, hrests, List.flatMap_cons, List.head?_append, hsecond, Option.some_or]

theorem head?_rests_optional :
    ((optional matcher).rests cs).head? = some ((matcher.rests cs).head?.getD cs) := by
  rw [rests, List.head?_append]
  cases (matcher.rests cs).head? <;> rfl

theorem head?_rests_several {c : Char} (hc : p c = true) :
    ((several p).rests (c :: cs)).head? = some ((c :: cs).dropWhile p) := by
  have hone : ((one p).rests (c :: cs)).head? = some cs := by rw [rests, if_pos hc, List.head?_cons]
  rw [List.dropWhile_cons_of_pos hc]
  exact head?_rests_next hone head?_manyRests

theorem rests_several_of_head? (h : ∀ c ∈ cs.head?, p c = false) : (several p).rests cs = [] := by
  rw [List.eq_nil_iff_forall_not_mem]
  intro rest hrest
  obtain ⟨taken, hne, htaken, rfl⟩ := mem_rests_several_iff.1 hrest
  obtain ⟨c, taken, rfl⟩ := List.exists_cons_of_ne_nil hne
  have hc := h c rfl
  rw [htaken c List.mem_cons_self] at hc
  cases hc

theorem rests_notAhead_of_eq_nil (h : matcher.rests cs = []) :
    (notAhead matcher).rests cs = [cs] := by
  rw [rests, h]
  rfl

theorem rests_notAhead_of_ne_nil (h : matcher.rests cs ≠ []) :
    (notAhead matcher).rests cs = [] := by
  rw [rests, if_neg (by rwa [List.isEmpty_iff])]

/-! ## Searching -/

/-- There is a match at the start, or the search goes on behind the first character. -/
theorem search_cons (c : Char) : matcher.search (c :: cs) =
    match (matcher.rests (c :: cs)).head? with
    | some rest => some ⟨0, (c :: cs).length - rest.length⟩
    | none => (matcher.search cs).map fun span => ⟨span.start + 1, span.stop + 1⟩ := by
  rw [search, List.length_cons, List.range_succ_eq_map, List.findSome?_cons, List.drop_zero]
  cases (matcher.rests (c :: cs)).head? with
  | some rest => rfl
  | none =>
    dsimp only [Option.map_none]
    rw [List.findSome?_map, search, List.map_findSome?]
    congr 1
    funext start
    dsimp only [Function.comp_apply]
    rw [Nat.succ_eq_add_one, List.drop_succ_cons, Option.map_map]
    refine Option.map_congr fun rest hrest => ?_
    have hle := (rests_suffix (List.mem_of_mem_head? hrest)).length_le
    rw [List.length_drop] at hle
    dsimp only [Function.comp_apply]
    rw [Nat.sub_add_comm (by omega)]

end Matcher

end DeskCalculator
