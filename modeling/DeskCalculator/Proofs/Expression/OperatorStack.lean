import DeskCalculator.Proofs.Expression.OperandStack
import DeskCalculator.Proofs.Expression.Parentheses

/-!
# What waits on the operator stack

* `Operator.WaitsAbove` : whether an operator waits directly above another one;
  `exists_signs_append` : so operators that wait together are signs above at most two others;
* `stacked top outer` : the stack of operators in groups that are open one inside another;
  `dropWhile_stacked` : an incoming operator moves operators of the innermost group only;
* `Conversion.Holds` : the groups that a conversion holds; `Conversion.Holds.number`,
  `Conversion.Holds.op`, `Conversion.Holds.opening`, `Conversion.Holds.closing` : one lemma for each
  kind of token;
* `Conversion.Follows`, `Conversion.Follows.step`, `Conversion.follows_foldlM` : so the groups after
  a token list are as many as its open parentheses, and one more;
* `stack_after_tokens` : the stack after every token, wherever it stands in whatever list.
-/

namespace DeskCalculator

/-! ## Operators that wait together -/

namespace Operator

/-- Whether an operator waits directly above another one: it binds tighter, or both are signs. -/
def WaitsAbove (upper lower : Operator) : Prop :=
  lower.precedence ≤ upper.precedence ∧
    (lower.precedence = upper.precedence → upper.arity = 1 ∧ lower.arity = 1)

theorem one_le_precedence (o : Operator) : 1 ≤ o.precedence := by
  cases o <;> decide

theorem arity_eq_one_iff {o : Operator} : o.arity = 1 ↔ o.precedence = 3 := by
  cases o <;> decide

theorem arity_eq_two_iff {o : Operator} : o.arity = 2 ↔ o.precedence ≤ 2 := by
  cases o <;> decide

/-- An incoming operator waits above what does not make way for it. -/
theorem waitsAbove_of_not_yieldsTo {incoming top : Operator} (h : top.yieldsTo incoming = false) :
    incoming.WaitsAbove top := by
  simp only [yieldsTo, Bool.or_eq_false_iff, Bool.and_eq_false_iff, decide_eq_false_iff_not,
    beq_eq_false_iff_ne, Nat.not_lt] at h
  obtain ⟨hle, hassoc⟩ := h
  refine ⟨hle, fun heq => ?_⟩
  have hright : incoming.associativity ≠ .left := hassoc.resolve_left (not_not_intro heq)
  have hsign : incoming.arity = 1 := by
    cases incoming <;> first | rfl | exact absurd rfl hright
  exact ⟨hsign, by rwa [arity_eq_one_iff, heq, ← arity_eq_one_iff]⟩

end Operator

open Operator

/-- Under a binary operator wait binary ones only, each of a lower precedence than the one above it,
so there are not more of them than precedences. -/
theorem length_le_precedence {o : Operator} {os : List Operator}
    (h : (o :: os).IsChain WaitsAbove) (ho : o.arity = 2) :
    (∀ p ∈ o :: os, p.arity = 2) ∧ (o :: os).length ≤ o.precedence := by
  induction os generalizing o with
  | nil => exact ⟨List.forall_mem_singleton.2 ho, o.one_le_precedence⟩
  | cons below os ih =>
    obtain ⟨⟨hle, hsigns⟩, hchain⟩ := List.isChain_cons_cons.1 h
    have hlt : below.precedence < o.precedence := by
      refine Nat.lt_of_le_of_ne hle fun heq => ?_
      have hone := (hsigns heq).1
      omega
    have hbelow : below.arity = 2 := by
      rw [arity_eq_two_iff] at ho ⊢
      omega
    obtain ⟨hbinary, hlength⟩ := ih hchain hbelow
    refine ⟨List.forall_mem_cons.2 ⟨ho, hbinary⟩, ?_⟩
    rw [List.length_cons]
    omega

/-- Operators that wait together are signs above at most two binary operators. -/
theorem exists_signs_append {os : List Operator} (h : os.IsChain WaitsAbove) :
    ∃ signs binaries, os = signs ++ binaries ∧ (∀ o ∈ signs, o.arity = 1) ∧
      (∀ o ∈ binaries, o.arity = 2) ∧ binaries.length ≤ 2 := by
  induction os with
  | nil => exact ⟨[], [], rfl, by simp, by simp, by simp⟩
  | cons o os ih =>
    rcases o.arity_eq with ho | ho
    · obtain ⟨signs, binaries, rfl, hsigns, hbinaries, hlength⟩ := ih h.tail
      exact ⟨o :: signs, binaries, rfl, List.forall_mem_cons.2 ⟨ho, hsigns⟩, hbinaries, hlength⟩
    · -- no sign waits from the first binary operator on
      obtain ⟨hbinary, hlength⟩ := length_le_precedence h ho
      exact ⟨[], o :: os, rfl, by simp, hbinary, Nat.le_trans hlength (arity_eq_two_iff.1 ho)⟩

/-! ## Groups on the stack -/

/-- The stack of operators that wait in groups, the innermost group on top. -/
def stacked (top : List Operator) (outer : List (List Operator)) : List Token :=
  top.map .op ++ outer.flatMap fun os => .opening :: os.map .op

theorem stacked_cons (o : Operator) (top : List Operator) (outer : List (List Operator)) :
    stacked (o :: top) outer = .op o :: stacked top outer := rfl

theorem stacked_group (top os : List Operator) (outer : List (List Operator)) :
    stacked top (os :: outer) = top.map .op ++ .opening :: stacked os outer := rfl

/-- An incoming operator moves operators of the innermost group only. -/
theorem dropWhile_stacked (o : Operator) (top : List Operator) (outer : List (List Operator)) :
    (stacked top outer).dropWhile (·.makesWay o) =
      stacked (top.dropWhile (·.yieldsTo o)) outer := by
  induction top with
  | nil => cases outer <;> rfl
  | cons p top ih =>
    have hmoves : (Token.op p).makesWay o = p.yieldsTo o := rfl
    rw [stacked_cons, List.dropWhile_cons, List.dropWhile_cons, hmoves, ih]
    cases p.yieldsTo o <;> rfl

theorem of_mem_stacked {top : List Operator} {outer : List (List Operator)} {t : Token}
    (h : t ∈ stacked top outer) : t = .opening ∨ ∃ o, t = .op o := by
  simp only [stacked, List.mem_append, List.mem_flatMap, List.mem_cons, List.mem_map] at h
  rcases h with ⟨o, -, rfl⟩ | ⟨os, -, rfl | ⟨o, -, rfl⟩⟩
  · exact .inr ⟨o, rfl⟩
  · exact .inl rfl
  · exact .inr ⟨o, rfl⟩

theorem count_opening_stacked (top : List Operator) (outer : List (List Operator)) :
    (stacked top outer).count .opening = outer.length := by
  have hgroup : ∀ os : List Operator, (os.map Token.op).count .opening = 0 :=
    fun os => List.count_eq_zero.2 (by simp)
  induction outer generalizing top with
  | nil => rw [stacked, List.flatMap_nil, List.append_nil, hgroup, List.length_nil]
  | cons os outer ih =>
    rw [stacked_group, List.count_append, hgroup, List.count_cons_self, ih, List.length_cons,
      Nat.zero_add]

/-- Between its parentheses the stack holds the groups. -/
theorem splitOn_stacked (top : List Operator) (outer : List (List Operator)) :
    (stacked top outer).splitOn .opening = (top :: outer).map (·.map .op) := by
  have hgroup : ∀ os : List Operator, ∀ t ∈ os.map Token.op, (t == Token.opening) = false := by
    simp
  induction outer generalizing top with
  | nil =>
    rw [stacked, List.flatMap_nil, List.append_nil, List.splitOn,
      List.splitOnP_eq_singleton (hgroup top), List.map_singleton]
  | cons os outer ih =>
    rw [stacked_group, List.splitOn,
      List.splitOnP_append_cons_of_forall_mem (hgroup top) _ (beq_self_eq_true _), List.map_cons]
    exact congrArg _ (ih os)

namespace Conversion

/-- A conversion holds operators in groups. -/
structure Holds (c : Conversion) (top : List Operator) (outer : List (List Operator)) : Prop where
  stack_eq : c.stack = stacked top outer
  waits : ∀ os ∈ top :: outer, os.IsChain WaitsAbove

namespace Holds

variable {c : Conversion} {top os : List Operator} {outer : List (List Operator)}

theorem start : Conversion.start.Holds [] [] := ⟨rfl, List.forall_mem_singleton.2 .nil⟩

theorem number (h : c.Holds top outer) (value : Binary64) :
    ∃ c', c.step (.number value) = .ok c' ∧ c'.Holds top outer :=
  ⟨_, c.step_number value, h.stack_eq, h.waits⟩

theorem opening (h : c.Holds top outer) :
    ∃ c', c.step .opening = .ok c' ∧ c'.Holds [] (top :: outer) := by
  refine ⟨_, c.step_opening, ?_, List.forall_mem_cons.2 ⟨.nil, h.waits⟩⟩
  rw [h.stack_eq]
  rfl

theorem closing (h : c.Holds top (os :: outer)) :
    ∃ c', c.step .closing = .ok c' ∧ c'.Holds os outer := by
  have hstack : c.stack = top.map .op ++ .opening :: stacked os outer := h.stack_eq
  exact ⟨_, c.step_closing (by simp) hstack, rfl, (List.forall_mem_cons.1 h.waits).2⟩

theorem closing_nil (h : c.Holds top []) : c.step .closing = .error .mismatchedParentheses := by
  apply step_closing_of_depth
  rw [depth, h.stack_eq, count_opening_stacked]
  rfl

/-- The operators that stay let the incoming one wait above them. -/
theorem op (h : c.Holds top outer) (o : Operator) :
    ∃ c' top', c.step (.op o) = .ok c' ∧ c'.Holds top' outer := by
  let incoming := o.inPosition c.previous
  let kept := top.dropWhile (·.yieldsTo incoming)
  obtain ⟨htop, houter⟩ := List.forall_mem_cons.1 h.waits
  have hkept : kept.IsChain WaitsAbove := htop.suffix (List.dropWhile_suffix _)
  have hhead : ∀ p ∈ kept.head?, incoming.WaitsAbove p := by
    intro p hp
    have hstays := List.head?_dropWhile_not (·.yieldsTo incoming) top
    rw [Option.mem_def.1 hp] at hstays
    exact waitsAbove_of_not_yieldsTo hstays
  refine ⟨_, incoming :: kept, c.step_op o, ?_,
    List.forall_mem_cons.2 ⟨hkept.cons hhead, houter⟩⟩
  rw [stacked_cons, ← dropWhile_stacked, ← h.stack_eq]

end Holds

/-! ## Runs -/

/-- The conversion holds as many groups inside another as parentheses of the tokens are open. -/
def Follows (c : Conversion) (tokens : List Token) : Prop :=
  ∃ top outer, c.Holds top outer ∧ outer.length + tokens.count .closing = tokens.count .opening

/-- A token is read, or it closes a parenthesis that is not open. -/
theorem Follows.step {c : Conversion} {tokens : List Token} (h : c.Follows tokens) (t : Token) :
    (∃ c', c.step t = .ok c' ∧ c'.Follows (tokens ++ [t])) ∨
      c.step t = .error .mismatchedParentheses ∧
        (tokens ++ [t]).count .opening < (tokens ++ [t]).count .closing := by
  obtain ⟨top, outer, hc, hcount⟩ := h
  simp only [Follows, List.count_append]
  cases t with
  | number value =>
    obtain ⟨c', hstep, hc'⟩ := hc.number value
    exact .inl ⟨c', hstep, top, outer, hc', by simpa using hcount⟩
  | op o =>
    obtain ⟨c', top', hstep, hc'⟩ := hc.op o
    exact .inl ⟨c', hstep, top', outer, hc', by simpa using hcount⟩
  | opening =>
    obtain ⟨c', hstep, hc'⟩ := hc.opening
    have hone : [Token.opening].count .opening = 1 ∧ [Token.opening].count .closing = 0 := by decide
    refine .inl ⟨c', hstep, [], top :: outer, hc', ?_⟩
    rw [List.length_cons]
    omega
  | closing =>
    have hone : [Token.closing].count .closing = 1 ∧ [Token.closing].count .opening = 0 := by decide
    cases outer with
    | nil =>
      rw [List.length_nil] at hcount
      exact .inr ⟨hc.closing_nil, by omega⟩
    | cons os outer =>
      obtain ⟨c', hstep, hc'⟩ := hc.closing
      rw [List.length_cons] at hcount
      exact .inl ⟨c', hstep, os, outer, hc', by omega⟩

theorem follows_foldlM (tokens : List Token) :
    (∃ c, tokens.foldlM step .start = .ok c ∧ c.Follows tokens) ∨
      tokens.foldlM step .start = .error .mismatchedParentheses ∧
        ∃ part, part <+: tokens ∧ part.count .opening < part.count .closing := by
  induction tokens using List.reverseRecOn with
  | nil => exact .inl ⟨.start, rfl, [], [], .start, rfl⟩
  | append_singleton tokens t ih =>
    rw [List.foldlM_append]
    simp only [List.foldlM_cons, List.foldlM_nil, bind_pure]
    rcases ih with ⟨c, hrun, hc⟩ | ⟨hrun, part, hpart, hcount⟩
    · rw [hrun, ok_bind]
      rcases hc.step t with hstep | ⟨hstep, hcount⟩
      · exact .inl hstep
      · exact .inr ⟨hstep, _, List.prefix_rfl, hcount⟩
    · rw [hrun]
      exact .inr ⟨rfl, part, hpart.trans (List.prefix_append tokens [t]), hcount⟩

end Conversion

/-- Operators that wait with no parenthesis between them, the last one first: signs above at most
two binary operators, none above one that binds tighter, and two of one precedence only if both are
signs. -/
def WaitTogether (segment : List Token) : Prop :=
  ∃ signs binaries : List Operator, segment = (signs ++ binaries).map .op ∧
    (signs ++ binaries).IsChain WaitsAbove ∧ (∀ o ∈ signs, o.arity = 1) ∧
    (∀ o ∈ binaries, o.arity = 2) ∧ binaries.length ≤ 2

/-- **The operator stack after any tokens**, whatever comes after them: it holds operators and the
opening parentheses that are not closed, and between two parentheses, or a parenthesis and an end,
operators that wait together. A conversion gets there unless more is closed than is open. -/
theorem stack_after_tokens (tokens rest : List Token) :
    (∃ c, tokens.foldlM Conversion.step .start = .ok c ∧
        toReversePolish (tokens ++ rest) = (rest.foldlM Conversion.step c >>= Conversion.finish) ∧
        (∀ t ∈ c.stack, t = .opening ∨ ∃ o, t = .op o) ∧
        c.stack.count .opening + tokens.count .closing = tokens.count .opening ∧
        ∀ segment ∈ c.stack.splitOn .opening, WaitTogether segment) ∨
      toReversePolish (tokens ++ rest) = .error .mismatchedParentheses ∧
        ∃ part, part <+: tokens ∧ part.count .opening < part.count .closing := by
  have hrest : toReversePolish (tokens ++ rest) = (tokens.foldlM Conversion.step .start >>=
      fun c => rest.foldlM Conversion.step c >>= Conversion.finish) := by
    rw [toReversePolish, List.foldlM_append, bind_assoc]
  rcases Conversion.follows_foldlM tokens with ⟨c, hrun, top, outer, hc, hcount⟩ | ⟨hrun, hpart⟩
  · left
    rw [hrun, ok_bind] at hrest
    refine ⟨c, hrun, hrest, ?_, ?_, ?_⟩
    · intro t ht
      exact of_mem_stacked (hc.stack_eq ▸ ht)
    · rw [hc.stack_eq, count_opening_stacked, hcount]
    · intro segment hsegment
      rw [hc.stack_eq, splitOn_stacked] at hsegment
      obtain ⟨os, hos, rfl⟩ := List.mem_map.1 hsegment
      have hwaits := hc.waits os hos
      obtain ⟨signs, binaries, rfl, hsigns, hbinaries, hlength⟩ := exists_signs_append hwaits
      exact ⟨signs, binaries, rfl, hwaits, hsigns, hbinaries, hlength⟩
  · right
    rw [hrun] at hrest
    exact ⟨hrest, hpart⟩

/-- Operators without operands: the product takes the sign before it to the output, and the signs
after it wait above it. -/
example :
    [.op .add, .op .mul, .op .sub, .op .neg, .opening, .op .sub].foldlM Conversion.step .start =
      .ok ⟨[.op .pos], [.op .neg, .opening, .op .neg, .op .neg, .op .mul], some (.op .sub)⟩ := rfl

end DeskCalculator
