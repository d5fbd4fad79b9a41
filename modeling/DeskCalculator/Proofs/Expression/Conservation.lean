import DeskCalculator.Proofs.Expression.Conversion
import DeskCalculator.Proofs.Runs
import Mathlib.Data.List.Perm.Basic
import Mathlib.Data.List.TakeWhile

/-!
# What a conversion keeps

* `positioned` : the tokens of an expression with the signs under their own symbols; `withSigns` :
  the same, place by place;
* `Conversion.Placed` : what a conversion holds, each token with the place where it was read;
  `Conversion.Placed.step`, `Conversion.Placed.foldlM` : each token read is added to it with its
  place, and nothing is lost;
* `exists_order_of_toReversePolish`, `perm_positioned_of_toReversePolish` : so the output holds the
  tokens read, in another order;
* `conserved_of_toReversePolish` : the numbers in the order read, the operators with their signs,
  and each operator behind all numbers before it.
-/

namespace DeskCalculator

/-! ## Tokens in their positions -/

namespace Token

/-- What the token stands for after another one: an operator may be a sign. -/
def inPosition (previous : Option Token) : Token → Token
  | .op o => .op (o.inPosition previous)
  | t => t

/-- Whether the token is one of the two parentheses. -/
def isParenthesis : Token → Bool
  | .opening | .closing => true
  | _ => false

/-- Whether the token is a number. -/
def isNumber : Token → Bool
  | .number _ => true
  | _ => false

/-- Whether the token is an operator. -/
def isOperator : Token → Bool
  | .op _ => true
  | _ => false

end Token

/-- The tokens with signs under their own symbols, when they are read after `previous`. -/
def positioned : Option Token → List Token → List Token
  | _, [] => []
  | previous, t :: tokens => t.inPosition previous :: positioned (some t) tokens

/-- The tokens without the parentheses. -/
def withoutParentheses (tokens : List Token) : List Token := tokens.filter (!·.isParenthesis)

/-! ## Inversion of a step -/

namespace Conversion

/-- Inversion of a closing parenthesis. -/
theorem of_step_closing {c c' : Conversion} (h : c.step .closing = .ok c') :
    ∃ above below, Token.opening ∉ above ∧ c.stack = above ++ .opening :: below ∧
      c' = ⟨above.reverse ++ c.output, below, some .closing⟩ := by
  by_cases hmem : Token.opening ∈ c.stack
  · obtain ⟨above, below, hstack, habove⟩ := List.eq_append_cons_of_mem hmem
    rw [c.step_closing habove hstack] at h
    exact ⟨above, below, habove, hstack, (Except.ok.inj h).symm⟩
  · rw [c.step_closing_of_not_mem hmem] at h
    cases h

theorem previous_of_step {c c' : Conversion} {t : Token} (h : c.step t = .ok c') :
    c'.previous = some t := by
  cases t with
  | number value => exact (Except.ok.inj h) ▸ rfl
  | op o => rw [step_op] at h; exact (Except.ok.inj h) ▸ rfl
  | opening => exact (Except.ok.inj h) ▸ rfl
  | closing =>
    obtain ⟨above, below, -, -, rfl⟩ := of_step_closing h
    rfl

theorem opening_not_mem_of_finish {c : Conversion} {output : List Token}
    (h : c.finish = .ok output) : Token.opening ∉ c.stack := by
  intro hmem
  rw [finish, flush_of_mem hmem] at h
  cases h

theorem output_of_finish {c : Conversion} {output : List Token} (h : c.finish = .ok output) :
    output = (c.stack.reverse ++ c.output).reverse := by
  rw [finish, flush_of_not_mem (opening_not_mem_of_finish h)] at h
  exact (Except.ok.inj h).symm

end Conversion

/-! ## Tokens with their places -/

/-- The tokens with their places, of which the first is `n`, without the parentheses. -/
def placed (n : Nat) (tokens : List Token) : List (Token × Nat) :=
  (tokens.zipIdx n).filter (!·.1.isParenthesis)

theorem placed_cons (n : Nat) (t : Token) (tokens : List Token) :
    placed n (t :: tokens) = placed n [t] ++ placed (n + 1) tokens := by
  rw [placed, List.zipIdx_cons, ← List.singleton_append, List.filter_append]
  rfl

theorem map_fst_placed (n : Nat) (tokens : List Token) :
    (placed n tokens).map Prod.fst = withoutParentheses tokens := by
  have hfilter := List.filter_map (f := Prod.fst) (p := (!·.isParenthesis)) (l := tokens.zipIdx n)
  rw [List.zipIdx_map_fst] at hfilter
  exact hfilter.symm

theorem pairwise_placed (n : Nat) (tokens : List Token) :
    (placed n tokens).Pairwise fun a b => a.2 < b.2 := by
  apply List.Pairwise.filter
  rw [← List.pairwise_map, List.zipIdx_map_snd]
  exact List.pairwise_lt_range'

/-- The tokens in the output and on the stack, without the parentheses. -/
def held (output stack : List (Token × Nat)) : List (Token × Nat) :=
  (output ++ stack).filter (!·.1.isParenthesis)

theorem held_opening {p : Token × Nat} (hp : p.1 = .opening) (output stack : List (Token × Nat)) :
    held output (p :: stack) = held output stack := by
  rw [held, held, List.filter_append, List.filter_append,
    List.filter_cons_of_neg (by rw [hp]; decide)]

theorem perm_move (moved output rest : List (Token × Nat)) :
    (moved.reverse ++ output ++ rest).Perm (output ++ (moved ++ rest)) := by
  rw [← List.append_assoc]
  refine List.Perm.append_right rest ?_
  exact ((List.reverse_perm moved).append_right output).trans List.perm_append_comm

/-- An output, in reverse, and a stack of tokens that were read at places before `n`. A number comes
after nothing that was read after it, and none waits on the stack. -/
structure InPlaces (n : Nat) (output stack : List (Token × Nat)) : Prop where
  lt : ∀ p ∈ output ++ stack, p.2 < n
  plain : ∀ p ∈ output, p.1.isParenthesis = false
  waiting : ∀ p ∈ stack, p.1 = .opening ∨ ∃ o, p.1 = .op o
  order : output.Pairwise fun later earlier => later.1.isNumber = true → earlier.2 < later.2

namespace InPlaces

variable {n : Nat} {output stack moved rest : List (Token × Nat)} {p : Token × Nat}

theorem number (h : InPlaces n output stack) (value : Binary64) :
    InPlaces (n + 1) ((.number value, n) :: output) stack := by
  refine ⟨?_, List.forall_mem_cons.2 ⟨rfl, h.plain⟩, h.waiting, ?_⟩
  · exact List.forall_mem_cons.2 ⟨Nat.lt_succ_self n, fun p hp => Nat.lt_succ_of_lt (h.lt p hp)⟩
  · exact List.pairwise_cons.2 ⟨fun p hp _ => h.lt p (List.mem_append_left _ hp), h.order⟩

theorem push (h : InPlaces n output stack) {t : Token} (ht : t = .opening ∨ ∃ o, t = .op o) :
    InPlaces (n + 1) output ((t, n) :: stack) := by
  refine ⟨?_, h.plain, List.forall_mem_cons.2 ⟨ht, h.waiting⟩, h.order⟩
  intro p hp
  rcases List.mem_cons.1 (List.perm_middle.mem_iff.1 hp) with rfl | hp
  · exact Nat.lt_succ_self n
  · exact Nat.lt_succ_of_lt (h.lt p hp)

theorem pop (h : InPlaces n output (p :: stack)) : InPlaces (n + 1) output stack := by
  refine ⟨?_, h.plain, (List.forall_mem_cons.1 h.waiting).2, h.order⟩
  intro q hq
  exact Nat.lt_succ_of_lt (h.lt q (List.perm_middle.mem_iff.2 (List.mem_cons_of_mem p hq)))

/-- Whatever is on top of the stack may go to the output, if no parenthesis is among it. -/
theorem move (h : InPlaces n output (moved ++ rest)) (hmoved : ∀ p ∈ moved, p.1 ≠ .opening) :
    InPlaces n (moved.reverse ++ output) rest := by
  have hop : ∀ p ∈ moved.reverse, ∃ o, p.1 = .op o := by
    intro p hp
    have hmem := List.mem_reverse.1 hp
    exact (h.waiting p (List.mem_append_left _ hmem)).resolve_left (hmoved p hmem)
  refine ⟨?_, ?_, fun p hp => h.waiting p (List.mem_append_right _ hp), ?_⟩
  · intro p hp
    exact h.lt p ((perm_move moved output rest).mem_iff.1 hp)
  · intro p hp
    rcases List.mem_append.1 hp with hp | hp
    · obtain ⟨o, ho⟩ := hop p hp
      rw [ho]
      rfl
    · exact h.plain p hp
  · -- no operator is a number, so the moved ones may stand in any order
    have hnone : ∀ p ∈ moved.reverse, ¬p.1.isNumber = true := by
      intro p hp
      obtain ⟨o, ho⟩ := hop p hp
      rw [ho]
      exact Bool.false_ne_true
    refine List.pairwise_append.2 ⟨?_, h.order, fun p hp q _ hnumber => absurd hnumber (hnone p hp)⟩
    exact List.Pairwise.imp_of_mem (fun hp _ _ hnumber => absurd hnumber (hnone _ hp))
      (List.pairwise_of_forall fun _ _ => trivial)

end InPlaces

/-- The conversion holds the tokens that were read at these places. -/
structure Conversion.Placed (c : Conversion) (n : Nat) (output stack : List (Token × Nat)) :
    Prop extends InPlaces n output stack where
  output_eq : c.output = output.map Prod.fst
  stack_eq : c.stack = stack.map Prod.fst

namespace Conversion.Placed

variable {c c' : Conversion} {n : Nat} {output stack : List (Token × Nat)}

theorem start : Conversion.start.Placed 0 [] [] :=
  ⟨⟨by simp, by simp, by simp, List.Pairwise.nil⟩, rfl, rfl⟩

/-- One token adds itself, in its position and with its place. -/
theorem step {t : Token} (h : c.Placed n output stack) (hstep : c.step t = .ok c') :
    ∃ output' stack', c'.Placed (n + 1) output' stack' ∧
      (held output' stack').Perm (placed n [t.inPosition c.previous] ++ held output stack) := by
  cases t with
  | number value =>
    rw [step_number] at hstep
    obtain rfl := Except.ok.inj hstep
    refine ⟨_, stack, ⟨h.number value, ?_, h.stack_eq⟩, List.Perm.refl _⟩
    rw [List.map_cons, h.output_eq]
  | opening =>
    rw [step_opening] at hstep
    obtain rfl := Except.ok.inj hstep
    refine ⟨output, _, ⟨h.push (.inl rfl), h.output_eq, ?_⟩, List.perm_middle.filter _⟩
    rw [List.map_cons, h.stack_eq]
  | closing =>
    obtain ⟨above, below, habove, hstack, rfl⟩ := of_step_closing hstep
    rw [h.stack_eq] at hstack
    obtain ⟨moved, rest, rfl, rfl, hrest⟩ := List.map_eq_append_iff.1 hstack
    obtain ⟨p, rest, rfl, hp, rfl⟩ := List.map_eq_cons_iff.1 hrest
    have hmoved : ∀ q ∈ moved, q.1 ≠ .opening :=
      fun q hq heq => habove (heq ▸ List.mem_map_of_mem hq)
    refine ⟨_, _, ⟨(h.move hmoved).pop, ?_, rfl⟩, ?_⟩
    · rw [h.output_eq, List.map_append, List.map_reverse]
    · rw [← held_opening hp]
      exact (perm_move moved output (p :: rest)).filter _
  | op o =>
    rw [step_op] at hstep
    obtain rfl := Except.ok.inj hstep
    let incoming := o.inPosition c.previous
    let moves : Token × Nat → Bool := (·.1.makesWay incoming)
    have hsplit : stack.takeWhile moves ++ stack.dropWhile moves = stack :=
      List.takeWhile_append_dropWhile
    have hmoved : ∀ p ∈ stack.takeWhile moves, p.1 ≠ .opening := by
      intro p hp heq
      have hmoves : moves p = true := List.mem_takeWhile_imp hp
      change p.1.makesWay incoming = true at hmoves
      rw [heq] at hmoves
      cases hmoves
    refine ⟨(stack.takeWhile moves).reverse ++ output, (.op incoming, n) :: stack.dropWhile moves,
      ⟨((hsplit ▸ h.toInPlaces).move hmoved).push (.inr ⟨incoming, rfl⟩), ?_, ?_⟩, ?_⟩
    · rw [h.output_eq, h.stack_eq, List.takeWhile_map, List.map_append, List.map_reverse]
      rfl
    · rw [h.stack_eq, List.dropWhile_map, List.map_cons]
      rfl
    · have hperm := perm_move (stack.takeWhile moves) output (stack.dropWhile moves)
      rw [hsplit] at hperm
      exact (List.perm_middle.trans (hperm.cons _)).filter _

theorem foldlM {tokens : List Token} (h : c.Placed n output stack)
    (hrun : tokens.foldlM Conversion.step c = .ok c') :
    ∃ output' stack', c'.Placed (n + tokens.length) output' stack' ∧
      (held output' stack').Perm (placed n (positioned c.previous tokens) ++ held output stack) := by
  induction tokens generalizing c n output stack with
  | nil =>
    obtain rfl := Except.ok.inj hrun
    exact ⟨output, stack, h, List.Perm.refl _⟩
  | cons t tokens ih =>
    obtain ⟨next, hstep, hrun⟩ := foldlM_cons_eq_ok.1 hrun
    obtain ⟨mid, midStack, hmid, hhead⟩ := h.step hstep
    obtain ⟨output', stack', hlast, hrest⟩ := ih hmid hrun
    rw [previous_of_step hstep] at hrest
    refine ⟨output', stack', ?_, ?_⟩
    · rwa [List.length_cons, Nat.add_comm tokens.length, ← Nat.add_assoc]
    · rw [positioned, placed_cons]
      refine hrest.trans ((hhead.append_left _).trans ?_)
      rw [← List.append_assoc]
      exact List.perm_append_comm.append_right _

end Conversion.Placed

/-! ## The output -/

/-- The output holds the tokens read, in their positions and without the parentheses, in another
order: what comes before a number was read before it. -/
theorem exists_order_of_toReversePolish {tokens output : List Token}
    (h : toReversePolish tokens = .ok output) :
    ∃ order : List (Token × Nat), order.map Prod.fst = output ∧
      order.Perm (placed 0 (positioned none tokens)) ∧
      order.Pairwise fun a b => b.1.isNumber = true → a.2 < b.2 := by
  obtain ⟨c, hrun, hfinish⟩ := bind_eq_ok.1 h
  obtain ⟨out, stack, hplaced, hperm⟩ := Conversion.Placed.start.foldlM hrun
  have hmem := Conversion.opening_not_mem_of_finish hfinish
  rw [hplaced.stack_eq] at hmem
  have hall : ∀ p ∈ stack, p.1 ≠ .opening := fun p hp heq => hmem (heq ▸ List.mem_map_of_mem hp)
  -- at the end the whole stack goes to the output
  have hend : InPlaces _ (stack.reverse ++ out) [] :=
    InPlaces.move (by rw [List.append_nil]; exact hplaced.toInPlaces) hall
  refine ⟨(stack.reverse ++ out).reverse, ?_, ?_, List.pairwise_reverse.2 hend.order⟩
  · rw [Conversion.output_of_finish hfinish, hplaced.stack_eq, hplaced.output_eq, List.map_reverse,
      List.map_append, List.map_reverse]
  · have hkeep : held (stack.reverse ++ out) [] = stack.reverse ++ out := by
      rw [held, List.append_nil, List.filter_eq_self]
      intro p hp
      rw [hend.plain p hp, Bool.not_false]
    have hmove : (held (stack.reverse ++ out) []).Perm (held out stack) := by
      have hperm := (perm_move stack out []).filter (!·.1.isParenthesis)
      rwa [List.append_nil stack] at hperm
    rw [hkeep] at hmove
    have hread : (held out stack).Perm (placed 0 (positioned none tokens) ++ []) := hperm
    rw [List.append_nil] at hread
    exact (List.reverse_perm _).trans (hmove.trans hread)

theorem output_perm_positioned {tokens output : List Token}
    (h : toReversePolish tokens = .ok output) :
    output.Perm (withoutParentheses (positioned none tokens)) := by
  obtain ⟨order, rfl, hperm, -⟩ := exists_order_of_toReversePolish h
  rw [← map_fst_placed 0]
  exact hperm.map Prod.fst

theorem not_isParenthesis_of_toReversePolish {tokens output : List Token}
    (h : toReversePolish tokens = .ok output) : ∀ t ∈ output, t.isParenthesis = false := by
  intro t ht
  have hmem := (output_perm_positioned h).mem_iff.1 ht
  simpa using (List.mem_filter.1 hmem).2

/-- The output holds the tokens read, in their positions and in another order; the parentheses are
left out. -/
theorem perm_positioned_of_toReversePolish {tokens output : List Token}
    (h : toReversePolish tokens = .ok output) :
    (withoutParentheses output).Perm (withoutParentheses (positioned none tokens)) := by
  have hkeep : withoutParentheses output = output := by
    refine List.filter_eq_self.2 fun t ht => ?_
    rw [not_isParenthesis_of_toReversePolish h t ht, Bool.not_false]
  rw [hkeep]
  exact output_perm_positioned h

/-! ## Signs by their places -/

/-- Whether an operand is due at a place: there is nothing, an operator or an opening parenthesis
before it. -/
def operandDue (tokens : List Token) : Nat → Bool
  | 0 => true
  | i + 1 =>
    match tokens[i]? with
    | some (.op _) | some .opening => true
    | _ => false

/-- Plus and minus under the symbols of the signs, where an operand is due. -/
def Token.asSign (due : Bool) : Token → Token
  | .op .add => .op (if due then .pos else .add)
  | .op .sub => .op (if due then .neg else .sub)
  | t => t

/-- The tokens with the signs under their own symbols, each by its place in the list. -/
def withSigns (tokens : List Token) : List Token :=
  tokens.mapIdx fun i t => t.asSign (operandDue tokens i)

theorem Token.inPosition_eq_asSign (previous : Option Token) (t : Token) :
    t.inPosition previous = t.asSign (readsAsSign previous) := by
  cases t with
  | op o => cases o <;> simp [inPosition, Operator.inPosition, asSign, Operator.sign?, apply_ite]
  | _ => rfl

theorem positioned_eq_mapIdx (previous : Option Token) (tokens : List Token) :
    positioned previous tokens =
      tokens.mapIdx fun i t => t.inPosition (if i = 0 then previous else tokens[i - 1]?) := by
  induction tokens generalizing previous with
  | nil => rfl
  | cons t tokens ih =>
    rw [positioned, ih, List.mapIdx_cons]
    congr 1
    apply List.mapIdx_eq_mapIdx_iff.2
    intro i hi
    cases i <;> simp

theorem readsAsSign_getElem? {tokens : List Token} {i : Nat} (h : i < tokens.length) :
    readsAsSign tokens[i]? = operandDue tokens (i + 1) := by
  rw [operandDue, List.getElem?_eq_getElem h]
  rcases tokens[i] with _ | _ | _ | _ <;> rfl

theorem positioned_eq_withSigns (tokens : List Token) :
    positioned none tokens = withSigns tokens := by
  rw [positioned_eq_mapIdx, withSigns]
  apply List.mapIdx_eq_mapIdx_iff.2
  intro i hi
  rw [Token.inPosition_eq_asSign]
  cases i with
  | zero => rfl
  | succ i =>
    rw [if_neg (Nat.succ_ne_zero i), Nat.add_sub_cancel,
      readsAsSign_getElem? (Nat.lt_of_succ_lt hi)]

/-! ## What is conserved -/

theorem filter_withoutParentheses {p : Token → Bool}
    (hp : ∀ t, p t = true → t.isParenthesis = false) (tokens : List Token) :
    (withoutParentheses tokens).filter p = tokens.filter p := by
  rw [withoutParentheses, List.filter_filter]
  refine List.filter_congr fun t _ => ?_
  cases h : p t
  · rfl
  · rw [hp t h]
    rfl

theorem filter_isNumber_positioned (previous : Option Token) (tokens : List Token) :
    (positioned previous tokens).filter Token.isNumber = tokens.filter Token.isNumber := by
  induction tokens generalizing previous with
  | nil => rfl
  | cons t tokens ih =>
    rw [positioned, List.filter_cons, List.filter_cons, ih]
    cases t <;> rfl

/-- Numbers come out in the order in which they were read. -/
theorem filter_isNumber_of_toReversePolish {tokens output : List Token}
    (h : toReversePolish tokens = .ok output) :
    output.filter Token.isNumber = tokens.filter Token.isNumber := by
  obtain ⟨order, rfl, hperm, horder⟩ := exists_order_of_toReversePolish h
  -- two lists of the same numbers, both by increasing places
  have hfirst : (order.filter (·.1.isNumber)).Pairwise fun a b => a.2 < b.2 := by
    refine (horder.filter _).imp_of_mem fun _ hb hlt => hlt (List.mem_filter.1 hb).2
  have hsecond := (pairwise_placed 0 (positioned none tokens)).filter (·.1.isNumber)
  have heq := List.Perm.eq_of_pairwise
    (fun a b _ _ hab hba => absurd hab (Nat.lt_asymm hba)) hfirst hsecond (hperm.filter _)
  have hfst : ∀ l : List (Token × Nat),
      (l.filter (·.1.isNumber)).map Prod.fst = (l.map Prod.fst).filter Token.isNumber :=
    fun l => (List.filter_map (f := Prod.fst) (p := Token.isNumber) (l := l)).symm
  rw [← hfst, heq, hfst, map_fst_placed, filter_withoutParentheses, filter_isNumber_positioned]
  intro t ht
  cases t <;> first | rfl | cases ht

/-- **A conversion loses and duplicates nothing.** Its output holds no parenthesis; the numbers come
out in the order in which they were read; the operators come out once each, plus and minus as signs
exactly where an operand is due; and each token of the output has the place where it was read, so
that whatever comes out before a number was read before it: an operator comes out behind all numbers
that were read before it. -/
theorem conserved_of_toReversePolish {tokens output : List Token}
    (h : toReversePolish tokens = .ok output) :
    (∀ t ∈ output, t.isParenthesis = false) ∧
      output.filter Token.isNumber = tokens.filter Token.isNumber ∧
      (output.filter Token.isOperator).Perm ((withSigns tokens).filter Token.isOperator) ∧
      ∃ order : List (Token × Nat), order.map Prod.fst = output ∧
        order.Perm ((withSigns tokens).zipIdx.filter fun p => !p.1.isParenthesis) ∧
        order.Pairwise fun a b => b.1.isNumber = true → a.2 < b.2 := by
  have hplaces := exists_order_of_toReversePolish h
  have hoperators := (output_perm_positioned h).filter Token.isOperator
  rw [filter_withoutParentheses] at hoperators
  · rw [positioned_eq_withSigns] at hplaces hoperators
    exact ⟨not_isParenthesis_of_toReversePolish h, filter_isNumber_of_toReversePolish h,
      hoperators, hplaces⟩
  · intro t ht
    cases t <;> first | rfl | cases ht

/-- In `2 * -(+3 - 4) 5`, which is no sentence, one minus is a sign and the other one is not. -/
theorem conserved_side_by_side :
    let v (n : Nat) : Token := .number (.ofRatio false (n * 2 ^ 1074) 1)
    let tokens := [v 2, .op .mul, .op .sub, .opening, .op .add, v 3, .op .sub, v 4, .closing, v 5]
    let output := [v 2, v 3, .op .pos, v 4, .op .sub, v 5, .op .neg, .op .mul]
    toReversePolish tokens = .ok output ∧ (∀ t ∈ output, t.isParenthesis = false) ∧
      output.filter Token.isNumber = [v 2, v 3, v 4, v 5] ∧
      (output.filter Token.isOperator).Perm [.op .mul, .op .neg, .op .pos, .op .sub] ∧
      ∃ order : List (Token × Nat), order.map Prod.fst = output ∧
        order.Perm [(v 2, 0), (.op .mul, 1), (.op .neg, 2), (.op .pos, 4), (v 3, 5), (.op .sub, 6),
          (v 4, 7), (v 5, 9)] ∧
        order.Pairwise fun a b => b.1.isNumber = true → a.2 < b.2 := by
  intro v tokens output
  have h : toReversePolish tokens = .ok output := by decide +kernel
  exact ⟨h, conserved_of_toReversePolish h⟩

end DeskCalculator
