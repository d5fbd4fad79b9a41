import DeskCalculator.Proofs.Expression.Conservation
import DeskCalculator.Proofs.Expression.Parentheses
import DeskCalculator.Proofs.Expression.Sentence
import DeskCalculator.Proofs.Expression.Written

/-!
# What is accepted

* `surplus_positioned_le` : tokens whose operands stand apart never leave more operands than are
  due;
* `isSentence_enclosed` : if they leave as many, and close their parentheses, they are a sentence;
* `isSentence_of_evaluate` : so tokens with a value and operands apart are a sentence;
* `report?_isSome_of_evaluate` : users are told of every fault of an expression;
* `isSentence_iff_operandsApart` : what is accepted is a sentence exactly if its operands stand
  apart.
-/

namespace DeskCalculator

open Grammar (IsSentence)

theorem surplus_withoutParentheses (tokens : List Token) :
    surplus (withoutParentheses tokens) = surplus tokens := by
  induction tokens with
  | nil => rfl
  | cons t tokens ih =>
    cases t <;> simp_all [withoutParentheses, Token.isParenthesis, Token.surplus]

/-! ## Operands that are due -/

/-- How many operands are due after a token: one where an operator would be a sign. -/
def due (previous : Option Token) : Int := if readsAsSign previous then 1 else 0

theorem due_eq_one {previous : Option Token} (h : readsAsSign previous = true) :
    due previous = 1 := if_pos h

theorem due_eq_zero {previous : Option Token} (h : readsAsSign previous = false) :
    due previous = 0 := if_neg (by simp [h])

@[simp] theorem due_number (value : Binary64) : due (some (.number value)) = 0 := rfl

@[simp] theorem due_op (o : Operator) : due (some (.op o)) = 1 := rfl

@[simp] theorem due_opening : due (some .opening) = 1 := rfl

@[simp] theorem due_closing : due (some .closing) = 0 := rfl

theorem readsAsSign_some (t : Token) : readsAsSign (some t) = !t.endsOperand := by
  cases t <;> rfl

/-- No two operands of the tokens stand side by side, nor do the first one and what is read before
the tokens. -/
def OperandsApartFrom (previous : Option Token) (tokens : List Token) : Prop :=
  OperandsApart (previous.toList ++ tokens)

theorem OperandsApartFrom.cons_iff {previous : Option Token} {t : Token} {tokens : List Token} :
    OperandsApartFrom previous (t :: tokens) ↔
      (readsAsSign previous = true ∨ t.startsOperand = false) ∧
        OperandsApartFrom (some t) tokens := by
  cases previous with
  | none => simp [OperandsApartFrom, readsAsSign]
  | some p =>
    simp only [OperandsApartFrom, Option.toList_some, List.singleton_append, OperandsApart,
      List.isChain_cons_cons, SideBySide, readsAsSign_some]
    cases p.endsOperand <;> cases t.startsOperand <;> simp

theorem surplus_inPosition_of_sign? {previous : Option Token} (h : readsAsSign previous = true)
    {o s : Operator} (hs : o.sign? = some s) : ((Token.op o).inPosition previous).surplus = 0 := by
  simp only [Token.inPosition, Operator.inPosition, h, if_true, hs, Option.getD_some]
  cases o <;> simp only [Operator.sign?, reduceCtorEq, Option.some.injEq] at hs <;> subst hs <;> rfl

theorem surplus_inPosition_binary {previous : Option Token} {o : Operator}
    (ho : (Token.op o).isSign = false) (h : readsAsSign previous = false ∨ o.sign? = none) :
    ((Token.op o).inPosition previous).surplus = -1 := by
  have hpos : o.inPosition previous = o := by
    rcases h with h | h <;> simp [Operator.inPosition, h]
  rw [Token.inPosition, hpos]
  cases o <;> first | rfl | cases ho

/-- Tokens whose operands stand apart never leave more operands than are due. -/
theorem surplus_positioned_le {previous : Option Token} {tokens : List Token}
    (hraw : ∀ t ∈ tokens, t.isSign = false) (hapart : OperandsApartFrom previous tokens) :
    surplus (positioned previous tokens) ≤ due previous := by
  induction tokens generalizing previous with
  | nil =>
    simp only [positioned, surplus_nil, due]
    split <;> decide
  | cons t tokens ih =>
    rw [OperandsApartFrom.cons_iff] at hapart
    have hrest := ih (fun u hu => hraw u (List.mem_cons_of_mem t hu)) hapart.2
    rw [positioned, surplus_cons]
    cases hprev : readsAsSign previous
    · -- an operand is before: only an operator or a closing parenthesis may follow
      rw [due_eq_zero hprev]
      cases t with
      | number value => simp [hprev, Token.startsOperand] at hapart
      | opening => simp [hprev, Token.startsOperand] at hapart
      | closing =>
        simp only [due_closing, Token.inPosition, Token.surplus] at hrest ⊢
        omega
      | op o =>
        rw [surplus_inPosition_binary (hraw _ List.mem_cons_self) (.inl hprev)]
        rw [due_op] at hrest
        omega
    · rw [due_eq_one hprev]
      cases t with
      | number value =>
        simp only [due_number, Token.inPosition, Token.surplus] at hrest ⊢
        omega
      | opening =>
        simp only [due_opening, Token.inPosition, Token.surplus] at hrest ⊢
        omega
      | closing =>
        simp only [due_closing, Token.inPosition, Token.surplus] at hrest ⊢
        omega
      | op o =>
        rw [due_op] at hrest
        cases hs : o.sign? with
        | none =>
          rw [surplus_inPosition_binary (hraw _ List.mem_cons_self) (.inr hs)]
          omega
        | some s =>
          rw [surplus_inPosition_of_sign? hprev hs]
          omega

/-! ## From counting to derivations -/

/-- The tokens become a sentence with any sentence put after them. -/
def Awaits (tokens : List Token) : Prop :=
  ∀ rest, IsSentence rest → IsSentence (tokens ++ rest)

theorem Awaits.nil : Awaits [] := fun _ h => h

theorem Awaits.sign {tokens : List Token} (h : Awaits tokens) {o s : Operator}
    (hs : o.sign? = some s) : Awaits (tokens ++ [.op o]) := by
  intro rest hrest
  rw [List.append_assoc]
  exact h _ (hrest.signed hs)

theorem Awaits.binary {tokens : List Token} (h : IsSentence tokens) {o : Operator}
    (ho : o.arity = 2) : Awaits (tokens ++ [.op o]) := by
  intro rest hrest
  rw [List.append_assoc]
  exact h.binary ho hrest

/-- The tokens behind those of the groups that are still open, the innermost group first. -/
def enclosed : List (List Token) → List Token → List Token
  | [], tokens => tokens
  | outer :: groups, tokens => enclosed groups (outer ++ .opening :: tokens)

/-- What may be read so far in the innermost open group. -/
def ReadSoFar (previous : Option Token) (tokens : List Token) : Prop :=
  if readsAsSign previous then Awaits tokens else IsSentence tokens

/-- Tokens that leave as many operands as are due, and close the open groups, complete what is read
so far to a sentence. -/
theorem isSentence_enclosed {previous : Option Token} {groups : List (List Token)}
    {before tokens : List Token} (hraw : ∀ t ∈ tokens, t.isSign = false)
    (hapart : OperandsApartFrom previous tokens) (hcloses : Closes groups.length tokens)
    (hgroups : ∀ outer ∈ groups, Awaits outer) (hbefore : ReadSoFar previous before)
    (hsurplus : surplus (positioned previous tokens) = due previous) :
    IsSentence (enclosed groups (before ++ tokens)) := by
  induction tokens generalizing previous groups before with
  | nil =>
    obtain rfl := List.length_eq_zero_iff.1 hcloses
    cases hprev : readsAsSign previous
    · simpa [ReadSoFar, hprev, enclosed] using hbefore
    · simp [positioned, due, hprev] at hsurplus
  | cons t tokens ih =>
    rw [OperandsApartFrom.cons_iff] at hapart
    have hraw' := fun u hu => hraw u (List.mem_cons_of_mem t hu)
    have hle := surplus_positioned_le hraw' hapart.2
    rw [positioned, surplus_cons] at hsurplus
    cases hprev : readsAsSign previous
    · rw [ReadSoFar, hprev, if_neg (by decide)] at hbefore
      rw [due_eq_zero hprev] at hsurplus
      cases t with
      | number value => simp [hprev, Token.startsOperand] at hapart
      | opening => simp [hprev, Token.startsOperand] at hapart
      | closing =>
        cases groups with
        | nil => exact hcloses.elim
        | cons outer groups =>
          have hread : ReadSoFar (some .closing) (outer ++ .opening :: (before ++ [.closing])) :=
            hgroups outer List.mem_cons_self _ hbefore.group
          have hrest : surplus (positioned (some .closing) tokens) = due (some .closing) := by
            simpa [Token.inPosition, Token.surplus] using hsurplus
          have h := ih hraw' hapart.2 hcloses
            (fun g hg => hgroups g (List.mem_cons_of_mem outer hg)) hread hrest
          simpa [enclosed] using h
      | op o =>
        have ho := hraw _ List.mem_cons_self
        have hread : ReadSoFar (some (.op o)) (before ++ [.op o]) :=
          Awaits.binary hbefore (o.arity_eq.resolve_left (by simpa [Token.isSign] using ho))
        rw [surplus_inPosition_binary ho (.inl hprev)] at hsurplus
        have h := ih hraw' hapart.2 hcloses hgroups hread (by rw [due_op]; omega)
        simpa using h
    · rw [ReadSoFar, hprev, if_pos rfl] at hbefore
      rw [due_eq_one hprev] at hsurplus
      cases t with
      | number value =>
        have hread : ReadSoFar (some (.number value)) (before ++ [.number value]) :=
          hbefore _ (.number value)
        have hrest : surplus (positioned (some (.number value)) tokens)
            = due (some (.number value)) := by
          simp only [Token.inPosition, Token.surplus, due_number] at hsurplus ⊢
          omega
        have h := ih hraw' hapart.2 hcloses hgroups hread hrest
        simpa using h
      | opening =>
        have hinner : ∀ g ∈ before :: groups, Awaits g := by
          intro g hg
          rcases List.mem_cons.1 hg with rfl | hg
          · exact hbefore
          · exact hgroups g hg
        have hread : ReadSoFar (some .opening) [] := Awaits.nil
        have hrest : surplus (positioned (some .opening) tokens) = due (some .opening) := by
          simpa [Token.inPosition, Token.surplus] using hsurplus
        exact ih hraw' hapart.2 hcloses hinner hread hrest
      | closing =>
        -- nothing can make up for the operand that is missing here
        simp only [due_closing, Token.inPosition, Token.surplus] at hsurplus hle
        omega
      | op o =>
        rw [due_op] at hle
        cases hs : o.sign? with
        | none =>
          rw [surplus_inPosition_binary (hraw _ List.mem_cons_self) (.inr hs)] at hsurplus
          omega
        | some s =>
          have hread : ReadSoFar (some (.op o)) (before ++ [.op o]) := hbefore.sign hs
          rw [surplus_inPosition_of_sign? hprev hs] at hsurplus
          have h := ih hraw' hapart.2 hcloses hgroups hread (by rw [due_op]; omega)
          simpa using h

/-- Tokens that have a value, their operands apart, are a sentence. -/
theorem isSentence_of_toReversePolish {tokens output : List Token} {value : Binary64}
    (hraw : ∀ t ∈ tokens, t.isSign = false) (hapart : OperandsApart tokens)
    (hout : toReversePolish tokens = .ok output)
    (hvalue : evaluateReversePolish output = .ok value) :
    IsSentence tokens := by
  have hcloses : Closes ([] : List (List Token)).length tokens := by
    by_contra h
    rw [toReversePolish_of_not_closes h] at hout
    cases hout
  have hsurplus : surplus (positioned none tokens) = 1 := by
    rw [← surplus_withoutParentheses, ← surplus_perm (perm_positioned_of_toReversePolish hout),
      surplus_withoutParentheses, surplus_of_evaluateReversePolish hvalue]
  have hfrom : OperandsApartFrom none tokens := hapart
  have hgroups : ∀ outer ∈ ([] : List (List Token)), Awaits outer := by simp
  have hread : ReadSoFar none [] := Awaits.nil
  exact isSentence_enclosed hraw hfrom hcloses hgroups hread hsurplus

theorem fault_of_isSentence {tokens : List Token} (h : IsSentence tokens) {fault : Fault}
    (hfault : toReversePolish tokens >>= evaluateReversePolish = .error fault) :
    fault = .divisionByZero ∨ fault = .resultNotFinite := by
  obtain ⟨e, rfl⟩ := h
  exact e.fault_of_evaluate (e.evaluateReversePolish_tokens.symm.trans hfault)

/-! ## Expressions -/

/-- The stages that an expression with tokens goes through. -/
theorem evaluate_of_tokenize {s : List Char} {tokens : List Token} (hs : isBlankText s = false)
    (h : tokenize s = .ok tokens) :
    evaluate s = (toReversePolish tokens >>= evaluateReversePolish) := by
  rw [evaluate, h]
  change (if tokens.isEmpty then _ else toReversePolish tokens >>= evaluateReversePolish) = _
  rw [if_neg (by simpa using tokens_ne_nil_of_tokenize hs h)]

theorem exists_tokens_of_evaluate {s : List Char} {value : Binary64}
    (h : evaluate s = .ok value) : ∃ tokens, tokenize s = .ok tokens := by
  obtain ⟨tokens, htokens, -⟩ := bind_eq_ok.1 h
  exact ⟨tokens, htokens⟩

/-- An accepted expression whose operands stand apart is a sentence. -/
theorem isSentence_of_evaluate {s : List Char} {tokens : List Token} {value : Binary64}
    (hs : isBlankText s = false) (htokens : tokenize s = .ok tokens)
    (h : evaluate s = .ok value) (hapart : OperandsApart tokens) : IsSentence tokens := by
  rw [evaluate_of_tokenize hs htokens] at h
  obtain ⟨output, hout, hvalue⟩ := bind_eq_ok.1 h
  exact isSentence_of_toReversePolish (not_isSign_of_tokenize htokens) hapart hout hvalue

theorem report?_isSome_of_tokenize {s : List Char} {fault : Fault}
    (h : tokenize s = .error fault) : fault.report?.isSome = true := by
  rcases fault_of_tokenize h with ⟨run, rfl⟩ | rfl | ⟨c, rfl⟩ <;> rfl

theorem report?_isSome_of_toReversePolish {tokens : List Token} {fault : Fault}
    (h : toReversePolish tokens = .error fault) : fault.report?.isSome = true := by
  obtain rfl := fault_of_toReversePolish h
  rfl

/-- Users are told of every fault that an expression can end with. -/
theorem report?_isSome_of_evaluate {s : List Char} {fault : Fault}
    (h : evaluate s = .error fault) : fault.report?.isSome = true := by
  rcases bind_eq_error.1 h with h | ⟨tokens, -, h⟩
  · exact report?_isSome_of_tokenize h
  · split at h
    · cases h
    · rcases bind_eq_error.1 h with h | ⟨output, -, h⟩
      · exact report?_isSome_of_toReversePolish h
      · exact report?_isSome_of_evaluateReversePolish h

/-- **What is accepted is a sentence exactly if its operands stand apart.** With operands apart,
what is no sentence is rejected, and users are told why. -/
theorem isSentence_iff_operandsApart {s : List Char} (hs : isBlankText s = false) :
    (∀ value, evaluate s = .ok value →
      ∃ tokens, tokenize s = .ok tokens ∧ (IsSentence tokens ↔ OperandsApart tokens)) ∧
    (∀ tokens, tokenize s = .ok tokens → OperandsApart tokens → ¬IsSentence tokens →
      ∃ fault report, evaluate s = .error fault ∧ fault.report? = some report) := by
  constructor
  · intro value h
    obtain ⟨tokens, htokens⟩ := exists_tokens_of_evaluate h
    refine ⟨tokens, htokens, fun hsentence => hsentence.operandsApart, fun hapart => ?_⟩
    exact isSentence_of_evaluate hs htokens h hapart
  · intro tokens htokens hapart hsentence
    cases h : evaluate s with
    | ok value => exact absurd (isSentence_of_evaluate hs htokens h hapart) hsentence
    | error fault =>
      obtain ⟨report, hreport⟩ := Option.isSome_iff_exists.1 (report?_isSome_of_evaluate h)
      exact ⟨fault, report, rfl, hreport⟩

/-- With the operands apart a missing one is noticed; a value that comes of two operands side by
side is that of no sentence. -/
theorem isSentence_iff_operandsApart_two_texts :
    (∃ tokens, tokenize "2(3)+".toList = .ok tokens ∧ (IsSentence tokens ↔ OperandsApart tokens)) ∧
      ∃ fault report, evaluate "2*(3-)".toList = .error fault ∧ fault.report? = some report := by
  constructor
  · have hvalue : evaluate "2(3)+".toList =
        .ok (.finite false ⟨0x4014000000000000, by decide⟩) := by
      decide +kernel
    exact (isSentence_iff_operandsApart (by decide)).1 _ hvalue
  · have htokens : tokenize "2*(3-)".toList = .ok [.number (.finite false ⟨2 ^ 62, by decide⟩),
        .op .mul, .opening, .number (.finite false ⟨2 ^ 62 + 2 ^ 51, by decide⟩), .op .sub,
        .closing] := by
      decide +kernel
    refine (isSentence_iff_operandsApart (by decide)).2 _ htokens (by decide) fun hsentence => ?_
    have hfault := @fault_of_isSentence _ hsentence .invalidExpression (by decide +kernel)
    simp at hfault

/-- Two operands side by side with an operator after them have a value, but they are no sentence. -/
theorem exists_accepted_not_isSentence : ∃ tokens value,
    tokenize "2(3)+".toList = .ok tokens ∧ evaluate "2(3)+".toList = .ok value ∧
      ¬IsSentence tokens := by
  have htokens : tokenize "2(3)+".toList = .ok [.number (.finite false ⟨2 ^ 62, by decide⟩),
      .opening, .number (.finite false ⟨2 ^ 62 + 2 ^ 51, by decide⟩), .closing, .op .add] := by
    decide +kernel
  have hvalue : evaluate "2(3)+".toList = .ok (.finite false ⟨0x4014000000000000, by decide⟩) := by
    decide +kernel
  exact ⟨_, _, htokens, hvalue, fun h => absurd h.operandsApart (by decide)⟩

end DeskCalculator
