import DeskCalculator.Expression.Grammar
import Mathlib.Data.List.Chain

/-!
# Sentences

* `IsSentence.number`, `IsSentence.group`, `IsSentence.signed`, `IsSentence.binary` : sentences may
  be put together without regard to precedence, since a derivation can be regrouped;
* `SideBySide` : one operand ends and the next one starts, with no operator between;
  `IsSentence.operandsApart` : no two operands of a sentence stand side by side.
-/

namespace DeskCalculator.Grammar

/-! ## Regrouping derivations -/

/-- The term with a sign before its first factor. -/
def Term.withSign (o : Additive) : Term → Term
  | .factor f => .factor (.signed o f)
  | .product left p right => .product (left.withSign o) p right

/-- The expression with a sign before its first factor. -/
def Expr.withSign (o : Additive) : Expr → Expr
  | .term t => .term (t.withSign o)
  | .sum left p right => .sum (left.withSign o) p right

/-- The factors of two terms in one. -/
def Term.joined (left : Term) (o : Multiplicative) : Term → Term
  | .factor f => .product left o f
  | .product middle p right => .product (left.joined o middle) p right

/-- The expression with a term joined to its last one. -/
def Expr.joinedTerm (left : Expr) (o : Multiplicative) (t : Term) : Expr :=
  match left with
  | .term s => .term (s.joined o t)
  | .sum middle p s => .sum middle p (s.joined o t)

/-- The terms of two expressions in one, where the last and the first are joined. -/
def Expr.joined (left : Expr) (o : Multiplicative) : Expr → Expr
  | .term t => left.joinedTerm o t
  | .sum middle p right => .sum (left.joined o middle) p right

/-- The terms of two expressions in one. -/
def Expr.added (left : Expr) (o : Additive) : Expr → Expr
  | .term t => .sum left o t
  | .sum middle p right => .sum (left.added o middle) p right

theorem Term.tokens_withSign (o : Additive) :
    ∀ t : Term, (t.withSign o).tokens = .op o.operator :: t.tokens
  | .factor f => rfl
  | .product left p right => by
    simp only [Term.withSign, Term.tokens, Term.tokens_withSign o left, List.cons_append]

theorem Expr.tokens_withSign (o : Additive) :
    ∀ e : Expr, (e.withSign o).tokens = .op o.operator :: e.tokens
  | .term t => by
    simp only [Expr.withSign, Expr.tokens, Term.tokens_withSign]
  | .sum left p right => by
    simp only [Expr.withSign, Expr.tokens, Expr.tokens_withSign o left, List.cons_append]

theorem Term.tokens_joined (left : Term) (o : Multiplicative) :
    ∀ t : Term, (left.joined o t).tokens = left.tokens ++ .op o.operator :: t.tokens
  | .factor f => by
    simp only [Term.joined, Term.tokens]
  | .product middle p right => by
    simp only [Term.joined, Term.tokens, Term.tokens_joined left o middle, List.append_assoc,
      List.cons_append]

theorem Expr.tokens_joinedTerm (left : Expr) (o : Multiplicative) (t : Term) :
    (left.joinedTerm o t).tokens = left.tokens ++ .op o.operator :: t.tokens := by
  cases left with
  | term s => simp only [Expr.joinedTerm, Expr.tokens, Term.tokens_joined]
  | sum middle p s =>
    simp only [Expr.joinedTerm, Expr.tokens, Term.tokens_joined, List.append_assoc,
      List.cons_append]

theorem Expr.tokens_joined (left : Expr) (o : Multiplicative) :
    ∀ e : Expr, (left.joined o e).tokens = left.tokens ++ .op o.operator :: e.tokens
  | .term t => by
    simp only [Expr.joined, Expr.tokens, Expr.tokens_joinedTerm]
  | .sum middle p right => by
    simp only [Expr.joined, Expr.tokens, Expr.tokens_joined left o middle, List.append_assoc,
      List.cons_append]

theorem Expr.tokens_added (left : Expr) (o : Additive) :
    ∀ e : Expr, (left.added o e).tokens = left.tokens ++ .op o.operator :: e.tokens
  | .term t => by
    simp only [Expr.added, Expr.tokens]
  | .sum middle p right => by
    simp only [Expr.added, Expr.tokens, Expr.tokens_added left o middle, List.append_assoc,
      List.cons_append]

/-! ## Putting sentences together -/

namespace IsSentence

theorem number (value : Binary64) : IsSentence [.number value] :=
  ⟨.term (.factor (.number value)), rfl⟩

theorem group {tokens : List Token} (h : IsSentence tokens) :
    IsSentence (.opening :: (tokens ++ [.closing])) := by
  obtain ⟨e, rfl⟩ := h
  exact ⟨.term (.factor (.group e)), rfl⟩

theorem signed {o s : Operator} (hs : o.sign? = some s) {tokens : List Token}
    (h : IsSentence tokens) : IsSentence (.op o :: tokens) := by
  obtain ⟨e, rfl⟩ := h
  cases o with
  | add => exact ⟨e.withSign .plus, e.tokens_withSign .plus⟩
  | sub => exact ⟨e.withSign .minus, e.tokens_withSign .minus⟩
  | _ => cases hs

theorem binary {o : Operator} (ho : o.arity = 2) {left right : List Token}
    (hleft : IsSentence left) (hright : IsSentence right) :
    IsSentence (left ++ .op o :: right) := by
  obtain ⟨d, rfl⟩ := hleft
  obtain ⟨e, rfl⟩ := hright
  cases o with
  | add => exact ⟨d.added .plus e, d.tokens_added .plus e⟩
  | sub => exact ⟨d.added .minus e, d.tokens_added .minus e⟩
  | mul => exact ⟨d.joined .times e, d.tokens_joined .times e⟩
  | div => exact ⟨d.joined .divide e, d.tokens_joined .divide e⟩
  | pos => cases ho
  | neg => cases ho

end IsSentence

end DeskCalculator.Grammar

namespace DeskCalculator

/-! ## Operands side by side -/

/-- Whether an operand can end with the token. -/
def Token.endsOperand : Token → Bool
  | .number _ | .closing => true
  | _ => false

/-- Whether an operand can start with the token, signs apart. -/
def Token.startsOperand : Token → Bool
  | .number _ | .opening => true
  | _ => false

/-- One operand ends and another one starts, with no operator between them. -/
def SideBySide (a b : Token) : Prop := a.endsOperand = true ∧ b.startsOperand = true

instance (a b : Token) : Decidable (SideBySide a b) :=
  inferInstanceAs (Decidable (a.endsOperand = true ∧ b.startsOperand = true))

/-- No two operands of the tokens stand side by side. -/
def OperandsApart (tokens : List Token) : Prop := tokens.IsChain (¬SideBySide · ·)

instance (tokens : List Token) : Decidable (OperandsApart tokens) :=
  inferInstanceAs (Decidable (tokens.IsChain (¬SideBySide · ·)))

theorem OperandsApart.singleton (t : Token) : OperandsApart [t] := List.isChain_singleton t

theorem OperandsApart.cons {t : Token} (ht : t.endsOperand = false) {tokens : List Token}
    (h : OperandsApart tokens) : OperandsApart (t :: tokens) := by
  cases tokens with
  | nil => exact .singleton t
  | cons u tokens => exact List.isChain_cons_cons.2 ⟨fun hs => by simp [hs.1] at ht, h⟩

theorem OperandsApart.append {t : Token} (ht : t.startsOperand = false) {left right : List Token}
    (hleft : OperandsApart left) (hright : OperandsApart (t :: right)) :
    OperandsApart (left ++ t :: right) := by
  refine List.IsChain.append hleft hright ?_
  intro a _ b hb hs
  obtain rfl := Option.mem_some_iff.1 hb
  simp [hs.2] at ht

namespace Grammar

mutual

theorem Expr.operandsApart : ∀ e : Expr, OperandsApart e.tokens
  | .term t => by
    rw [Expr.tokens]
    exact t.operandsApart
  | .sum left o right => by
    rw [Expr.tokens]
    exact left.operandsApart.append rfl (right.operandsApart.cons rfl)

theorem Term.operandsApart : ∀ t : Term, OperandsApart t.tokens
  | .factor f => by
    rw [Term.tokens]
    exact f.operandsApart
  | .product left o right => by
    rw [Term.tokens]
    exact left.operandsApart.append rfl (right.operandsApart.cons rfl)

theorem Factor.operandsApart : ∀ f : Factor, OperandsApart f.tokens
  | .number value => .singleton _
  | .group e => by
    rw [Factor.tokens]
    exact (e.operandsApart.append rfl (.singleton .closing)).cons rfl
  | .signed o f => by
    rw [Factor.tokens]
    exact f.operandsApart.cons rfl

end

theorem IsSentence.operandsApart {tokens : List Token} (h : IsSentence tokens) :
    OperandsApart tokens := by
  obtain ⟨e, rfl⟩ := h
  exact e.operandsApart

end Grammar

end DeskCalculator
