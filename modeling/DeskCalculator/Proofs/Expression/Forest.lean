import DeskCalculator.Proofs.Expression.Written

/-!
# Token lists as trees

* `Tree.postorders` : the tokens of trees in a row; `Tree.foldlM_postorders` : run on any stack, they
  put the values of the trees on top or stop with the first fault;
* `Tree.plant` : one token on a stack of trees instead of values; `Tree.foldlM_plant_postorder`,
  `Tree.postorders_of_foldlM_plant` : it finds the trees that tokens are, and no others;
* `Stuck` : why tokens that follow trees in a row complete no tree; `exists_stuck` : tokens that are
  no tree are trees in a row with such a rest;
* `evaluateReversePolish_iff_postorder` : tokens have a value if and only if they are a tree with
  that value.
-/

namespace DeskCalculator

namespace Tree

/-! ## Trees in a row -/

/-- The tokens of trees in a row. -/
def postorders (trees : List Tree) : List Token := trees.flatMap postorder

@[simp] theorem postorders_nil : postorders [] = [] := rfl

@[simp] theorem postorders_cons (t : Tree) (trees : List Tree) :
    postorders (t :: trees) = t.postorder ++ postorders trees := rfl

@[simp] theorem postorders_append (a b : List Tree) :
    postorders (a ++ b) = postorders a ++ postorders b := List.flatMap_append

theorem postorders_singleton (t : Tree) : postorders [t] = t.postorder := by simp

/-- The tokens of trees in a row, run on any stack, put the values on top, the last one first. -/
theorem foldlM_postorders (trees : List Tree) (stack : List Binary64) :
    (postorders trees).foldlM stepOperands stack =
      (fun values => values.reverse ++ stack) <$> trees.mapM evaluate := by
  induction trees generalizing stack with
  | nil => rfl
  | cons t trees ih =>
    rw [postorders_cons, List.foldlM_append, foldlM_postorder, List.mapM_cons]
    cases t.evaluate with
    | error fault => rfl
    | ok value =>
      change (postorders trees).foldlM stepOperands (value :: stack) = _
      rw [ih]
      cases trees.mapM evaluate with
      | error fault => rfl
      | ok values =>
        change Except.ok (values.reverse ++ value :: stack) =
          Except.ok ((value :: values).reverse ++ stack)
        rw [List.reverse_cons, List.append_assoc, List.singleton_append]

theorem fault_of_mapM_evaluate {trees : List Tree} {fault : Fault}
    (h : trees.mapM evaluate = .error fault) :
    fault = .divisionByZero ∨ fault = .resultNotFinite := by
  obtain ⟨t, -, ht⟩ := exists_of_mapM_eq_error h
  exact t.fault_of_evaluate ht

/-! ## Finding the trees -/

/-- One token on a stack of trees, the last one on top. An operator takes the trees of its operands,
as far as they are there; a parenthesis has no place. -/
def plant (stack : List Tree) : Token → Except Fault (List Tree)
  | .number value => .ok (number value :: stack)
  | .op o =>
    if h : o.arity = 1 then
      match stack with
      | x :: rest => .ok (sign o h x :: rest)
      | [] => .error .invalidExpression
    else
      match stack with
      | y :: x :: rest => .ok (binary o (o.arity_eq.resolve_left h) x y :: rest)
      | _ => .error .invalidExpression
  | t => .error (.unexpectedToken t)

theorem plant_sign {o : Operator} (ho : o.arity = 1) (x : Tree) (stack : List Tree) :
    plant (x :: stack) (.op o) = .ok (sign o ho x :: stack) := by
  unfold plant
  dsimp only
  rw [dif_pos ho]

theorem plant_binary {o : Operator} (ho : o.arity = 2) (x y : Tree) (stack : List Tree) :
    plant (y :: x :: stack) (.op o) = .ok (binary o ho x y :: stack) := by
  unfold plant
  dsimp only
  rw [dif_neg (by omega)]

/-- The tokens of a tree, planted on any stack, put the tree on top. -/
theorem foldlM_plant_postorder (t : Tree) (stack : List Tree) :
    t.postorder.foldlM plant stack = .ok (t :: stack) := by
  induction t generalizing stack with
  | number value => rfl
  | sign o ho operand ih =>
    rw [postorder, List.foldlM_append, ih, ok_bind, List.foldlM_cons, plant_sign ho]
    rfl
  | binary o ho left right ihl ihr =>
    rw [postorder, List.foldlM_append, ihl, ok_bind, List.foldlM_append, ihr, ok_bind,
      List.foldlM_cons, plant_binary ho]
    rfl

theorem postorder_injective {t u : Tree} (h : t.postorder = u.postorder) : t = u := by
  have ht := t.foldlM_plant_postorder []
  rw [h, u.foldlM_plant_postorder] at ht
  exact (List.cons.inj (Except.ok.inj ht)).1.symm

/-- A planted token stands behind the tokens of the trees. -/
theorem postorders_of_plant {stack stack' : List Tree} {t : Token}
    (h : plant stack t = .ok stack') :
    postorders stack'.reverse = postorders stack.reverse ++ [t] := by
  unfold plant at h
  split at h
  · obtain rfl := Except.ok.inj h
    simp [postorder]
  · split at h
    · split at h
      · obtain rfl := Except.ok.inj h
        simp [postorder]
      · cases h
    · split at h
      · obtain rfl := Except.ok.inj h
        simp [postorder]
      · cases h
  · cases h

theorem postorders_of_foldlM_plant {tokens : List Token} {stack stack' : List Tree}
    (h : tokens.foldlM plant stack = .ok stack') :
    postorders stack'.reverse = postorders stack.reverse ++ tokens := by
  induction tokens generalizing stack with
  | nil =>
    obtain rfl := Except.ok.inj h
    rw [List.append_nil]
  | cons t tokens ih =>
    obtain ⟨mid, hstep, hrest⟩ := foldlM_cons_eq_ok.1 h
    rw [ih hrest, postorders_of_plant hstep, List.append_assoc, List.singleton_append]

end Tree

/-! ## Tokens that are no tree -/

/-- Why tokens complete no tree when they follow so many trees in a row: they end and there is not
one tree, they go on with an operator whose operands are missing, or with a parenthesis. -/
inductive Stuck (height : Nat) : List Token → Fault → Prop
  | ended (h : height ≠ 1) : Stuck height [] .invalidExpression
  | operator {o : Operator} (h : height < o.arity) (rest : List Token) :
      Stuck height (.op o :: rest) .invalidExpression
  | opening (rest : List Token) : Stuck height (.opening :: rest) (.unexpectedToken .opening)
  | closing (rest : List Token) : Stuck height (.closing :: rest) (.unexpectedToken .closing)

theorem Stuck.kind {height : Nat} {rest : List Token} {fault : Fault} (h : Stuck height rest fault) :
    fault.report?.map Report.kind = some .invalidExpression := by
  cases h <;> rfl

theorem stuck_of_plant {stack : List Tree} {t : Token} {fault : Fault}
    (h : Tree.plant stack t = .error fault) (rest : List Token) :
    Stuck stack.length (t :: rest) fault := by
  cases t with
  | number value => cases h
  | opening =>
    obtain rfl := Except.error.inj h
    exact .opening rest
  | closing =>
    obtain rfl := Except.error.inj h
    exact .closing rest
  | op o =>
    unfold Tree.plant at h
    dsimp only at h
    split at h
    · rename_i ho
      split at h
      · cases h
      · obtain rfl := Except.error.inj h
        exact .operator (by rw [ho]; exact Nat.one_pos) rest
    · rename_i ho
      have harity := o.arity_eq.resolve_left ho
      split at h
      · cases h
      · rename_i hshort
        obtain rfl := Except.error.inj h
        refine .operator ?_ rest
        rw [harity]
        match stack, hshort with
        | [], _ => exact Nat.two_pos
        | [_], _ => exact Nat.one_lt_two
        | y :: x :: below, hshort => exact absurd rfl (hshort y x below)

/-- Tokens that are no tree are trees in a row with a rest that completes none. -/
theorem exists_stuck {tokens : List Token} (h : ∀ t : Tree, t.postorder ≠ tokens) :
    ∃ trees rest fault, tokens = Tree.postorders trees ++ rest ∧ Stuck trees.length rest fault := by
  cases hrun : tokens.foldlM Tree.plant [] with
  | ok stack =>
    have htokens := Tree.postorders_of_foldlM_plant hrun
    refine ⟨stack.reverse, [], .invalidExpression, ?_, .ended ?_⟩
    · rw [htokens, List.append_nil]
      rfl
    · intro hone
      obtain ⟨t, ht⟩ := List.length_eq_one_iff.1 hone
      rw [ht, Tree.postorders_singleton] at htokens
      exact h t htokens
  | error fault =>
    obtain ⟨before, t, after, stack, rfl, hbefore, hstep⟩ := exists_append_of_foldlM_eq_error hrun
    have htokens := Tree.postorders_of_foldlM_plant hbefore
    refine ⟨stack.reverse, t :: after, fault, ?_, ?_⟩
    · rw [htokens]
      rfl
    · rw [List.length_reverse]
      exact stuck_of_plant hstep after

/-! ## Values -/

theorem stepOperands_of_stuck {stack : List Binary64} {t : Token} {rest : List Token}
    {fault : Fault} (h : Stuck stack.length (t :: rest) fault) :
    stepOperands stack t = .error fault := by
  cases h with
  | opening rest => rfl
  | closing rest => rfl
  | @operator o hshort rest =>
    unfold stepOperands
    dsimp only
    rcases o.arity_eq with ho | ho
    · rw [ho, Nat.lt_one_iff, List.length_eq_zero_iff] at hshort
      rw [if_pos ho, hshort]
    · rw [ho] at hshort
      rw [if_neg (by omega)]
      match stack, hshort with
      | [], _ => rfl
      | [_], _ => rfl

/-- Trees in a row with a rest that completes none: the first fault of the trees is raised, and else
that of the rest. -/
theorem evaluateReversePolish_postorders {trees : List Tree} {rest : List Token} {fault : Fault}
    (h : Stuck trees.length rest fault) :
    evaluateReversePolish (Tree.postorders trees ++ rest) =
      (trees.mapM Tree.evaluate >>= fun _ => .error fault) := by
  rw [evaluateReversePolish, List.foldlM_append, Tree.foldlM_postorders]
  cases hvalues : trees.mapM Tree.evaluate with
  | error early => rfl
  | ok values =>
    have hlength : trees.length = (values.reverse ++ []).length := by
      rw [List.append_nil, List.length_reverse]
      exact (forall₂_of_mapM_eq_ok hvalues).length_eq
    rw [hlength] at h
    change ((rest.foldlM stepOperands (values.reverse ++ [])) >>= _) = Except.error fault
    generalize values.reverse ++ [] = stack at h
    cases rest with
    | nil =>
      cases h with
      | ended hone =>
        rw [List.foldlM_nil]
        rcases stack with _ | ⟨x, _ | ⟨y, below⟩⟩
        · rfl
        · exact absurd rfl hone
        · rfl
    | cons t rest =>
      rw [List.foldlM_cons, stepOperands_of_stuck h]
      rfl

/-- **Token lists in reverse Polish order are trees.** A token list has a value if and only if it is
the postorder of a tree that evaluates to the value. There is at most one such tree, and if it
faults, its first fault is raised. A list that is no tree always faults: it is the postorders of
trees in a row with a rest that completes no tree, and the fault is an invalid expression, unless
one of these trees divides by zero or has a result that is not finite. -/
theorem evaluateReversePolish_iff_postorder (tokens : List Token) :
    (∀ value, evaluateReversePolish tokens = .ok value ↔
      ∃ t : Tree, t.postorder = tokens ∧ t.evaluate = .ok value) ∧
    (∀ t : Tree, t.postorder = tokens →
      evaluateReversePolish tokens = t.evaluate ∧ ∀ u : Tree, u.postorder = tokens → u = t) ∧
    ((∀ t : Tree, t.postorder ≠ tokens) → ∃ trees rest fault,
      tokens = Tree.postorders trees ++ rest ∧ Stuck trees.length rest fault ∧
      fault.report?.map Report.kind = some .invalidExpression ∧
      (∀ values, trees.mapM Tree.evaluate = .ok values →
        evaluateReversePolish tokens = .error fault) ∧
      ∀ early, trees.mapM Tree.evaluate = .error early →
        evaluateReversePolish tokens = .error early ∧
          (early = .divisionByZero ∨ early = .resultNotFinite)) := by
  have hnone : (∀ t : Tree, t.postorder ≠ tokens) → ∃ trees rest fault,
      tokens = Tree.postorders trees ++ rest ∧ Stuck trees.length rest fault ∧
      evaluateReversePolish tokens = (trees.mapM Tree.evaluate >>= fun _ => .error fault) := by
    intro h
    obtain ⟨trees, rest, fault, htokens, hstuck⟩ := exists_stuck h
    exact ⟨trees, rest, fault, htokens, hstuck, htokens ▸ evaluateReversePolish_postorders hstuck⟩
  refine ⟨fun value => ⟨fun hvalue => ?_, ?_⟩, ?_, fun h => ?_⟩
  · by_contra hno
    have htree : ∀ t : Tree, t.postorder ≠ tokens := by
      rintro t rfl
      exact hno ⟨t, rfl, (evaluateReversePolish_postorder t).symm.trans hvalue⟩
    obtain ⟨trees, rest, fault, -, -, heval⟩ := hnone htree
    obtain ⟨values, -, hfault⟩ := bind_eq_ok.1 (heval.symm.trans hvalue)
    cases hfault
  · rintro ⟨t, rfl, ht⟩
    exact (evaluateReversePolish_postorder t).trans ht
  · rintro t rfl
    exact ⟨evaluateReversePolish_postorder t, fun u hu => Tree.postorder_injective hu⟩
  · obtain ⟨trees, rest, fault, htokens, hstuck, heval⟩ := hnone h
    refine ⟨trees, rest, fault, htokens, hstuck, hstuck.kind, fun values hvalues => ?_,
      fun early hearly => ?_⟩
    · rw [heval, hvalues, ok_bind]
    · rw [heval, hearly]
      exact ⟨rfl, Tree.fault_of_mapM_evaluate hearly⟩

/-- A division by zero in front of a parenthesis is raised, and the parenthesis otherwise. -/
example : let one := Token.number (.ofInt 1)
    evaluateReversePolish [one, .number (.zero true), .op .div, .opening] = .error .divisionByZero ∧
      evaluateReversePolish [one, one, .op .div, .opening] = .error (.unexpectedToken .opening) := by
  decide +kernel

end DeskCalculator
