import DeskCalculator.Proofs.Expression.Conversion
import DeskCalculator.Proofs.Runs

/-!
# Parentheses and their counterparts

* `Closes depth tokens` : every parenthesis has its counterpart, when `depth` are open before;
  `closes_iff` : the same by counting;
* `Conversion.depth` : the opening parentheses that a conversion holds, whatever operators stand
  between them; `Conversion.finish_foldlM` : a conversion ends with an output exactly if the tokens
  close them; `toReversePolish_of_closes`, `toReversePolish_of_not_closes` : so does an expression;
* `Unbalanced`, `toReversePolish_mismatched_iff` : a conversion fails exactly on unbalanced
  parentheses.
-/

namespace DeskCalculator

/-- Every parenthesis of the tokens has its counterpart, when `depth` opening ones are open before
them. -/
def Closes : Nat → List Token → Prop
  | depth, [] => depth = 0
  | depth, .opening :: tokens => Closes (depth + 1) tokens
  | 0, .closing :: _ => False
  | depth + 1, .closing :: tokens => Closes depth tokens
  | depth, _ :: tokens => Closes depth tokens

namespace Conversion

/-- The number of opening parentheses that wait for their counterparts. -/
def depth (c : Conversion) : Nat := c.stack.count .opening

theorem depth_number (c : Conversion) (value : Binary64) :
    ∃ c', c.step (.number value) = .ok c' ∧ c'.depth = c.depth := ⟨_, rfl, rfl⟩

theorem depth_opening (c : Conversion) :
    ∃ c', c.step .opening = .ok c' ∧ c'.depth = c.depth + 1 :=
  ⟨_, rfl, List.count_cons_self⟩

theorem depth_op (c : Conversion) (o : Operator) :
    ∃ c', c.step (.op o) = .ok c' ∧ c'.depth = c.depth := by
  refine ⟨_, c.step_op o, ?_⟩
  let moves := (·.makesWay (o.inPosition c.previous) : Token → Bool)
  have hmoved : (c.stack.takeWhile moves).count .opening = 0 := by
    rw [List.count_eq_zero]
    intro hmem
    have hmoves : moves .opening = true := List.all_eq_true.1 List.all_takeWhile _ hmem
    cases hmoves
  have hcount := congrArg (List.count Token.opening)
    (List.takeWhile_append_dropWhile (p := moves) (l := c.stack))
  rw [List.count_append, hmoved, Nat.zero_add] at hcount
  rw [depth, depth, ← hcount]
  exact List.count_cons_of_ne (by simp)

theorem depth_closing {c : Conversion} {n : Nat} (h : c.depth = n + 1) :
    ∃ c', c.step .closing = .ok c' ∧ c'.depth = n := by
  have hmem : Token.opening ∈ c.stack := by
    rw [← List.count_pos_iff]
    rw [depth] at h
    omega
  obtain ⟨above, below, hstack, habove⟩ := List.eq_append_cons_of_mem hmem
  refine ⟨_, c.step_closing habove hstack, ?_⟩
  rw [depth, hstack, List.count_append, List.count_cons_self, List.count_eq_zero.2 habove] at h
  simp only [depth]
  omega

theorem step_closing_of_depth {c : Conversion} (h : c.depth = 0) :
    c.step .closing = .error .mismatchedParentheses :=
  c.step_closing_of_not_mem (List.count_eq_zero.1 h)

/-- A conversion ends with an output exactly if the tokens close the parentheses that are open; else
it stops at a parenthesis. -/
theorem finish_foldlM (c : Conversion) (tokens : List Token) :
    (Closes c.depth tokens → ∃ output, (tokens.foldlM step c >>= finish) = .ok output) ∧
      (¬Closes c.depth tokens →
        (tokens.foldlM step c >>= finish) = .error .mismatchedParentheses) := by
  induction tokens generalizing c with
  | nil =>
    change (c.depth = 0 → ∃ output, c.finish = .ok output) ∧
      (¬c.depth = 0 → c.finish = .error .mismatchedParentheses)
    rw [finish, depth, List.count_eq_zero]
    refine ⟨fun h => ⟨_, by rw [flush_of_not_mem h]; rfl⟩, fun h => ?_⟩
    rw [flush_of_mem (Classical.not_not.1 h)]
    rfl
  | cons t tokens ih =>
    cases t with
    | number value =>
      obtain ⟨c', hstep, hdepth⟩ := c.depth_number value
      rw [foldlM_step_cons hstep, Closes, ← hdepth]
      · exact ih c'
      all_goals simp
    | op o =>
      obtain ⟨c', hstep, hdepth⟩ := c.depth_op o
      rw [foldlM_step_cons hstep, Closes, ← hdepth]
      · exact ih c'
      all_goals simp
    | opening =>
      obtain ⟨c', hstep, hdepth⟩ := c.depth_opening
      rw [foldlM_step_cons hstep, Closes, ← hdepth]
      exact ih c'
    | closing =>
      cases hdepth : c.depth with
      | zero =>
        rw [List.foldlM_cons, step_closing_of_depth hdepth, Closes]
        exact ⟨False.elim, fun _ => rfl⟩
      | succ n =>
        obtain ⟨c', hstep, hdepth'⟩ := depth_closing hdepth
        rw [foldlM_step_cons hstep, Closes, ← hdepth']
        exact ih c'

end Conversion

theorem toReversePolish_of_closes {tokens : List Token} (h : Closes 0 tokens) :
    ∃ output, toReversePolish tokens = .ok output :=
  (Conversion.finish_foldlM .start tokens).1 h

theorem toReversePolish_of_not_closes {tokens : List Token} (h : ¬Closes 0 tokens) :
    toReversePolish tokens = .error .mismatchedParentheses :=
  (Conversion.finish_foldlM .start tokens).2 h

theorem fault_of_toReversePolish {tokens : List Token} {fault : Fault}
    (h : toReversePolish tokens = .error fault) : fault = .mismatchedParentheses := by
  by_cases hcloses : Closes 0 tokens
  · obtain ⟨output, hout⟩ := toReversePolish_of_closes hcloses
    rw [hout] at h
    cases h
  · rw [toReversePolish_of_not_closes hcloses] at h
    exact (Except.error.inj h).symm

/-! ## Counting parentheses -/

theorem forall_prefix_cons {p : List Token → Prop} {t : Token} {tokens : List Token} :
    (∀ before, before <+: t :: tokens → p before) ↔
      p [] ∧ ∀ before, before <+: tokens → p (t :: before) := by
  constructor
  · intro h
    exact ⟨h [] List.nil_prefix, fun before hb => h _ (List.cons_prefix_cons.2 ⟨rfl, hb⟩)⟩
  · rintro ⟨hnil, hcons⟩ before hb
    rcases List.prefix_cons_iff.1 hb with rfl | ⟨rest, rfl, hrest⟩
    · exact hnil
    · exact hcons rest hrest

/-- Every parenthesis has its counterpart exactly if no first part of the tokens closes more than
are open, and all of them together close as many. -/
theorem closes_iff {depth : Nat} {tokens : List Token} :
    Closes depth tokens ↔
      (∀ before, before <+: tokens → before.count .closing ≤ depth + before.count .opening) ∧
        tokens.count .closing = depth + tokens.count .opening := by
  induction tokens generalizing depth with
  | nil => simp [Closes, eq_comm]
  | cons t tokens ih =>
    rw [forall_prefix_cons]
    cases t with
    | number value => simp [Closes, ih]
    | op o => simp [Closes, ih]
    | opening => simp [Closes, ih, Nat.add_comm, Nat.add_left_comm]
    | closing =>
      cases depth with
      | zero =>
        -- the closing parenthesis alone is the part that closes too many
        refine ⟨False.elim, ?_⟩
        rintro ⟨⟨-, hparts⟩, -⟩
        have hfirst := hparts [] List.nil_prefix
        simp at hfirst
      | succ depth => simp [Closes, ih, Nat.add_right_comm _ 1]

/-- Some first part of the tokens closes more parentheses than it opens, or all of them together
open another number than they close. -/
def Unbalanced (tokens : List Token) : Prop :=
  (∃ before, before <+: tokens ∧ before.count .opening < before.count .closing) ∨
    tokens.count .opening ≠ tokens.count .closing

theorem closes_zero_iff {tokens : List Token} : Closes 0 tokens ↔ ¬Unbalanced tokens := by
  rw [closes_iff, Unbalanced]
  simp only [Nat.zero_add, not_or, not_exists, not_and, Nat.not_lt, ne_eq, not_not]
  exact and_congr_right fun _ => eq_comm

/-- **Exactly unbalanced parentheses are a fault of the conversion**, whatever the operators around
them are, and in every other list there is an output. -/
theorem toReversePolish_mismatched_iff (tokens : List Token) :
    (toReversePolish tokens = .error .mismatchedParentheses ↔ Unbalanced tokens) ∧
      (¬Unbalanced tokens → ∃ output, toReversePolish tokens = .ok output) := by
  refine ⟨⟨fun h => ?_, fun h => ?_⟩, fun h => toReversePolish_of_closes (closes_zero_iff.2 h)⟩
  · by_contra hbalanced
    obtain ⟨output, hout⟩ := toReversePolish_of_closes (closes_zero_iff.2 hbalanced)
    rw [hout] at h
    cases h
  · exact toReversePolish_of_not_closes fun hcloses => closes_zero_iff.1 hcloses h

end DeskCalculator
