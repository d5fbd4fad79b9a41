import DeskCalculator.Proofs.Service.Exchange

/-!
# Refused requests

* `Body.violations`, `Request.violations` : what a body and a request are refused for;
  `violations_of_expression?` : nothing, where there is an expression to evaluate;
* `Unshowable` : violations with a value that no answer can show; `shows_refuse` : only these bring
  down the answer;
* `Receives` : how a body is received; `receives_withInput` : it is refused, or what was read of it is
  replied to.
-/

namespace DeskCalculator.Service

/-! ## Violations -/

/-- What a body is refused for. -/
def Body.violations {α : Type} (read : Fields → Except (List Violation) α) : Body → List Violation
  | .unparsable => []
  | .violation v => [v]
  | .object fields =>
    match read fields with
    | .error violations => violations
    | .ok _ => []

/-- What a request is refused for. -/
def Request.violations (r : Request) : List Violation :=
  match r.route with
  | .ok .evaluate => (Body.ofChars r.body).violations evaluateInput
  | .ok .preview => (Body.ofChars r.body).violations previewInput
  | .ok .press => (Body.ofChars r.body).violations pressInput
  | _ => []

theorem violations_of_expression? {r : Request} {e : List Char} (h : r.expression? = some e) :
    r.violations = [] := by
  unfold Request.expression? at h
  split at h
  · rename_i fields hroute hbody
    unfold Request.violations Body.violations
    rw [hroute, hbody]
    dsimp only
    cases hread : evaluateInput fields with
    | ok input => rfl
    | error violations =>
      rw [hread] at h
      cases h
  · cases h

/-- One of the values has no JSON text. -/
def Unshowable (violations : List Violation) : Prop := ∃ v ∈ violations, v.value.isPlain = false

theorem not_unshowable_nil : ¬Unshowable [] := nofun

/-- An answer to what cannot be shown is none that was prepared, and no other one is a failure. -/
inductive Shows (violations : List Violation) : Answer → Prop
  | shown {a : Answer} (h : a.status ≠ 500) (hshowable : ¬Unshowable violations) :
      Shows violations a
  | unshown (h : Unshowable violations) : Shows violations .crashed

theorem shows_refuse (violations : List Violation) : Shows violations (refuse violations) := by
  unfold refuse
  split
  · rename_i hall
    refine .shown nofun ?_
    rintro ⟨v, hv, hplain⟩
    rw [List.all_eq_true.1 hall v hv] at hplain
    cases hplain
  · rename_i hall
    rw [Bool.not_eq_true, List.all_eq_false] at hall
    obtain ⟨v, hv, hplain⟩ := hall
    exact .unshown ⟨v, hv, Bool.not_eq_true _ ▸ hplain⟩

/-! ## Bodies -/

/-- How a body is received: with what it is refused for, and the answer with the file. -/
inductive Receives {α : Type} (body : Body) (file : File)
    (read : Fields → Except (List Violation) α) (reply : α → Answer × File)
    (violations : List Violation) : Answer × File → Prop
  | read {fields : Fields} {input : α} (hbody : body = .object fields)
      (hread : read fields = .ok input) (hnone : violations = []) :
      Receives body file read reply violations (reply input)
  | unparsable (hnone : violations = []) :
      Receives body file read reply violations (.unparsable, file)
  | refused : Receives body file read reply violations (refuse violations, file)

theorem receives_withInput {α : Type} (r : Request) (file : File)
    (read : Fields → Except (List Violation) α) (reply : α → Answer × File) :
    Receives (Body.ofChars r.body) file read reply ((Body.ofChars r.body).violations read)
      (withInput r file read reply) := by
  unfold withInput Body.violations
  cases hbody : Body.ofChars r.body with
  | unparsable => exact .unparsable rfl
  | violation v => exact .refused
  | object fields =>
    dsimp only
    cases hread : read fields with
    | error violations => exact .refused
    | ok input => exact .read rfl hread rfl

end DeskCalculator.Service
