import DeskCalculator.Proofs.Json.Whole

/-!
# Only what is whole can be written

* `Text.isWhole_append_iff`, `Text.isWhole_cons_iff` : a text is whole if its parts are;
  `Text.isWhole_renderText_iff` : quotes and escapes change nothing about that;
* `Json.whole_of_isWhole_render` : a value whose text is whole is whole in all its texts and keys;
* `Json.exists_write?_iff` : so the values that can be written are the whole ones;
* `Json.whole_text_iff`, `Json.whole_list_iff`,
  `Json.whole_object_iff` : a value is whole if its parts are; `Text.isSome_toChars?_iff` : a text
  is, if it has characters.
-/

namespace DeskCalculator

namespace Text

theorem isSome_toChars?_iff {a : Text} : a.toChars?.isSome = true ↔ a.IsWhole := by
  constructor
  · intro h
    obtain ⟨cs, hcs⟩ := Option.isSome_iff_exists.1 h
    exact ⟨cs, toChars?_eq_some hcs⟩
  · rintro ⟨cs, rfl⟩
    rw [toChars?_ofChars]
    rfl

theorem isWhole_cons_iff {g : Glyph} {a : Text} :
    IsWhole (g :: a) ↔ (∃ c, g = .char c) ∧ IsWhole a := by
  constructor
  · rintro ⟨cs, h⟩
    cases cs with
    | nil => cases h
    | cons c cs =>
      obtain ⟨hg, ha⟩ := List.cons.inj h
      exact ⟨⟨c, hg⟩, cs, ha⟩
  · rintro ⟨⟨c, rfl⟩, ha⟩
    exact ha.cons c

theorem isWhole_append_iff {a b : Text} : IsWhole (a ++ b) ↔ IsWhole a ∧ IsWhole b := by
  induction a with
  | nil => exact (and_iff_right (isWhole_ofChars [])).symm
  | cons g a ih => rw [List.cons_append, isWhole_cons_iff, ih, isWhole_cons_iff, and_assoc]

theorem isWhole_of_flatMap_escapeGlyph {text : Text}
    (h : IsWhole (text.flatMap Json.escapeGlyph)) : IsWhole text := by
  induction text with
  | nil => exact isWhole_ofChars []
  | cons g text ih =>
    rw [List.flatMap_cons, isWhole_append_iff] at h
    cases g with
    | char c => exact (ih h.2).cons c
    | half offset =>
      obtain ⟨⟨c, hc⟩, -⟩ := isWhole_cons_iff.1 h.1
      cases hc

theorem isWhole_renderText_iff {text : Text} : IsWhole (Json.renderText text) ↔ IsWhole text := by
  refine ⟨fun h => ?_, isWhole_renderText⟩
  exact isWhole_of_flatMap_escapeGlyph (isWhole_append_iff.1 (isWhole_cons_iff.1 h).2).1

end Text

namespace Json

open Text

theorem whole_text_iff {t : Text} : (text t).Whole ↔ t.IsWhole := by
  constructor
  · rintro (_ | _ | _ | _ | h)
    exact h
  · exact .text

theorem whole_list_iff {items : List Json} : (list items).Whole ↔ ∀ v ∈ items, v.Whole := by
  constructor
  · rintro (_ | _ | _ | _ | _ | h)
    exact h
  · exact .list

theorem whole_object_iff {fields : Fields} :
    (object fields).Whole ↔ ∀ f ∈ fields, f.1.IsWhole ∧ f.2.Whole := by
  constructor
  · rintro (_ | _ | _ | _ | _ | _ | ⟨hkeys, hvalues⟩) f hf
    exact ⟨hkeys f hf, hvalues f hf⟩
  · exact fun h => .object (fun f hf => (h f hf).1) fun f hf => (h f hf).2

mutual

theorem whole_of_isWhole_render : (v : Json) → (render v).IsWhole → v.Whole
  | .null, _ => .null
  | .bool b, _ => .bool b
  | .int n, _ => .int n
  | .real x, _ => .real x
  | .text _, h => .text (isWhole_renderText_iff.1 h)
  | .list items, h =>
    .list (whole_of_isWhole_renderItems items (isWhole_append_iff.1 (isWhole_cons_iff.1 h).2).1)
  | .object fields, h => whole_object_iff.2
    (whole_of_isWhole_renderFields fields (isWhole_append_iff.1 (isWhole_cons_iff.1 h).2).1)

theorem whole_of_isWhole_renderItems :
    (items : List Json) → (renderItems items).IsWhole → ∀ v ∈ items, v.Whole
  | [], _ => List.forall_mem_nil _
  | [v], h => List.forall_mem_singleton.2 (whole_of_isWhole_render v h)
  | v :: w :: rest, h => by
    obtain ⟨hv, hrest⟩ := isWhole_append_iff.1 h
    exact List.forall_mem_cons.2 ⟨whole_of_isWhole_render v hv,
      whole_of_isWhole_renderItems (w :: rest) (isWhole_append_iff.1 hrest).2⟩

theorem whole_of_isWhole_renderField :
    (f : Text × Json) → (renderField f).IsWhole → f.1.IsWhole ∧ f.2.Whole
  | (k, v), h => by
    obtain ⟨hkey, hrest⟩ := isWhole_append_iff.1 h
    exact ⟨isWhole_renderText_iff.1 hkey,
      whole_of_isWhole_render v (isWhole_append_iff.1 hrest).2⟩

theorem whole_of_isWhole_renderFields : (fields : List (Text × Json)) →
    (renderFields fields).IsWhole → ∀ f ∈ fields, f.1.IsWhole ∧ f.2.Whole
  | [], _ => List.forall_mem_nil _
  | [f], h => List.forall_mem_singleton.2 (whole_of_isWhole_renderField f h)
  | f :: g :: rest, h => by
    obtain ⟨hf, hrest⟩ := isWhole_append_iff.1 h
    exact List.forall_mem_cons.2 ⟨whole_of_isWhole_renderField f hf,
      whole_of_isWhole_renderFields (g :: rest) (isWhole_append_iff.1 hrest).2⟩

end

/-- The values that can be written are those without lone halves. -/
theorem exists_write?_iff {v : Json} : (∃ bytes, write? v = some bytes) ↔ v.Whole := by
  refine ⟨?_, exists_write?⟩
  rintro ⟨bytes, h⟩
  obtain ⟨cs, hcs, -⟩ := Option.map_eq_some_iff.1 h
  exact whole_of_isWhole_render v ⟨cs, toChars?_eq_some hcs⟩

end Json

end DeskCalculator
