import DeskCalculator.Json.Writer
import DeskCalculator.Proofs.Json.Fields

/-!
# What can be written

* `Text.IsWhole` : a text without lone halves of surrogate pairs;
* `Json.Whole` : a value whose texts and keys are whole;
* `Json.isWhole_render`, `Json.exists_write?` : such a value has a whole text, and so it has bytes.
-/

namespace DeskCalculator

namespace Text

theorem toChars?_eq_some {text : Text} {cs : List Char} (h : text.toChars? = some cs) :
    text = ofChars cs := by
  induction text generalizing cs with
  | nil =>
    obtain rfl := Option.some.inj h
    rfl
  | cons g text ih =>
    cases g with
    | half offset => cases h
    | char c =>
      unfold toChars? at h ih
      rw [List.mapM_cons] at h
      cases hrest : List.mapM Glyph.toChar? text with
      | none =>
        rw [hrest] at h
        cases h
      | some ds =>
        rw [hrest] at h
        obtain rfl := Option.some.inj h
        exact congrArg (Glyph.char c :: ·) (ih hrest)

/-- Without lone halves. -/
def IsWhole (text : Text) : Prop := ∃ cs, text = ofChars cs

theorem isWhole_ofChars (cs : List Char) : IsWhole (ofChars cs) := ⟨cs, rfl⟩

theorem IsWhole.append {a b : Text} : IsWhole a → IsWhole b → IsWhole (a ++ b) := by
  rintro ⟨cs, rfl⟩ ⟨ds, rfl⟩
  exact ⟨cs ++ ds, List.map_append.symm⟩

theorem IsWhole.cons {a : Text} (c : Char) : IsWhole a → IsWhole (.char c :: a) := by
  rintro ⟨cs, rfl⟩
  exact ⟨c :: cs, rfl⟩

theorem isWhole_renderText {text : Text} : IsWhole text → IsWhole (Json.renderText text) := by
  rintro ⟨cs, rfl⟩
  have hescaped : IsWhole ((ofChars cs).flatMap Json.escapeGlyph) := by
    induction cs with
    | nil => exact ⟨[], rfl⟩
    | cons c cs ih => exact (isWhole_ofChars (Json.escape c)).append ih
  exact (hescaped.append (isWhole_ofChars ['"'])).cons '"'

end Text

namespace Json

open Text

/-- The values without lone halves. -/
inductive Whole : Json → Prop
  | null : Whole .null
  | bool (b : Bool) : Whole (.bool b)
  | int (n : Int) : Whole (.int n)
  | real (x : Binary64) : Whole (.real x)
  | text {t : Text} (h : t.IsWhole) : Whole (.text t)
  | list {items : List Json} (h : ∀ v ∈ items, Whole v) : Whole (.list items)
  | object {fields : Fields} (hkeys : ∀ f ∈ fields, f.1.IsWhole)
      (h : ∀ f ∈ fields, Whole f.2) : Whole (.object fields)

theorem whole_put {fields : Fields} (h : (object fields).Whole) {key : Text} (hkey : key.IsWhole)
    {value : Json} (hvalue : value.Whole) : (object (fields.put key value)).Whole := by
  obtain _ | _ | _ | _ | _ | _ | ⟨hkeys, hvalues⟩ := h
  refine .object (fun f hf => ?_) fun f hf => ?_
  · rcases Fields.mem_put hf with rfl | hf
    · exact hkey
    · exact hkeys f hf
  · rcases Fields.mem_put hf with rfl | hf
    · exact hvalue
    · exact hvalues f hf

theorem whole_remove {fields : Fields} (h : (object fields).Whole) (key : Text) :
    (object (fields.remove key)).Whole := by
  obtain _ | _ | _ | _ | _ | _ | ⟨hkeys, hvalues⟩ := h
  have hsub := (Fields.sublist_remove key fields).subset
  exact .object (fun f hf => hkeys f (hsub hf)) fun f hf => hvalues f (hsub hf)

theorem isWhole_renderItems {items : List Json} (h : ∀ v ∈ items, (render v).IsWhole) :
    (renderItems items).IsWhole := by
  induction items with
  | nil => exact isWhole_ofChars []
  | cons v items ih =>
    obtain ⟨hv, hitems⟩ := List.forall_mem_cons.1 h
    cases items with
    | nil => exact hv
    | cons w items => exact hv.append ((isWhole_ofChars [',', ' ']).append (ih hitems))

theorem isWhole_renderField {f : Text × Json} (hkey : f.1.IsWhole) (h : (render f.2).IsWhole) :
    (renderField f).IsWhole := by
  obtain ⟨k, v⟩ := f
  exact (isWhole_renderText hkey).append ((isWhole_ofChars [':', ' ']).append h)

theorem isWhole_renderFields {fields : Fields} (h : ∀ f ∈ fields, (renderField f).IsWhole) :
    (renderFields fields).IsWhole := by
  induction fields with
  | nil => exact isWhole_ofChars []
  | cons f fields ih =>
    obtain ⟨hf, hfields⟩ := List.forall_mem_cons.1 h
    cases fields with
    | nil => exact hf
    | cons g fields => exact hf.append ((isWhole_ofChars [',', ' ']).append (ih hfields))

theorem isWhole_render {v : Json} (h : v.Whole) : (render v).IsWhole := by
  induction h with
  | null => exact isWhole_ofChars _
  | bool b => cases b <;> exact isWhole_ofChars _
  | int n => exact isWhole_ofChars _
  | real x => exact isWhole_ofChars _
  | text ht => exact isWhole_renderText ht
  | list _ ih => exact ((isWhole_renderItems ih).append (isWhole_ofChars [']'])).cons '['
  | object hkeys _ ih =>
    have hfields := isWhole_renderFields fun f hf => isWhole_renderField (hkeys f hf) (ih f hf)
    exact (hfields.append (isWhole_ofChars ['\x7d'])).cons '\x7b'

/-- A value without lone halves has bytes. -/
theorem exists_write? {v : Json} (h : v.Whole) : ∃ bytes, write? v = some bytes := by
  obtain ⟨cs, hcs⟩ := isWhole_render h
  refine ⟨(String.ofList cs).toUTF8, ?_⟩
  rw [write?, hcs, toChars?_ofChars]
  rfl

end Json

end DeskCalculator
