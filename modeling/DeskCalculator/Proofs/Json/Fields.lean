import DeskCalculator.Json.Basic

/-!
# Fields of objects

* `Fields.mem_put`, `Fields.put_of_not_mem`, `Fields.map_fst_put_of_mem` : the fields and the keys of
  an object after a value was put;
* `Fields.sublist_remove`, `Fields.get?_remove_self` : what is left after a key was removed;
* `Fields.mem_of_get?` : what is found under a key is the value of a field.
-/

namespace DeskCalculator.Fields

theorem mem_put {key : Text} {value : Json} {fields : Fields} {f : Text × Json}
    (hf : f ∈ put key value fields) : f = (key, value) ∨ f ∈ fields := by
  induction fields with
  | nil => exact .inl (List.mem_singleton.1 hf)
  | cons g rest ih =>
    unfold put at hf
    split at hf
    · rcases List.mem_cons.1 hf with rfl | hf
      · exact .inl rfl
      · exact .inr (List.mem_cons_of_mem g hf)
    · rcases List.mem_cons.1 hf with rfl | hf
      · exact .inr List.mem_cons_self
      · exact (ih hf).imp_right (List.mem_cons_of_mem g)

/-- A fresh key goes to the end. -/
theorem put_of_not_mem {key : Text} {fields : Fields} (h : key ∉ fields.map Prod.fst)
    (value : Json) : put key value fields = fields ++ [(key, value)] := by
  induction fields with
  | nil => rfl
  | cons g rest ih =>
    rw [List.map_cons, List.mem_cons, not_or] at h
    unfold put
    rw [if_neg (Ne.symm h.1), ih h.2, List.cons_append]

theorem map_fst_put_of_mem {key : Text} {fields : Fields} (h : key ∈ fields.map Prod.fst)
    (value : Json) : (put key value fields).map Prod.fst = fields.map Prod.fst := by
  induction fields with
  | nil => cases h
  | cons g rest ih =>
    unfold put
    by_cases hkey : g.1 = key
    · rw [if_pos hkey, List.map_cons, List.map_cons, hkey]
    · rw [List.map_cons, List.mem_cons] at h
      rw [if_neg hkey, List.map_cons, List.map_cons, ih (h.resolve_left (Ne.symm hkey))]

theorem sublist_remove (key : Text) (fields : Fields) : (remove key fields).Sublist fields := by
  induction fields with
  | nil => exact .slnil
  | cons g rest ih =>
    unfold remove
    split
    · exact List.sublist_cons_self g rest
    · exact ih.cons_cons g

theorem mem_of_get? {key : Text} {value : Json} {fields : Fields}
    (h : get? key fields = some value) : (key, value) ∈ fields := by
  induction fields with
  | nil => cases h
  | cons g rest ih =>
    unfold get? at h
    split at h
    · rename_i hkey
      obtain rfl := Option.some.inj h
      obtain rfl := hkey
      exact List.mem_cons_self
    · exact List.mem_cons_of_mem g (ih h)

theorem get?_eq_none_of_not_mem {key : Text} {fields : Fields} (h : key ∉ fields.map Prod.fst) :
    get? key fields = none := by
  cases hget : get? key fields with
  | none => rfl
  | some value => exact absurd (List.mem_map_of_mem (mem_of_get? hget)) h

/-- A key that is there once is not there after it was removed. -/
theorem get?_remove_self {key : Text} {fields : Fields} (h : (fields.map Prod.fst).Nodup) :
    get? key (remove key fields) = none := by
  induction fields with
  | nil => rfl
  | cons g rest ih =>
    rw [List.map_cons, List.nodup_cons] at h
    by_cases hkey : g.1 = key
    · rw [remove, if_pos hkey]
      exact get?_eq_none_of_not_mem (hkey ▸ h.1)
    · rw [remove, if_neg hkey, get?, if_neg hkey]
      exact ih h.2

end DeskCalculator.Fields
