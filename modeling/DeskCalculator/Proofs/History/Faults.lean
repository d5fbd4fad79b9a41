import DeskCalculator.Proofs.History.Frame
import DeskCalculator.Proofs.Json.Written

/-!
# When a store cannot write

* `File.IsBarred` : where there can be no file; `Store.OthersWhole` : a file in which the fields
  under other keys have no lone halves; `Store.WritesWhole` : the entries that a call keeps have
  none either;
* `Store.exists_write_of_call` : these are the calls whose object has none;
* `Store.call_refused_iff`, `Store.call_loneHalf_iff` : so a call is refused if there can be no
  file, and it meets with a lone half if one is under another key or in an entry that it keeps;
* `Store.call_cases_of_isWhole` : only one of the two can be, if what is added has no lone halves;
* `Store.isSound_of_call`, `Store.leaves_eq_or_isSound` : what a call has written has no lone
  halves.
-/

namespace DeskCalculator

/-! ## The fields under other keys -/

theorem Fields.get?_of_mem {fields : Fields} (h : (fields.map Prod.fst).Nodup) {f : Text × Json}
    (hf : f ∈ fields) : get? f.1 fields = some f.2 := by
  induction fields with
  | nil => cases hf
  | cons g rest ih =>
    rw [List.map_cons, List.nodup_cons] at h
    unfold get?
    rcases List.mem_cons.1 hf with rfl | hf
    · exact if_pos rfl
    · have hne : g.1 ≠ f.1 := fun heq => h.1 (heq ▸ List.mem_map_of_mem hf)
      rw [if_neg hne, ih h.2 hf]

/-- An object is whole if its fields under other keys are, and the value of the key. -/
theorem Json.whole_object_iff_others {key : Text} (hkey : key.IsWhole) {fields : Fields}
    (hnodup : (fields.map Prod.fst).Nodup) :
    (Json.object fields).Whole ↔ (Json.object (Fields.others key fields)).Whole ∧
      ∀ value, Fields.get? key fields = some value → value.Whole := by
  rw [whole_object_iff, whole_object_iff]
  constructor
  · intro h
    refine ⟨fun f hf => h f (List.mem_of_mem_filter hf), fun value hvalue => ?_⟩
    exact (h _ (Fields.mem_of_get? hvalue)).2
  · rintro ⟨hothers, hvalue⟩ f hf
    by_cases hfield : f.1 = key
    · exact ⟨hfield ▸ hkey, hvalue f.2 (hfield ▸ Fields.get?_of_mem hnodup hf)⟩
    · exact hothers f (List.mem_filter.2 ⟨hf, decide_eq_true hfield⟩)

/-! ## Writing -/

/-- There can be no file. -/
def File.IsBarred (file : File) : Prop := file = .blocked ∨ file = .directory

theorem File.IsBarred.fields_eq {file : File} (h : file.IsBarred) : file.fields.1 = [] := by
  rcases h with rfl | rfl <;> rfl

theorem File.not_isBarred_of_write {file written : File} {fields : Fields}
    (h : file.write fields = .ok written) : ¬file.IsBarred := by
  rintro (rfl | rfl)
  · cases h
  · unfold write at h
    split at h <;> cases h

namespace Store

/-! ## Calls -/

/-- The fields under other keys have no lone halves. -/
def OthersWhole (s : Store) (file : File) : Prop :=
  (Json.object (Fields.others s.field file.fields.1)).Whole

/-- What a call writes has no lone halves: neither the fields under other keys, nor the entries that
are kept. -/
def WritesWhole (s : Store) (file : File) (c : Call) : Prop :=
  s.OthersWhole file ∧ ∀ e ∈ c.kept s.limit (s.stored file), e.IsWhole

variable {s : Store} {file : File} {c : Call}

/-- Where there can be no file, a call writes nothing but what it adds. -/
theorem writesWhole_of_isBarred (s : Store) (h : file.IsBarred)
    (hc : c.IsWhole) : s.WritesWhole file c := by
  have hstored : s.stored file = [] := by
    unfold stored
    rw [h.fields_eq]
    rfl
  unfold WritesWhole OthersWhole
  rw [h.fields_eq, hstored]
  refine ⟨.object (List.forall_mem_nil _) (List.forall_mem_nil _), fun e he => ?_⟩
  exact (Call.of_mem_kept he).elim nofun (hc e)

/-- What the store writes is whole, if what it leaves alone and what it keeps are. -/
theorem exists_write_of_call (s : Store) (file : File) (hload : c.isLoad = false) :
    ∃ fields, s.call file c = file.write fields ∧
      ((Json.object fields).Whole ↔ s.WritesWhole file c) := by
  have hkey : s.field.IsWhole := ⟨s.key, rfl⟩
  cases c with
  | add expression result now =>
    have htimely := isTimely_of_mem_upTo_cons s file expression result now
    have hread := Fields.readable_put file.readable_fields s.field (readable_list_toJson htimely)
    refine ⟨_, call_add s file expression result now, ?_⟩
    rw [Json.whole_object_iff_others hkey hread.keys_nodup, Fields.others_put,
      Fields.get?_put_self]
    refine and_congr_right fun _ => ?_
    rw [← whole_list_toJson_iff]
    exact ⟨fun h => h _ rfl, fun h value hvalue => Option.some.inj hvalue ▸ h⟩
  | clear =>
    refine ⟨_, call_clear s file, ?_⟩
    rw [Fields.remove_eq_others file.readable_fields.keys_nodup]
    exact (and_iff_left (List.forall_mem_nil _)).symm
  | load => cases hload

/-- A file that a call has written has no lone halves. -/
theorem isSound_of_call (hload : c.isLoad = false) {file' : File}
    (h : s.call file c = .ok file') : file'.IsSound := by
  obtain ⟨bytes, rfl, -, hbytes⟩ := exists_decode?_of_call hload h
  exact ⟨nofun, nofun, Json.exists_write?_iff.1 ⟨bytes, hbytes⟩⟩

/-- A call is refused, or it meets with a lone half, or it succeeds. -/
theorem call_cases (s : Store) (file : File) (hload : c.isLoad = false) :
    ((file = .blocked ∨ file = .directory ∧ s.WritesWhole file c) ∧
      s.call file c = .error .refused) ∨
    (file ≠ .blocked ∧ ¬s.WritesWhole file c ∧ s.call file c = .error .loneHalf) ∨
    (¬file.IsBarred ∧ s.WritesWhole file c ∧ ∃ file', s.call file c = .ok file') := by
  obtain ⟨fields, hcall, hwhole⟩ := exists_write_of_call s file hload
  rw [hcall]
  cases hwrite : file.write fields with
  | ok written =>
    obtain ⟨bytes, hbytes, -⟩ := File.exists_bytes_of_write hwrite
    exact .inr (.inr ⟨File.not_isBarred_of_write hwrite,
      hwhole.1 (Json.exists_write?_iff.1 ⟨bytes, hbytes⟩), written, rfl⟩)
  | error fault =>
    rcases File.cases_of_write_eq_error hwrite with
      ⟨rfl, rfl⟩ | ⟨hblocked, hnone, rfl⟩ | ⟨rfl, hbytes, rfl⟩
    · exact .inl ⟨.inl rfl, rfl⟩
    · refine .inr (.inl ⟨hblocked, fun h => ?_, rfl⟩)
      obtain ⟨bytes, hbytes⟩ := Json.exists_write? (hwhole.2 h)
      rw [hnone] at hbytes
      cases hbytes
    · exact .inl ⟨.inr ⟨rfl, hwhole.1 (Json.exists_write?_iff.1 hbytes)⟩, rfl⟩

/-- Where nothing is added that has a lone half, a call is refused wherever there can be no file. -/
theorem call_cases_of_isWhole (s : Store) (file : File) (hload : c.isLoad = false)
    (hc : c.IsWhole) :
    (file.IsBarred ∧ s.call file c = .error .refused) ∨
    (¬file.IsBarred ∧ ¬s.WritesWhole file c ∧ s.call file c = .error .loneHalf) ∨
    (¬file.IsBarred ∧ s.WritesWhole file c ∧ ∃ file', s.call file c = .ok file') := by
  rcases s.call_cases file hload with ⟨hbarred, hcall⟩ | ⟨-, hwhole, hcall⟩ | hok
  · exact .inl ⟨hbarred.imp_right And.left, hcall⟩
  · exact .inr (.inl ⟨fun h => hwhole (s.writesWhole_of_isBarred h hc), hwhole, hcall⟩)
  · exact .inr (.inr hok)

theorem call_refused_iff (s : Store) (file : File) (hload : c.isLoad = false) :
    s.call file c = .error .refused ↔
      file = .blocked ∨ file = .directory ∧ s.WritesWhole file c := by
  rcases s.call_cases file hload with
    ⟨hbarred, hcall⟩ | ⟨hblocked, hwhole, hcall⟩ | ⟨hbarred, -, file', hcall⟩
  · exact iff_of_true hcall hbarred
  · refine iff_of_false (hcall ▸ nofun) ?_
    exact not_or_intro hblocked fun h => hwhole h.2
  · refine iff_of_false (hcall ▸ nofun) ?_
    exact fun h => hbarred (h.imp_right And.left)

theorem call_loneHalf_iff (s : Store) (file : File) (hload : c.isLoad = false) :
    s.call file c = .error .loneHalf ↔ file ≠ .blocked ∧ ¬s.WritesWhole file c := by
  rcases s.call_cases file hload with
    ⟨hbarred, hcall⟩ | ⟨hblocked, hwhole, hcall⟩ | ⟨-, hwhole, file', hcall⟩
  · refine iff_of_false (hcall ▸ nofun) fun h => ?_
    exact hbarred.elim h.1 fun hdirectory => h.2 hdirectory.2
  · exact iff_of_true hcall ⟨hblocked, hwhole⟩
  · exact iff_of_false (hcall ▸ nofun) fun h => h.2 hwhole

/-- A call leaves the file as it was, or one without lone halves. -/
theorem leaves_eq_or_isSound (s : Store) (file : File) (c : Call) :
    s.leaves file c = file ∨ (s.leaves file c).IsSound := by
  rcases s.call_eq_leaves file c with hok | ⟨-, hleaves⟩
  · cases hload : c.isLoad with
    | true =>
      cases c with
      | load => exact .inl rfl
      | add => cases hload
      | clear => cases hload
    | false => exact .inr (isSound_of_call hload hok)
  · exact .inl hleaves

end Store

end DeskCalculator
