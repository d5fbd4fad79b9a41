import DeskCalculator.History.File
import DeskCalculator.Proofs.Json.RoundTrip
import DeskCalculator.Proofs.Json.Whole

/-!
# The file read back

* `File.readable_fields` : the object that a file holds is one that can be read again;
* `File.fields_of_write` : what is written of such an object is the object when the file is read;
* `File.cases_of_write_eq_error` : why an object is not written;
* `File.IsSound` : a file without lone halves, where there can be one; `File.exists_write` : there
  an object without lone halves is written, and the file stays sound.
-/

namespace DeskCalculator

theorem fromUTF8?_toUTF8 (s : String) : String.fromUTF8? s.toUTF8 = some s := by
  unfold String.fromUTF8?
  rw [String.toUTF8_eq_toByteArray, dif_pos s.isValidUTF8]
  rfl

namespace File

theorem decode?_toUTF8_of_read {cs : List Char} {fields : Fields}
    (h : Json.read cs = .ok (.object fields)) :
    decode? (String.ofList cs).toUTF8 = some fields := by
  unfold decode?
  simp only [fromUTF8?_toUTF8, String.toList_ofList, h]

theorem readable_of_decode? {bytes : ByteArray} {fields : Fields}
    (h : decode? bytes = some fields) : fields.Readable := by
  unfold decode? at h
  split at h
  · cases h
  · split at h
    · rename_i hread
      obtain rfl := Option.some.inj h
      exact Fields.readable_iff.1 (Json.readable_of_read hread)
    · cases h

/-- What a file holds can be read again. -/
theorem readable_fields (file : File) : file.fields.1.Readable := by
  unfold fields
  split
  · exact Fields.readable_nil
  · exact Fields.readable_nil
  · exact Fields.readable_nil
  · split
    · rename_i hdecode
      exact readable_of_decode? hdecode
    · exact Fields.readable_nil

theorem exists_bytes_of_write {file written : File} {fields : Fields}
    (h : file.write fields = .ok written) :
    ∃ bytes, Json.write? (.object fields) = some bytes ∧ written = .present bytes := by
  unfold write at h
  split at h
  · cases h
  · cases h
  · cases h
  · rename_i bytes _ _ hbytes
    exact ⟨bytes, hbytes, (Except.ok.inj h).symm⟩

theorem decode?_of_write? {fields : Fields} (hfields : fields.Readable) {bytes : ByteArray}
    (h : Json.write? (.object fields) = some bytes) : decode? bytes = some fields := by
  obtain ⟨cs, hcs, rfl⟩ := Option.map_eq_some_iff.1 h
  exact decode?_toUTF8_of_read
    (Json.read_render (Fields.readable_iff.2 hfields) (Text.toChars?_eq_some hcs))

/-- What was written is read back, and nothing is logged. -/
theorem fields_of_write {file written : File} {fields : Fields} (hfields : fields.Readable)
    (h : file.write fields = .ok written) : written.fields = (fields, []) := by
  obtain ⟨bytes, hbytes, rfl⟩ := exists_bytes_of_write h
  unfold File.fields
  simp only [decode?_of_write? hfields hbytes]

/-! ## Writing -/

/-- Why an object is not written. -/
theorem cases_of_write_eq_error {file : File} {fields : Fields} {fault : WriteFault}
    (h : file.write fields = .error fault) :
    (file = .blocked ∧ fault = .refused) ∨
      (file ≠ .blocked ∧ Json.write? (.object fields) = none ∧ fault = .loneHalf) ∨
      (file = .directory ∧ (∃ bytes, Json.write? (.object fields) = some bytes) ∧
        fault = .refused) := by
  unfold write at h
  split at h
  · exact .inl ⟨rfl, (Except.error.inj h).symm⟩
  · rename_i hblocked hbytes
    exact .inr (.inl ⟨hblocked, hbytes, (Except.error.inj h).symm⟩)
  · rename_i bytes hbytes
    exact .inr (.inr ⟨rfl, ⟨bytes, hbytes⟩, (Except.error.inj h).symm⟩)
  · cases h

/-- There is a file without lone halves, or there can be one. -/
structure IsSound (file : File) : Prop where
  not_blocked : file ≠ .blocked
  not_directory : file ≠ .directory
  whole : (Json.object file.fields.1).Whole

theorem isSound_missing : IsSound .missing :=
  ⟨nofun, nofun, .object (List.forall_mem_nil _) (List.forall_mem_nil _)⟩

/-- On a sound file an object without lone halves is written, and the file stays sound. -/
theorem exists_write {file : File} (h : file.IsSound) {fields : Fields} (hread : fields.Readable)
    (hwhole : (Json.object fields).Whole) :
    ∃ written, file.write fields = .ok written ∧ written.IsSound := by
  obtain ⟨bytes, hbytes⟩ := Json.exists_write? hwhole
  have hwrite : file.write fields = .ok (.present bytes) := by
    unfold write
    rw [hbytes]
    cases file with
    | missing => rfl
    | present old => rfl
    | blocked => exact absurd rfl h.not_blocked
    | directory => exact absurd rfl h.not_directory
  refine ⟨.present bytes, hwrite, nofun, nofun, ?_⟩
  rw [fields_of_write hread hwrite]
  exact hwhole

end File

end DeskCalculator
