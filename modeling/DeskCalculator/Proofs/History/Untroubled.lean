import DeskCalculator.Proofs.History.Stepwise

/-!
# Operations without trouble

Where no step fails, the operations step by step come to the outcomes of the store: with the same
answers, levels and files, in whatever pieces a text is written.

* `Text.bytes?_append` : the bytes of a text are those of its pieces;
* `Stepwise.ends_writePieces`, `Stepwise.exists_ends_writePieces` : all pieces are written, or those
  before a lone half;
* `Stepwise.ends_save_of_ok`, `Stepwise.exists_ends_save_of_error` : saving is `File.write`;
* `Stepwise.comesTo_load`, `Stepwise.comesTo_add`, `Stepwise.comesTo_clear` : the operations.
-/

namespace DeskCalculator

theorem Text.bytes?_append (a b : Text) :
    Text.bytes? (a ++ b) = (Text.bytes? a).bind fun x => (Text.bytes? b).map (x ++ ·) := by
  unfold Text.bytes? Text.toChars?
  rw [List.mapM_append]
  cases List.mapM Glyph.toChar? a with
  | none => rfl
  | some as =>
    cases List.mapM Glyph.toChar? b with
    | none => rfl
    | some bs =>
      show some (String.ofList (as ++ bs)).toUTF8 = some _
      rw [String.ofList_append, String.toUTF8_eq_toByteArray, String.toByteArray_append]
      rfl

namespace Stepwise

open Scene Work

variable {α : Type} {c : Conditions} {file : File}

/-- From a bare scene the work has the end of an outcome. Failures may leave temporary files. -/
def ComesTo (x : Work α) (file : File) (outcome : Outcome α) : Prop :=
  ∃ left, x.Ends ⟨file, [], []⟩ (outcome.answer.mapError .fault)
    ⟨outcome.file, left, outcome.levels⟩

section Calm

variable (hc : ∀ step, c.trouble step = none)

include hc

theorem ends_readFound (there : File) (σ : Scene) : (readFound c there).Ends σ (.ok there.fields.1)
    { σ with levels := σ.levels ++ there.fields.2 } :=
  ends_tryCatch_of_ok
    ((ends_take_of_none (hc _) σ).bind ((ends_log _ σ).bind (ends_pure _ _)))

theorem ends_read (σ : Scene) : (read c).Ends σ (.ok σ.file.fields.1)
    { σ with levels := σ.levels ++ σ.file.fields.2 } := by
  refine (ends_take_of_none (hc _) σ).bind ((ends_found σ).bind ?_)
  obtain ⟨file, temporaries, levels⟩ := σ
  cases file with
  | missing =>
    rw [show levels ++ File.missing.fields.2 = levels from List.append_nil _]
    exact ends_pure _ _
  | blocked =>
    rw [show levels ++ File.blocked.fields.2 = levels from List.append_nil _]
    exact ends_pure _ _
  | present bytes => exact ends_readFound hc _ _
  | directory => exact ends_readFound hc _ _

theorem ends_entries (s : Store) (fields : Fields) (σ : Scene) :
    (entries s c fields).Ends σ (.ok (s.entries fields).1)
      { σ with levels := σ.levels ++ (s.entries fields).2 } :=
  (ends_take_of_none (hc _) σ).bind ((ends_log _ σ).bind (ends_pure _ _))

theorem ends_writePieces (file : File) (k : Nat) {pieces : List Text} {bytes : ByteArray}
    (h : Text.bytes? pieces.flatten = some bytes) (written : ByteArray) (older : List ByteArray)
    (levels : List Level) :
    (writePieces c k pieces).Ends ⟨file, written :: older, levels⟩ (.ok ())
      ⟨file, (written ++ bytes) :: older, levels⟩ := by
  induction pieces generalizing k bytes written with
  | nil =>
    obtain rfl : ByteArray.empty = bytes := Option.some.inj h
    rw [ByteArray.append_empty]
    exact ends_pure _ _
  | cons piece rest ih =>
    rw [List.flatten_cons, Text.bytes?_append] at h
    obtain ⟨first, hfirst, h⟩ := Option.bind_eq_some_iff.1 h
    obtain ⟨others, hothers, rfl⟩ := Option.map_eq_some_iff.1 h
    unfold writePieces
    refine (ends_take_of_none (hc _) _).bind ?_
    simp only [hfirst]
    rw [← ByteArray.append_assoc]
    exact (ends_append first written older levels).bind (ih (k + 1) hothers _)

/-- A lone half stops the writing where it stands. -/
theorem exists_ends_writePieces (file : File) (k : Nat) {pieces : List Text}
    (h : Text.bytes? pieces.flatten = none) (written : ByteArray) (older : List ByteArray)
    (levels : List Level) :
    ∃ left, (writePieces c k pieces).Ends ⟨file, written :: older, levels⟩
      (.error (.fault .loneHalf)) ⟨file, left :: older, levels⟩ := by
  induction pieces generalizing k written with
  | nil => cases h
  | cons piece rest ih =>
    rw [List.flatten_cons, Text.bytes?_append] at h
    unfold writePieces
    cases hpiece : Text.bytes? piece with
    | none => exact ⟨written, (ends_take_of_none (hc _) _).bind (ends_throw _ _)⟩
    | some first =>
      rw [hpiece] at h
      obtain ⟨left, hrest⟩ := ih (k + 1) (Option.map_eq_none_iff.1 h) (written ++ first)
      exact ⟨left, (ends_take_of_none (hc _) _).bind
        ((ends_append first written older levels).bind hrest)⟩

theorem ends_makeFolder (h : file ≠ .blocked) (temporaries : List ByteArray) (levels : List Level) :
    (makeFolder c).Ends ⟨file, temporaries, levels⟩ (.ok ()) ⟨file, temporaries, levels⟩ := by
  refine (ends_take_of_none (hc _) _).bind ((ends_found _).bind ?_)
  cases file with
  | blocked => exact absurd rfl h
  | missing => exact ends_pure _ _
  | present old => exact ends_pure _ _
  | directory => exact ends_pure _ _

/-- A text that has bytes is in a temporary file before anything happens to what is at the path. -/
theorem ends_moving (hfile : file ≠ .blocked) {text : Text} {bytes : ByteArray}
    (h : text.bytes? = some bytes) {levels : List Level} {answer : Except Raised Unit} {τ : Scene}
    (hrename : rename.Ends ⟨file, [bytes], levels⟩ answer τ) :
    Ends (do
      makeFolder c
      create c
      try writePieces c 0 (c.pieces text) finally take c .closing
      take c .replacing
      rename) ⟨file, [], levels⟩ answer τ := by
  rw [← c.flatten_pieces text] at h
  have hwrite := ends_writePieces hc file 0 h .empty [] levels
  rw [ByteArray.empty_append] at hwrite
  refine (ends_makeFolder hc hfile [] levels).bind ((ends_create_of_none (hc _) _).bind ?_)
  refine (ends_tryFinally hwrite (ends_take_of_none (hc _) _)).bind ?_
  exact (ends_take_of_none (hc _) _).bind hrename

theorem ends_save_of_ok {fields : Fields} {written : File} (h : file.write fields = .ok written)
    (levels : List Level) :
    (save c (Json.render (.object fields))).Ends ⟨file, [], levels⟩ (.ok ())
      ⟨written, [], levels⟩ := by
  obtain ⟨bytes, hbytes, rfl⟩ := File.exists_bytes_of_write h
  have hblocked : file ≠ .blocked := by
    rintro rfl
    cases h
  have hdirectory : file ≠ .directory := by
    rintro rfl
    unfold File.write at h
    rw [hbytes] at h
    cases h
  exact ends_tryCatch_of_ok (ends_moving hc hblocked hbytes (ends_rename hdirectory bytes [] levels))

theorem exists_ends_save_of_error {fields : Fields} {fault : WriteFault}
    (h : file.write fields = .error fault) (levels : List Level) :
    ∃ left, (save c (Json.render (.object fields))).Ends ⟨file, [], levels⟩
      (.error (.fault fault)) ⟨file, left, levels ++ Store.faultLevels fault⟩ := by
  have hrefuse : ∀ left, (refuse (.trouble .system)).Ends ⟨file, left, levels⟩
      (.error (.fault .refused)) ⟨file, left, levels ++ [.error]⟩ :=
    fun _ => (ends_log [.error] _).bind (ends_throw _ _)
  rcases File.cases_of_write_eq_error h with
    ⟨rfl, rfl⟩ | ⟨hblocked, hbytes, rfl⟩ | ⟨rfl, ⟨bytes, hbytes⟩, rfl⟩
  · refine ⟨[], ends_tryCatch (Ends.bind_of_error ?_) (hrefuse [])⟩
    exact (ends_take_of_none (hc _) _).bind ((ends_found _).bind (ends_throw _ _))
  · change Text.bytes? (Json.render (.object fields)) = none at hbytes
    rw [← c.flatten_pieces (Json.render (.object fields))] at hbytes
    obtain ⟨left, hwrite⟩ := exists_ends_writePieces hc file 0 hbytes .empty [] levels
    have hends := ends_tryFinally hwrite (ends_take_of_none (hc .closing) _)
    refine ⟨[left], ends_tryCatch ((ends_makeFolder hc hblocked [] levels).bind
      ((ends_create_of_none (hc _) _).bind hends.bind_of_error)) ?_⟩
    rw [show levels ++ Store.faultLevels .loneHalf = levels from List.append_nil _]
    exact ends_throw _ _
  · exact ⟨[bytes], ends_tryCatch
      (ends_moving hc (by decide) hbytes (ends_rename_directory bytes [] levels)) (hrefuse [bytes])⟩

theorem exists_ends_commit (file : File) (levels : List Level) (fields : Fields) (a : α) :
    let outcome := Store.commit file levels fields a
    ∃ left, Ends (do save c (Json.render (.object fields)); log [.info]; return a)
      ⟨file, [], levels⟩ (outcome.answer.mapError .fault)
      ⟨outcome.file, left, outcome.levels⟩ := by
  unfold Store.commit
  cases h : file.write fields with
  | ok written =>
    exact ⟨[], (ends_save_of_ok hc h levels).bind ((ends_log _ _).bind (ends_pure _ _))⟩
  | error fault =>
    obtain ⟨left, hends⟩ := exists_ends_save_of_error hc h levels
    exact ⟨left, hends.bind_of_error⟩

theorem comesTo_load (s : Store) (file : File) : ComesTo (load s c) file (s.load file) :=
  ⟨[], (ends_read hc _).bind (ends_entries hc s _ _)⟩

theorem comesTo_add (s : Store) (file : File) (e : Entry) :
    ComesTo (add s c e) file (s.add file e) := by
  obtain ⟨left, hends⟩ := exists_ends_commit hc file (file.fields.2 ++ (s.entries file.fields.1).2)
    (Fields.put s.field (.list ((upTo s.limit (e :: (s.entries file.fields.1).1)).map
      Entry.toJson)) file.fields.1) e
  exact ⟨left, (ends_take_of_none (hc _) _).bind
    ((ends_read hc _).bind ((ends_entries hc s _ _).bind hends))⟩

theorem comesTo_clear (s : Store) (file : File) : ComesTo (clear s c) file (s.clear file) := by
  obtain ⟨left, hends⟩ := exists_ends_commit hc file file.fields.2
    (Fields.remove s.field file.fields.1) (s.count file)
  exact ⟨left, (ends_read hc _).bind hends⟩

end Calm

end Stepwise

end DeskCalculator
