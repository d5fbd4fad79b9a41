import DeskCalculator.Proofs.History.Store

/-!
# What a store leaves alone

* `Fields.others` : the fields of an object under other keys; `Fields.others_put`,
  `Fields.others_remove` : putting and removing a key leave them as they are, in their order;
* `Store.Framed` : what a call may do to the object in the file; `Store.framed_of_call` : it does no
  more;
* `Store.leaves` : the file after a call, also after one that fails; `Store.stored_leaves_of_ne` : a
  store with another key loads the same before and after;
* `Store.runAll` : calls of several stores in a row on one file; `Store.stored_runAll` : what a store
  loads afterwards is made by the calls under its key alone (`Store.keptUnder`);
* `Store.call_clear_of_written` : clearing where there is nothing to clear keeps a written file.
-/

namespace DeskCalculator

namespace Fields

/-! ## Other keys -/

/-- The fields under other keys, in order. -/
def others (key : Text) (fields : Fields) : Fields := fields.filter fun f => f.1 ≠ key

@[simp] theorem others_nil (key : Text) : others key [] = [] := rfl

theorem others_cons_self (key : Text) (value : Json) (fields : Fields) :
    others key ((key, value) :: fields) = others key fields := by
  simp [others]

theorem others_cons_of_ne {key : Text} {f : Text × Json} (h : f.1 ≠ key) (fields : Fields) :
    others key (f :: fields) = f :: others key fields := by
  simp [others, h]

@[simp] theorem others_put (key : Text) (value : Json) (fields : Fields) :
    others key (put key value fields) = others key fields := by
  induction fields with
  | nil => exact others_cons_self key value []
  | cons f fields ih =>
    obtain ⟨k, v⟩ := f
    unfold put
    split
    · rename_i hkey
      subst hkey
      rw [others_cons_self, others_cons_self]
    · rename_i hkey
      rw [others_cons_of_ne hkey, others_cons_of_ne hkey, ih]

theorem others_others (key : Text) (fields : Fields) :
    others key (others key fields) = others key fields := by
  apply List.filter_eq_self.2
  intro f hf
  exact (List.mem_filter.1 hf).2

theorem others_of_not_mem {key : Text} {fields : Fields} (h : key ∉ fields.map Prod.fst) :
    others key fields = fields := by
  apply List.filter_eq_self.2
  intro f hf
  exact decide_eq_true fun hkey => h (hkey ▸ List.mem_map_of_mem hf)

/-- Removing a key that is there once leaves the others. -/
theorem remove_eq_others {key : Text} {fields : Fields} (h : (fields.map Prod.fst).Nodup) :
    remove key fields = others key fields := by
  induction fields with
  | nil => rfl
  | cons f fields ih =>
    obtain ⟨k, v⟩ := f
    rw [List.map_cons, List.nodup_cons] at h
    unfold remove
    split
    · rename_i hkey
      subst hkey
      rw [others_cons_self, others_of_not_mem h.1]
    · rename_i hkey
      rw [others_cons_of_ne hkey, ih h.2]

theorem remove_of_get?_eq_none {key : Text} {fields : Fields} (h : get? key fields = none) :
    remove key fields = fields := by
  induction fields with
  | nil => rfl
  | cons f fields ih =>
    obtain ⟨k, v⟩ := f
    unfold get? at h
    split at h
    · cases h
    · rename_i hkey
      rw [remove, if_neg hkey, ih h]

/-- The keys after a value was put: in their order, the new one last. -/
theorem map_fst_put (key : Text) (value : Json) (fields : Fields) :
    (put key value fields).map Prod.fst =
      if key ∈ fields.map Prod.fst then fields.map Prod.fst else fields.map Prod.fst ++ [key] := by
  split
  · rename_i hmem
    exact map_fst_put_of_mem hmem value
  · rename_i hmem
    rw [put_of_not_mem hmem, List.map_append]
    rfl

/-- What is found under other keys. -/
theorem get?_others_of_ne {key other : Text} (h : other ≠ key) (fields : Fields) :
    get? other (others key fields) = get? other fields := by
  induction fields with
  | nil => rfl
  | cons f fields ih =>
    obtain ⟨k, v⟩ := f
    by_cases hkey : k = key
    · subst hkey
      rw [others_cons_self, get?, if_neg (Ne.symm h), ih]
    · rw [others_cons_of_ne hkey, get?, get?, ih]

end Fields

namespace Store

variable {s t : Store}

theorem field_injective (h : s.field = t.field) : s.key = t.key :=
  (List.map_inj_right fun _ _ => Glyph.char.inj).1 h

/-! ## The object after a call -/

/-- What a call may do to the object in the file. All other keys keep their values and their order;
adding leaves the store's key at its place or puts it last, and clearing leaves the other keys
alone. -/
structure Framed (key : Text) (c : Call) (before after : Fields) : Prop where
  others_eq : Fields.others key after = Fields.others key before
  of_add : c.entry?.isSome = true → after.map Prod.fst =
    if key ∈ before.map Prod.fst then before.map Prod.fst else before.map Prod.fst ++ [key]
  of_clear : c.isClear = true → after = Fields.others key before

theorem framed_of_call {file file' : File} {c : Call} (h : s.call file c = .ok file') :
    Framed s.field c file.fields.1 file'.fields.1 := by
  cases c with
  | add expression result now =>
    rw [call_add] at h
    have hread := Fields.readable_put file.readable_fields s.field
      (readable_list_toJson (isTimely_of_mem_upTo_cons s file expression result now))
    rw [File.fields_of_write hread h]
    exact ⟨Fields.others_put _ _ _, fun _ => Fields.map_fst_put _ _ _, nofun⟩
  | clear =>
    rw [call_clear] at h
    have hkeys := file.readable_fields.keys_nodup
    rw [File.fields_of_write (Fields.readable_remove file.readable_fields s.field) h,
      Fields.remove_eq_others hkeys]
    exact ⟨Fields.others_others _ _, nofun, fun _ => rfl⟩
  | load =>
    obtain rfl := Except.ok.inj h
    exact ⟨rfl, nofun, nofun⟩

theorem Framed.get?_eq {key : Text} {c : Call} {before after : Fields}
    (h : Framed key c before after) {other : Text} (hne : other ≠ key) :
    Fields.get? other after = Fields.get? other before := by
  rw [← Fields.get?_others_of_ne hne, h.others_eq, Fields.get?_others_of_ne hne]

/-- A file that a call has written holds bytes that are read back. -/
theorem exists_decode?_of_call {file file' : File} {c : Call} (hload : c.isLoad = false)
    (h : s.call file c = .ok file') :
    ∃ bytes, file' = .present bytes ∧ File.decode? bytes = some file'.fields.1 ∧
      Json.write? (.object file'.fields.1) = some bytes := by
  have hwritten : ∀ {fields : Fields}, fields.Readable → file.write fields = .ok file' →
      ∃ bytes, file' = .present bytes ∧ File.decode? bytes = some file'.fields.1 ∧
        Json.write? (.object file'.fields.1) = some bytes := by
    intro fields hread hwrite
    rw [File.fields_of_write hread hwrite]
    obtain ⟨bytes, hbytes, rfl⟩ := File.exists_bytes_of_write hwrite
    exact ⟨bytes, rfl, File.decode?_of_write? hread hbytes, hbytes⟩
  cases c with
  | add expression result now =>
    rw [call_add] at h
    exact hwritten (Fields.readable_put file.readable_fields s.field
      (readable_list_toJson (isTimely_of_mem_upTo_cons s file expression result now))) h
  | clear =>
    rw [call_clear] at h
    exact hwritten (Fields.readable_remove file.readable_fields s.field) h
  | load => cases hload

/-! ## Stores with other keys -/

/-- What is loaded is the value of the store's key alone. -/
theorem stored_congr {file file' : File}
    (h : Fields.get? s.field file'.fields.1 = Fields.get? s.field file.fields.1) :
    s.stored file' = s.stored file := by
  unfold stored entries
  rw [h]

theorem stored_of_call_of_ne (hne : s.key ≠ t.key) {file file' : File} {c : Call}
    (h : t.call file c = .ok file') : s.stored file' = s.stored file :=
  stored_congr ((framed_of_call h).get?_eq fun heq => hne (field_injective heq))

/-- The file after a call, also after one that fails. -/
def leaves (s : Store) (file : File) : Call → File
  | .add expression result now => (s.add file ⟨expression, result, milliseconds now⟩).file
  | .clear => (s.clear file).file
  | .load => (s.load file).file

theorem map_commit_or {α : Type} (file : File) (levels : List Level) (fields : Fields)
    (answer : α) :
    let outcome := commit file levels fields answer
    (outcome.answer.map fun _ => outcome.file) = .ok outcome.file ∨
      (∃ fault, (outcome.answer.map fun _ => outcome.file) = .error fault) ∧
        outcome.file = file := by
  unfold commit
  cases file.write fields with
  | ok written => exact .inl rfl
  | error fault => exact .inr ⟨⟨fault, rfl⟩, rfl⟩

/-- A call either succeeds, or fails and leaves the file as it was. -/
theorem call_eq_leaves (s : Store) (file : File) (c : Call) :
    s.call file c = .ok (s.leaves file c) ∨
      (∃ fault, s.call file c = .error fault) ∧ s.leaves file c = file := by
  cases c with
  | add expression result now => exact map_commit_or file _ _ _
  | clear => exact map_commit_or file _ _ _
  | load => exact .inl rfl

theorem stored_leaves_of_ne (hne : s.key ≠ t.key) (file : File) (c : Call) :
    s.stored (t.leaves file c) = s.stored file := by
  rcases t.call_eq_leaves file c with h | ⟨-, h⟩
  · exact stored_of_call_of_ne hne h
  · rw [h]

/-- The file after calls of several stores in a row, and the calls that succeeded. -/
def runAll (file : File) : List (Store × Call) → File × List (Store × Call)
  | [] => (file, [])
  | (t, c) :: calls =>
    let rest := runAll (t.leaves file c) calls
    (rest.1, if (t.call file c).isOk then (t, c) :: rest.2 else rest.2)

/-- What is made of entries by those calls that are under a key. -/
def keptUnder (key : List Char) (calls : List (Store × Call)) (entries : List Entry) : List Entry :=
  (calls.filter fun c => c.1.key = key).foldl (fun es c => c.2.kept c.1.limit es) entries

theorem stored_of_key_eq {file : File} (h : t.key = s.key) : t.stored file = s.stored file := by
  have hfield : t.field = s.field := congrArg Text.ofChars h
  unfold stored entries
  rw [hfield]

theorem keptUnder_stored (s t : Store) {file file' : File} {c : Call}
    (h : t.call file c = .ok file') (calls : List (Store × Call)) :
    keptUnder s.key ((t, c) :: calls) (s.stored file) = keptUnder s.key calls (s.stored file') := by
  unfold keptUnder
  by_cases hkey : t.key = s.key
  · rw [List.filter_cons_of_pos (by simpa using hkey), List.foldl_cons, ← stored_of_key_eq hkey,
      ← stored_of_key_eq hkey, (of_call h).1]
  · rw [List.filter_cons_of_neg (by simpa using hkey),
      stored_of_call_of_ne (fun heq => hkey heq.symm) h]

/-- What a store loads after calls of several stores is made by the calls under its key alone. -/
theorem stored_runAll (s : Store) (file : File) (calls : List (Store × Call)) :
    s.stored (runAll file calls).1 = keptUnder s.key (runAll file calls).2 (s.stored file) := by
  induction calls generalizing file with
  | nil => rfl
  | cons x calls ih =>
    obtain ⟨t, c⟩ := x
    unfold runAll
    dsimp only
    rw [ih]
    rcases t.call_eq_leaves file c with h | ⟨⟨fault, hfault⟩, hleaves⟩
    · rw [h, Except.isOk, Except.toBool, if_pos rfl, keptUnder_stored s t h]
    · rw [hfault, Except.isOk, Except.toBool, if_neg Bool.false_ne_true, hleaves]

/-! ## Clearing again -/

/-- Clearing a written file where there is nothing to clear keeps it, byte for byte. -/
theorem call_clear_of_written {file file' : File} {c : Call} (hload : c.isLoad = false)
    (h : t.call file c = .ok file') (hnone : Fields.get? s.field file'.fields.1 = none) :
    s.call file' .clear = .ok file' := by
  obtain ⟨bytes, rfl, -, hbytes⟩ := exists_decode?_of_call hload h
  rw [call_clear, Fields.remove_of_get?_eq_none hnone]
  unfold File.write
  rw [hbytes]

/-! ## The frame -/

/-- **A store touches its own key only.** Where a readable file holds an object and a call succeeds,
the file is readable afterwards; the other keys hold what they held, in the same order; adding
leaves the store's key at its place or puts it last, and clearing removes it. So no call of a store
with another key, even one that fails, changes what is loaded, and after any calls of any stores a
store loads what the calls under its key that succeeded make of what it loaded before. Clearing
where there is nothing to clear keeps a file that a store has written, byte for byte. Files are read
and written to any depth of nesting. -/
theorem frame_of_calls (s : Store) :
    (∀ {bytes : ByteArray} {before : Fields} {file' : File} {c : Call},
      File.decode? bytes = some before → c.isLoad = false → s.call (.present bytes) c = .ok file' →
      ∃ bytes' after, file' = .present bytes' ∧ File.decode? bytes' = some after ∧
        Framed s.field c before after) ∧
    (∀ t : Store, s.key ≠ t.key → ∀ file c,
      (s.load (t.leaves file c)).answer = (s.load file).answer) ∧
    (∀ file calls, ∃ before, (s.load file).answer = .ok before ∧
      (s.load (runAll file calls).1).answer =
        .ok (keptUnder s.key (runAll file calls).2 before)) ∧
    (∀ {t : Store} {file file' : File} {c : Call}, c.isLoad = false → t.call file c = .ok file' →
      Fields.get? s.field file'.fields.1 = none → s.call file' .clear = .ok file') := by
  refine ⟨?_, fun t hne file c => ?_, fun file calls => ?_, call_clear_of_written⟩
  · intro bytes before file' c hdecode hload hcall
    have hframed := framed_of_call hcall
    have hbefore : (File.present bytes).fields.1 = before := by
      unfold File.fields
      simp only [hdecode]
    rw [hbefore] at hframed
    obtain ⟨bytes', hfile', hdecode', -⟩ := exists_decode?_of_call hload hcall
    exact ⟨bytes', file'.fields.1, hfile', hdecode', hframed⟩
  · rw [answer_load, answer_load, stored_leaves_of_ne hne]
  · exact ⟨s.stored file, answer_load s file, by rw [answer_load, stored_runAll]⟩

/-- An entry takes the place of another writer's value, between a list with a not-a-number and a
negative zero and a large integer. -/
theorem frame_of_calls_foreign :
    let s : Store := ⟨"history".toList, 2⟩
    let foreign : Fields := [(.ofString "log", .list [.real .nan, .real (.zero true)]),
      (.ofString "history", .bool true), (.ofString "count", .int (10 ^ 30))]
    ∃ bytes bytes' after, File.decode? bytes = some foreign ∧
      s.call (.present bytes) (.add (.ofString "1/3") .nan (.ofInt 2)) = .ok (.present bytes') ∧
      File.decode? bytes' = some after ∧ after.map Prod.fst = foreign.map Prod.fst ∧
      Fields.others s.field after = Fields.others s.field foreign := by
  intro s foreign
  have hread : foreign.Readable := by
    refine ⟨by decide, List.forall_mem_cons.2 ⟨.list ?_, List.forall_mem_cons.2 ⟨.bool _, ?_⟩⟩⟩
    · exact List.forall_mem_cons.2 ⟨.real _, List.forall_mem_singleton.2 (.real _)⟩
    · exact List.forall_mem_singleton.2 (.int (by decide))
  have hwhole : (Json.object foreign).Whole := by
    have hname : ∀ name : String, (Text.ofString name).IsWhole := fun name => ⟨name.toList, rfl⟩
    refine .object (List.forall_mem_cons.2 ⟨hname _, List.forall_mem_cons.2 ⟨hname _, ?_⟩⟩)
      (List.forall_mem_cons.2 ⟨.list ?_, List.forall_mem_cons.2 ⟨.bool _, ?_⟩⟩)
    · exact List.forall_mem_singleton.2 (hname _)
    · exact List.forall_mem_cons.2 ⟨.real _, List.forall_mem_singleton.2 (.real _)⟩
    · exact List.forall_mem_singleton.2 (.int _)
  obtain ⟨file, hwrite, hsound⟩ := File.exists_write File.isSound_missing hread hwhole
  obtain ⟨bytes, hbytes, rfl⟩ := File.exists_bytes_of_write hwrite
  have hdecode := File.decode?_of_write? hread hbytes
  obtain ⟨file', hcall, -⟩ :=
    s.exists_call hsound (Call.isWhole_add "1/3".toList .nan (.ofInt 2))
  obtain ⟨bytes', after, rfl, hdecode', hframed⟩ := (frame_of_calls s).1 hdecode rfl hcall
  refine ⟨bytes, bytes', after, hdecode, hcall, hdecode', ?_, hframed.others_eq⟩
  have hmem : s.field ∈ foreign.map Prod.fst := by decide
  rw [hframed.of_add rfl, if_pos hmem]

end Store

end DeskCalculator
