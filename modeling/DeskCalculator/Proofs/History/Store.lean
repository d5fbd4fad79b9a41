import DeskCalculator.History.Store
import DeskCalculator.Proofs.History.Entry
import DeskCalculator.Proofs.History.File
import DeskCalculator.Proofs.Runs
import Mathlib.Data.List.Induction

/-!
# The store is a bounded list

* `Store.Call` : a call of an operation; `Store.call` : the file after it; `Store.run` : after calls
  in a row that all succeed;
* `Store.Call.kept` : what a call does to the entries; `Store.of_call`, `Store.stored_run` : it is
  what loading shows before and after;
* `Store.Call.foldl_kept` : dropping the oldest at every call comes to dropping them at the end;
* `Store.exists_run` : where there can be a file, calls succeed as long as neither the file nor the
  entries that are added have lone halves;
* `Store.load_of_run` : the store holds the entries added since the last clear in front of those it
  started with, up to its limit.
-/

namespace DeskCalculator.Store

/-! ## What is stored -/

/-- The entries that loading the file returns. -/
def stored (s : Store) (file : File) : List Entry := (s.entries file.fields.1).1

/-- The items that clearing the file would drop. -/
def count (s : Store) (file : File) : Nat :=
  match Fields.get? s.field file.fields.1 with
  | some (.list items) => items.length
  | _ => 0

variable {s : Store}

theorem answer_load (s : Store) (file : File) : (s.load file).answer = .ok (s.stored file) := rfl

theorem entriesOf_map_toJson (es : List Entry) : entriesOf (es.map Entry.toJson) = (es, []) := by
  induction es with
  | nil => rfl
  | cons e es ih =>
    rw [List.map_cons, entriesOf, ih]
    dsimp only
    rw [Entry.ofJson?_toJson]

theorem exists_of_mem_entriesOf {items : List Json} {e : Entry} (he : e ∈ (entriesOf items).1) :
    ∃ v ∈ items, Entry.ofJson? v = some e := by
  induction items with
  | nil => cases he
  | cons v items ih =>
    have hrest : e ∈ (entriesOf items).1 → ∃ w ∈ v :: items, Entry.ofJson? w = some e := fun he =>
      have ⟨w, hw, hentry⟩ := ih he
      ⟨w, List.mem_cons_of_mem v hw, hentry⟩
    unfold entriesOf at he
    dsimp only at he
    split at he
    · rename_i first hfirst
      rcases List.mem_cons.1 he with rfl | he
      · exact ⟨v, List.mem_cons_self, hfirst⟩
      · exact hrest he
    · exact hrest he

/-- An entry that is loaded is what an item of the list stands for. -/
theorem exists_of_mem_stored {file : File} {e : Entry} (he : e ∈ s.stored file) :
    ∃ items v, Fields.get? s.field file.fields.1 = some (.list items) ∧ v ∈ items ∧
      Entry.ofJson? v = some e := by
  unfold stored entries at he
  split at he
  · cases he
  · rename_i items hget
    obtain ⟨v, hv, hentry⟩ := exists_of_mem_entriesOf he
    exact ⟨items, v, hget, hv, hentry⟩
  · cases he

theorem isTimely_of_mem_stored {file : File} : ∀ e ∈ s.stored file, e.IsTimely := by
  intro e he
  obtain ⟨items, v, hget, hv, hentry⟩ := exists_of_mem_stored he
  have hitems := Fields.readable_of_get? file.readable_fields hget
  cases hitems with
  | list h => exact Entry.isTimely_of_ofJson? (h v hv) hentry

theorem readable_list_toJson {es : List Entry} (hes : ∀ e ∈ es, e.IsTimely) :
    (Json.list (es.map Entry.toJson)).Readable := by
  refine .list fun v hv => ?_
  obtain ⟨e, he, rfl⟩ := List.mem_map.1 hv
  exact Entry.readable_toJson (hes e he)

theorem whole_list_toJson_iff {es : List Entry} :
    (Json.list (es.map Entry.toJson)).Whole ↔ ∀ e ∈ es, e.IsWhole := by
  rw [Json.whole_list_iff, List.forall_mem_map]
  exact forall₂_congr fun e _ => Entry.whole_toJson_iff

theorem isWhole_of_mem_stored {file : File} (h : (Json.object file.fields.1).Whole) :
    ∀ e ∈ s.stored file, e.IsWhole := by
  intro e he
  obtain ⟨items, v, hget, hv, hentry⟩ := exists_of_mem_stored he
  have hitems := (Json.whole_object_iff.1 h _ (Fields.mem_of_get? hget)).2
  exact Entry.isWhole_of_ofJson? (Json.whole_list_iff.1 hitems v hv) hentry

/-- Entries that were written under the store's key are loaded as they are. -/
theorem stored_of_write_put {file written : File} {es : List Entry} (hes : ∀ e ∈ es, e.IsTimely)
    (h : file.write (Fields.put s.field (.list (es.map Entry.toJson)) file.fields.1) = .ok written) :
    s.stored written = es ∧ s.count written = es.length := by
  have hread := Fields.readable_put file.readable_fields s.field (readable_list_toJson hes)
  have hfields := File.fields_of_write hread h
  unfold stored entries count
  rw [hfields, Fields.get?_put_self]
  exact ⟨congrArg Prod.fst (entriesOf_map_toJson es), List.length_map _⟩

theorem stored_of_write_remove {file written : File}
    (h : file.write (Fields.remove s.field file.fields.1) = .ok written) :
    s.stored written = [] ∧ s.count written = 0 := by
  have hfields := File.fields_of_write (Fields.readable_remove file.readable_fields s.field) h
  unfold stored entries count
  rw [hfields, Fields.get?_remove_self file.readable_fields.keys_nodup]
  exact ⟨rfl, rfl⟩

/-! ## Calls -/

/-- A call of an operation; adding reads the clock. -/
inductive Call
  | add (expression : Text) (result now : Binary64)
  | clear
  | load
  deriving DecidableEq

/-- The file after a call, if the call succeeds. -/
def call (s : Store) (file : File) : Call → Except WriteFault File
  | .add expression result now =>
    let outcome := s.add file ⟨expression, result, milliseconds now⟩
    outcome.answer.map fun _ => outcome.file
  | .clear =>
    let outcome := s.clear file
    outcome.answer.map fun _ => outcome.file
  | .load =>
    let outcome := s.load file
    outcome.answer.map fun _ => outcome.file

/-- The file after calls in a row, if all succeed. -/
def run (s : Store) (file : File) (calls : List Call) : Except WriteFault File :=
  calls.foldlM s.call file

theorem map_commit {α : Type} (file : File) (levels : List Level) (fields : Fields) (answer : α) :
    ((commit file levels fields answer).answer.map fun _ =>
      (commit file levels fields answer).file) = file.write fields := by
  unfold commit
  cases file.write fields <;> rfl

theorem call_add (s : Store) (file : File) (expression : Text) (result now : Binary64) :
    s.call file (.add expression result now) = file.write (Fields.put s.field
      (.list ((upTo s.limit (⟨expression, result, milliseconds now⟩ :: s.stored file)).map
        Entry.toJson)) file.fields.1) :=
  map_commit file _ _ _

theorem call_clear (s : Store) (file : File) :
    s.call file .clear = file.write (Fields.remove s.field file.fields.1) :=
  map_commit file _ _ _

theorem isTimely_of_mem_upTo_cons (s : Store) (file : File) (expression : Text)
    (result now : Binary64) :
    ∀ e ∈ upTo s.limit (⟨expression, result, milliseconds now⟩ :: s.stored file), e.IsTimely := by
  intro e he
  rcases List.mem_cons.1 (mem_of_mem_upTo he) with rfl | he
  · exact readable_int_milliseconds now
  · exact isTimely_of_mem_stored e he

/-! ## Refinement -/

namespace Call

/-- The entry that a call adds. -/
def entry? : Call → Option Entry
  | add expression result now => some ⟨expression, result, milliseconds now⟩
  | _ => none

def isClear : Call → Bool
  | clear => true
  | _ => false

def isLoad : Call → Bool
  | load => true
  | _ => false

/-- What the call adds has no lone halves. -/
def IsWhole (c : Call) : Prop := ∀ e ∈ c.entry?, e.IsWhole

theorem isWhole_add (expression : List Char) (result now : Binary64) :
    IsWhole (add (.ofChars expression) result now) := by
  rintro e ⟨⟩
  exact Entry.isWhole_ofChars _ _ _

theorem isWhole_clear : IsWhole clear := nofun

theorem isWhole_load : IsWhole load := nofun

/-- What a call does to a list of entries of which so many are kept. -/
def kept (limit : Int) (es : List Entry) : Call → List Entry
  | add expression result now => upTo limit (⟨expression, result, milliseconds now⟩ :: es)
  | clear => []
  | load => es

/-- The entries added since the last clear, newest first. -/
def added (calls : List Call) : List Entry :=
  (calls.reverse.takeWhile (!·.isClear)).filterMap entry?

end Call

/-- What a call does: where the file changes, all its items are entries. -/
theorem of_call {file file' : File} {c : Call} (h : s.call file c = .ok file') :
    s.stored file' = c.kept s.limit (s.stored file) ∧
      (file' = file ∨ s.count file' = (s.stored file').length) := by
  cases c with
  | add expression result now =>
    rw [call_add] at h
    obtain ⟨hstored, hcount⟩ :=
      stored_of_write_put (isTimely_of_mem_upTo_cons s file expression result now) h
    exact ⟨hstored, .inr (by rw [hcount, hstored])⟩
  | clear =>
    rw [call_clear] at h
    obtain ⟨hstored, hcount⟩ := stored_of_write_remove h
    exact ⟨hstored, .inr (by rw [hcount, hstored]; rfl)⟩
  | load =>
    obtain rfl := Except.ok.inj h
    exact ⟨rfl, .inl rfl⟩

theorem stored_run {file file' : File} {calls : List Call} (h : s.run file calls = .ok file') :
    s.stored file' = calls.foldl (Call.kept s.limit) (s.stored file) := by
  induction calls generalizing file with
  | nil =>
    obtain rfl := Except.ok.inj h
    rfl
  | cons c calls ih =>
    obtain ⟨mid, hcall, hrest⟩ := foldlM_cons_eq_ok.1 h
    rw [ih hrest, (of_call hcall).1, List.foldl_cons]

/-- An entry that is kept was there, or the call has added it. -/
theorem Call.of_mem_kept {limit : Int} {c : Call} {es : List Entry} {e : Entry}
    (h : e ∈ c.kept limit es) : e ∈ es ∨ c.entry? = some e := by
  cases c with
  | add expression result now =>
    rcases List.mem_cons.1 (mem_of_mem_upTo h) with rfl | hmem
    · exact .inr rfl
    · exact .inl hmem
  | clear => cases h
  | load => exact .inl h

theorem Call.of_mem_foldl_kept {limit : Int} {calls : List Call} {es : List Entry} {e : Entry}
    (h : e ∈ calls.foldl (kept limit) es) : e ∈ es ∨ ∃ c ∈ calls, c.entry? = some e := by
  induction calls generalizing es with
  | nil => exact .inl h
  | cons c calls ih =>
    rcases ih h with hkept | ⟨d, hd, he⟩
    · exact (of_mem_kept hkept).imp_right fun he => ⟨c, List.mem_cons_self, he⟩
    · exact .inr ⟨d, List.mem_cons_of_mem c hd, he⟩

/-- Where all items are entries, they stay so. -/
theorem count_run {file file' : File} {calls : List Call} (h : s.run file calls = .ok file')
    (hfile : s.count file = (s.stored file).length) : s.count file' = (s.stored file').length := by
  induction calls generalizing file with
  | nil =>
    obtain rfl := Except.ok.inj h
    exact hfile
  | cons c calls ih =>
    obtain ⟨mid, hcall, hrest⟩ := foldlM_cons_eq_ok.1 h
    refine ih hrest ?_
    rcases (of_call hcall).2 with rfl | hcount
    · exact hfile
    · exact hcount

/-! ## Cutting off at the end -/

theorem take_cons_take {α : Type} (a : α) (l : List α) (n : Nat) :
    (a :: l.take n).take n = (a :: l).take n := by
  cases n with
  | zero => rfl
  | succ n =>
    rw [List.take_succ_cons, List.take_succ_cons, List.take_take, Nat.min_eq_left (Nat.le_succ n)]

namespace Call

/-- The entries added since the last clear, newest first, and the initial ones if there was none. -/
def ledger (initial : List Entry) (calls : List Call) : List Entry :=
  added calls ++ if calls.any isClear then [] else initial

theorem ledger_concat (initial : List Entry) (calls : List Call) (c : Call) :
    ledger initial (calls ++ [c]) =
      if c.isClear then [] else c.entry?.toList ++ ledger initial calls := by
  unfold ledger added
  rw [List.reverse_append, List.reverse_singleton, List.singleton_append, List.any_append]
  cases c with
  | add expression result now =>
    rw [show [add expression result now].any isClear = false from rfl, Bool.or_false]
    rfl
  | clear =>
    rw [show [clear].any isClear = true from rfl, Bool.or_true]
    rfl
  | load =>
    rw [show [load].any isClear = false from rfl, Bool.or_false]
    rfl

theorem ledger_of_all_isLoad {calls : List Call} (h : calls.all isLoad = true)
    (initial : List Entry) : ledger initial calls = initial := by
  induction calls using List.reverseRecOn with
  | nil => rfl
  | append_singleton calls c ih =>
    rw [List.all_append, Bool.and_eq_true] at h
    cases c with
    | add expression result now => simp [isLoad] at h
    | clear => simp [isLoad] at h
    | load => exact (ledger_concat initial calls .load).trans (ih h.1)

/-- Cutting off the oldest entries at every call comes to cutting them off at the end. -/
theorem foldl_kept {limit : Int} (hlimit : 0 ≤ limit) (initial : List Entry) (calls : List Call) :
    calls.foldl (kept limit) initial =
      if calls.all isLoad then initial else (ledger initial calls).take limit.toNat := by
  induction calls using List.reverseRecOn with
  | nil => rfl
  | append_singleton calls c ih =>
    rw [List.foldl_append, ih, List.all_append, ledger_concat]
    cases c with
    | add expression result now =>
      have hall : (calls.all isLoad && [add expression result now].all isLoad) = false :=
        Bool.and_false _
      rw [hall, if_neg Bool.false_ne_true]
      show upTo limit (_ :: _) = ([_] ++ _).take limit.toNat
      rw [upTo, if_pos hlimit]
      split
      · rename_i hloads
        rw [ledger_of_all_isLoad hloads]
        rfl
      · exact take_cons_take _ _ _
    | clear =>
      have hall : (calls.all isLoad && [clear].all isLoad) = false := Bool.and_false _
      rw [hall, if_neg Bool.false_ne_true]
      exact List.take_nil.symm
    | load =>
      rw [show [load].all isLoad = true from rfl, Bool.and_true]
      rfl

end Call

/-- What is held where there was no file. -/
theorem stored_run_missing (hlimit : 0 ≤ s.limit) {file : File} {calls : List Call}
    (h : s.run .missing calls = .ok file) :
    s.stored file = (Call.added calls).take s.limit.toNat := by
  have hledger : Call.ledger [] calls = Call.added calls := by
    unfold Call.ledger
    rw [ite_self, List.append_nil]
  rw [stored_run h, Call.foldl_kept hlimit, show s.stored .missing = [] from rfl, ← hledger]
  split
  · rename_i hloads
    rw [Call.ledger_of_all_isLoad hloads, List.take_nil]
  · rfl

/-! ## Calls that succeed -/

theorem exists_call (s : Store) {file : File} (h : file.IsSound) {c : Call}
    (hc : c.IsWhole) : ∃ file', s.call file c = .ok file' ∧ file'.IsSound := by
  cases c with
  | add expression result now =>
    have htimely := isTimely_of_mem_upTo_cons s file expression result now
    have hwhole : ∀ e ∈ upTo s.limit (⟨expression, result, milliseconds now⟩ :: s.stored file),
        e.IsWhole := fun e he =>
      (Call.of_mem_kept he).elim (isWhole_of_mem_stored h.whole e) (hc e)
    rw [call_add]
    exact File.exists_write h
      (Fields.readable_put file.readable_fields s.field (readable_list_toJson htimely))
      (Json.whole_put h.whole ⟨s.key, rfl⟩ (whole_list_toJson_iff.2 hwhole))
  | clear =>
    rw [call_clear]
    exact File.exists_write h (Fields.readable_remove file.readable_fields s.field)
      (Json.whole_remove h.whole s.field)
  | load => exact ⟨file, rfl, h⟩

/-- From a sound file on, every call succeeds that adds no lone half. -/
theorem exists_run (s : Store) {file : File} (h : file.IsSound) {calls : List Call}
    (hcalls : ∀ c ∈ calls, c.IsWhole) :
    ∃ file', s.run file calls = .ok file' ∧ file'.IsSound := by
  induction calls generalizing file with
  | nil => exact ⟨file, rfl, h⟩
  | cons c calls ih =>
    obtain ⟨hc, hrest⟩ := List.forall_mem_cons.1 hcalls
    obtain ⟨mid, hcall, hmid⟩ := exists_call s h hc
    obtain ⟨file', hrest, hfile'⟩ := ih hmid hrest
    exact ⟨file', foldlM_cons_eq_ok.2 ⟨mid, hcall, hrest⟩, hfile'⟩

/-! ## Loading after a run -/

/-- **The store is a bounded list.** After calls that all succeed, loading returns what it returned
before if nothing was added or cleared; else it returns the entries added since the last clear,
newest first, followed by the ones from before unless there was a clear, up to the limit. Loading
leaves every file as it is. Files are read and written to any depth of nesting. -/
theorem load_of_run {s : Store} (hlimit : 0 ≤ s.limit) {file file' : File} {calls : List Call}
    (hrun : s.run file calls = .ok file') :
    ∃ before, (s.load file).answer = .ok before ∧
      (s.load file').answer = .ok (if calls.all Call.isLoad then before
        else (Call.added calls ++ if calls.any Call.isClear then [] else before).take
          s.limit.toNat) ∧
      ∀ f, (s.load f).file = f := by
  refine ⟨s.stored file, answer_load s file, ?_, fun f => rfl⟩
  rw [answer_load, stored_run hrun, Call.foldl_kept hlimit]
  rfl

/-- In a file of another writer a boolean result and a padded time are taken for numbers, and what is
no entry is dropped. -/
theorem load_of_run_lenient :
    let s : Store := ⟨"history".toList, 2⟩
    let foreign : Fields := [(.ofString "history", .list [.ofFields [("expr", .ofString "2/2"),
      ("result", .bool true), ("ts", .ofString " 07 ")], .int 7]), (.ofString "v", .real .nan)]
    ∃ file file', File.missing.write foreign = .ok file ∧
      s.run file [.load, .add (.ofString "1/3") .nan (.ofInt 2), .load] = .ok file' ∧
      (s.load file').answer =
        .ok [⟨.ofString "1/3", .nan, 2000⟩, ⟨.ofString "2/2", .ofInt 1, 7⟩] := by
  intro s foreign
  have hread : foreign.Readable := by
    refine ⟨by decide, List.forall_mem_cons.2 ⟨.list ?_, List.forall_mem_singleton.2 (.real _)⟩⟩
    refine List.forall_mem_cons.2 ⟨.object (by decide) ?_, List.forall_mem_singleton.2 ?_⟩
    · exact List.forall_mem_cons.2 ⟨.text _, List.forall_mem_cons.2
        ⟨.bool _, List.forall_mem_singleton.2 (.text _)⟩⟩
    · exact .int (by decide)
  have hname : ∀ name : String, (Text.ofString name).IsWhole := fun name => ⟨name.toList, rfl⟩
  have hwhole : (Json.object foreign).Whole := by
    refine .object (List.forall_mem_cons.2 ⟨hname _, List.forall_mem_singleton.2 (hname _)⟩)
      (List.forall_mem_cons.2 ⟨.list ?_, List.forall_mem_singleton.2 (.real _)⟩)
    refine List.forall_mem_cons.2 ⟨.object ?_ ?_, List.forall_mem_singleton.2 (.int _)⟩
    · exact List.forall_mem_cons.2 ⟨hname _, List.forall_mem_cons.2
        ⟨hname _, List.forall_mem_singleton.2 (hname _)⟩⟩
    · exact List.forall_mem_cons.2 ⟨.text (hname _), List.forall_mem_cons.2
        ⟨.bool _, List.forall_mem_singleton.2 (.text (hname _))⟩⟩
  obtain ⟨file, hfile, hsound⟩ := File.exists_write File.isSound_missing hread hwhole
  have hcalls : ∀ c ∈ [Call.load, .add (.ofString "1/3") .nan (.ofInt 2), .load], c.IsWhole :=
    List.forall_mem_cons.2 ⟨Call.isWhole_load, List.forall_mem_cons.2
      ⟨Call.isWhole_add _ _ _, List.forall_mem_singleton.2 Call.isWhole_load⟩⟩
  obtain ⟨file', hrun, -⟩ := exists_run s hsound hcalls
  obtain ⟨before, hbefore, hafter, -⟩ := load_of_run (by decide) hrun
  have hentries : (s.entries file.fields.1).1 = before := Except.ok.inj hbefore
  rw [File.fields_of_write hread hfile] at hentries
  have hstored : before = [⟨.ofString "2/2", .ofInt 1, 7⟩] := by
    rw [← hentries]
    decide +kernel
  refine ⟨file, file', hfile, hrun, ?_⟩
  rw [hafter, hstored]
  decide +kernel

end DeskCalculator.Store
