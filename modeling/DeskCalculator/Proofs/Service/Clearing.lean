import DeskCalculator.Proofs.Service.Exchange

/-!
# Clearing and listing

* `Store.items` : the items under the store's key; `Store.stored_eq_filterMap` : loading returns those
  that stand for an entry;
* `Store.skipped` : how many of them stand for none; `Store.levels_load` : loading warns of each;
* `Store.count_eq_add` : clearing counts both kinds; `Store.skipped_of_call` : in a file that the
  store has written there is none of the second;
* `clear_counts` : clearing answers how many entries are loaded and how many items are skipped, and
  leaves nothing to be listed; a listing just before shows the same entries, if it is answered.
-/

namespace DeskCalculator

/-! ## Items -/

/-- An object with a field was read, and nothing was logged. -/
theorem File.levels_of_get? {file : File} {key : Text} {value : Json}
    (h : Fields.get? key file.fields.1 = some value) : file.fields.2 = [] := by
  cases file with
  | missing => rfl
  | blocked => rfl
  | directory => cases h
  | present bytes =>
    unfold File.fields at h ⊢
    dsimp only at h ⊢
    split
    · rfl
    · rename_i hdecode
      rw [hdecode] at h
      cases h

namespace Store

/-- The items under the store's key; what is no list has none. -/
def items (s : Store) (file : File) : List Json :=
  match Fields.get? s.field file.fields.1 with
  | some (.list items) => items
  | _ => []

/-- How many items stand for no entry. -/
def skipped (s : Store) (file : File) : Nat :=
  (s.items file).countP fun v => (Entry.ofJson? v).isNone

theorem entriesOf_cons_some {v : Json} {e : Entry} (h : Entry.ofJson? v = some e)
    (items : List Json) :
    entriesOf (v :: items) = (e :: (entriesOf items).1, (entriesOf items).2) := by
  rw [entriesOf]
  dsimp only
  rw [h]

theorem entriesOf_cons_none {v : Json} (h : Entry.ofJson? v = none) (items : List Json) :
    entriesOf (v :: items) = ((entriesOf items).1, .warning :: (entriesOf items).2) := by
  rw [entriesOf]
  dsimp only
  rw [h]

/-- Loading keeps the items that stand for an entry, and warns of each other one. -/
theorem entriesOf_eq (items : List Json) :
    entriesOf items = (items.filterMap Entry.ofJson?,
      .replicate (items.countP fun v => (Entry.ofJson? v).isNone) .warning) := by
  induction items with
  | nil => rfl
  | cons v items ih =>
    cases h : Entry.ofJson? v with
    | some e => rw [entriesOf_cons_some h, ih, List.filterMap_cons_some h,
        List.countP_cons_of_neg (by simp [h])]
    | none => rw [entriesOf_cons_none h, ih, List.filterMap_cons_none h,
        List.countP_cons_of_pos (by simp [h]), List.replicate_succ]

variable {s : Store} {file : File}

theorem stored_eq_filterMap (s : Store) (file : File) :
    s.stored file = (s.items file).filterMap Entry.ofJson? := by
  unfold stored entries items
  cases Fields.get? s.field file.fields.1 with
  | none => rfl
  | some value =>
    cases value with
    | list items => exact congrArg Prod.fst (entriesOf_eq items)
    | _ => rfl

theorem count_eq_length (s : Store) (file : File) : s.count file = (s.items file).length := by
  unfold count items
  cases Fields.get? s.field file.fields.1 with
  | none => rfl
  | some value => cases value <;> rfl

/-- Clearing counts the entries that loading returns, and the items that it skips. -/
theorem count_eq_add (s : Store) (file : File) :
    s.count file = (s.stored file).length + s.skipped file := by
  rw [count_eq_length, stored_eq_filterMap, List.length_filterMap_eq_countP, skipped,
    List.length_eq_countP_add_countP fun v => (Entry.ofJson? v).isSome]
  simp only [Bool.not_eq_true, Option.isSome_eq_false_iff, Bool.decide_eq_true]

theorem levels_load {items : List Json}
    (h : Fields.get? s.field file.fields.1 = some (.list items)) :
    (s.load file).levels = .replicate (s.skipped file) .warning := by
  unfold load skipped Store.items entries
  dsimp only
  rw [File.levels_of_get? h, h]
  dsimp only
  rw [entriesOf_eq, List.nil_append]

theorem skipped_eq_zero_iff :
    s.skipped file = 0 ↔ ∀ v ∈ s.items file, (Entry.ofJson? v).isSome = true := by
  simp [skipped, List.countP_eq_zero, Option.isSome_iff_ne_none]

/-- Nothing is skipped in a file that the store has written. -/
theorem skipped_of_call {file' : File} {c : Call} (hload : c.isLoad = false)
    (h : s.call file c = .ok file') : s.skipped file' = 0 := by
  have hcount : s.count file' = (s.stored file').length := by
    cases c with
    | add expression result now =>
      rw [call_add] at h
      obtain ⟨hstored, hcount⟩ :=
        stored_of_write_put (isTimely_of_mem_upTo_cons s file expression result now) h
      rw [hcount, hstored]
    | clear =>
      rw [call_clear] at h
      obtain ⟨hstored, hcount⟩ := stored_of_write_remove h
      rw [hcount, hstored]
      rfl
    | load => cases hload
  have hadd := count_eq_add s file'
  omega

theorem clear_eq_commit (s : Store) (file : File) :
    s.clear file =
      commit file file.fields.2 (Fields.remove s.field file.fields.1) (s.count file) := rfl

/-- Clearing that succeeds answers the count, and leaves nothing to be loaded. -/
theorem of_clear {n : Nat} (h : (s.clear file).answer = .ok n) :
    n = s.count file ∧ s.stored (s.clear file).file = [] := by
  rw [clear_eq_commit] at h ⊢
  unfold commit at h ⊢
  cases hwrite : file.write (Fields.remove s.field file.fields.1) with
  | ok written =>
    rw [hwrite] at h
    exact ⟨(Except.ok.inj h).symm, (stored_of_write_remove hwrite).1⟩
  | error fault =>
    rw [hwrite] at h
    cases h

end Store

namespace Service

/-! ## Requests -/

variable {store : Store} {now : Binary64} {file : File} {r : Request}

/-- A request to clear that is answered with status 200 is a call that succeeds. -/
theorem handle_of_clears (hroute : r.route = .ok .clearHistory)
    (hstatus : (handle store now file r).1.status = 200) :
    (store.clear file).answer = .ok (store.count file) ∧
      handle store now file r = (.cleared (store.count file), (store.clear file).file) := by
  rw [handle_of_clearHistory hroute] at hstatus ⊢
  unfold clearReply at hstatus ⊢
  dsimp only at hstatus ⊢
  cases h : (store.clear file).answer with
  | ok n =>
    obtain rfl := (Store.of_clear h).1
    exact ⟨rfl, rfl⟩
  | error fault =>
    rw [h] at hstatus
    cases fault <;> cases hstatus

theorem listedAnswer_of_status {es : List Entry} (h : (listedAnswer es).status = 200) :
    listedAnswer es = .listed es := by
  by_cases hwhole : ∀ e ∈ es, e.IsWhole
  · exact listedAnswer_of_isWhole hwhole
  · rw [listedAnswer_of_not_isWhole hwhole] at h
    cases h

/-- **Clearing counts the entries and what is skipped.** Whatever a file holds, where clearing it
succeeds the answer is how many entries loading returns just before, and how many items of the list
it skips, which it warns of one by one. So these are as many as were loaded if and only if every item
stands for an entry, as in a file that the store has written; and nothing is loaded just after. In
every run of requests over any file a deletion with status 200 between two listings answers the same
number: it counts what the first one lists, if that has status 200, and what is skipped; the second
one lists nothing. Files are read and written to any depth of nesting. -/
theorem clear_counts (s : Store) :
    (∀ {file : File} {n : Nat}, (s.clear file).answer = .ok n →
      ∃ es, (s.load file).answer = .ok es ∧ n = es.length + s.skipped file ∧
        (n = es.length ↔ ∀ v ∈ s.items file, (Entry.ofJson? v).isSome = true) ∧
        (s.load (s.clear file).file).answer = .ok []) ∧
    (∀ {file : File} {items : List Json}, Fields.get? s.field file.fields.1 = some (.list items) →
      (s.load file).levels = .replicate (s.skipped file) .warning) ∧
    (∀ {file file' : File} {c : Store.Call}, c.isLoad = false → s.call file c = .ok file' →
      s.skipped file' = 0) ∧
    (∀ {file : File} {rs : List (Binary64 × Request)} {past future : List Exchange}
      {x y z : Exchange}, exchanges s file rs = past ++ x :: y :: z :: future →
      x.request.route = .ok .listHistory → y.request.route = .ok .clearHistory →
      z.request.route = .ok .listHistory → y.answer.status = 200 →
      ∃ es, (s.load (fileAfter file past)).answer = .ok es ∧
        (x.answer.status = 200 → x.answer = .listed es) ∧
        y.answer = .cleared (es.length + s.skipped (fileAfter file past)) ∧
        z.answer = .listed []) := by
  refine ⟨fun {file n} h => ?_, Store.levels_load, Store.skipped_of_call, ?_⟩
  · obtain ⟨hn, hafter⟩ := Store.of_clear h
    have hadd := s.count_eq_add file
    refine ⟨s.stored file, s.answer_load file, hn.trans hadd, ?_, ?_⟩
    · rw [← Store.skipped_eq_zero_iff]
      omega
    · rw [Store.answer_load, hafter]
  · intro file rs past future x y z h hx hy hz hstatus
    have hxs := eq_exchange h
    have hys := eq_exchange (h.trans (List.append_cons past x _))
    have hzs := eq_exchange (h.trans ((List.append_cons past x _).trans (List.append_cons _ y _)))
    rw [fileAfter_concat] at hys hzs
    have hfile : x.file = fileAfter file past := by
      rw [hxs, file_exchange, handle_of_listHistory hx]
    rw [hfile] at hys
    rw [hys, answer_exchange] at hstatus
    obtain ⟨hclear, hreply⟩ := handle_of_clears hy hstatus
    refine ⟨s.stored (fileAfter file past), s.answer_load _, fun hshown => ?_, ?_, ?_⟩
    · rw [hxs, answer_exchange, handle_of_listHistory hx] at hshown ⊢
      exact listedAnswer_of_status hshown
    · rw [hys, answer_exchange, hreply, Store.count_eq_add]
    · rw [hzs, answer_exchange, handle_of_listHistory hz, hys, file_exchange, hreply,
        (Store.of_clear hclear).2]
      rfl

/-- A number stands after an entry. The entry is listed, both are cleared, and then there is nothing
left. -/
theorem clear_counts_number :
    let s : Store := ⟨"history".toList, 5⟩
    let entry : Json := .ofFields [("expr", .ofString "1"), ("result", .int 1), ("ts", .int 7)]
    let file : File := .present (String.toUTF8
      "\x7b\"history\": [\x7b\"expr\": \"1\", \"result\": 1, \"ts\": 7\x7d, 3]\x7d")
    let listing : Request := ⟨"GET", "/api/history", []⟩
    let clearing : Request := ⟨"DELETE", "/api/history", []⟩
    Fields.get? s.field file.fields.1 = some (.list [entry, .int 3]) ∧
    (s.load file).levels = [.warning] ∧ (s.clear file).answer = .ok 2 ∧
    (∃ es, (s.load file).answer = .ok es ∧ 2 = es.length + 1 ∧
      (s.load (s.clear file).file).answer = .ok []) ∧
    s.skipped (s.clear file).file = 0 ∧
    ∃ x y z es, exchanges s file [(.ofInt 2, listing), (.ofInt 3, clearing), (.ofInt 4, listing)] =
      [x, y, z] ∧ x.answer = .listed es ∧ y.answer = .cleared (es.length + 1) ∧
      z.answer = .listed [] := by
  intro s entry file listing clearing
  have hlist : Fields.get? s.field file.fields.1 = some (.list [entry, .int 3]) := by rfl
  have hclear : (s.clear file).answer = .ok 2 := by decide +kernel
  have hskipped : s.skipped file = 1 := by decide +kernel
  have hcall : s.call file .clear = .ok (s.clear file).file := by
    unfold Store.call
    dsimp only
    rw [hclear]
    rfl
  have hlisting : listing.route = .ok .listHistory := route_of_lookup (by decide +kernel)
  have hclearing : clearing.route = .ok .clearHistory := route_of_lookup (by decide +kernel)
  let x := exchange s file (.ofInt 2) listing
  let y := exchange s x.file (.ofInt 3) clearing
  let z := exchange s y.file (.ofInt 4) listing
  have hrun : exchanges s file [(.ofInt 2, listing), (.ofInt 3, clearing), (.ofInt 4, listing)] =
    [] ++ x :: y :: z :: [] := rfl
  have hfile : x.file = file := by
    rw [file_exchange, handle_of_listHistory hlisting]
  have hstatus : y.answer.status = 200 := by
    rw [answer_exchange s x.file, hfile, handle_of_clearHistory hclearing]
    unfold clearReply
    dsimp only
    rw [hclear]
    rfl
  obtain ⟨hcounts, hlevels, hwritten, hruns⟩ := clear_counts s
  obtain ⟨es, hes, hlength, -, hafter⟩ := hcounts hclear
  have hwarns := hlevels hlist
  have hshown : x.answer.status = 200 := by
    rw [answer_exchange, handle_of_listHistory hlisting]
    decide +kernel
  obtain ⟨es', -, hx, hy, hz⟩ := hruns hrun hlisting hclearing hlisting hstatus
  rw [show fileAfter file [] = file from rfl, hskipped] at hy
  rw [hskipped] at hlength hwarns
  exact ⟨hlist, hwarns, hclear, ⟨es, hes, hlength, hafter⟩, hwritten rfl hcall,
    x, y, z, es', hrun, hx hshown, hy, hz⟩

/-- An item that is no entry is not listed but it is counted. -/
theorem exists_cleared_not_listed :
    let s : Store := ⟨"calculator.history.v1".toList, 50⟩
    let file : File := .present (String.toUTF8 "\x7b\"calculator.history.v1\": [1]\x7d")
    (s.load file).answer = .ok [] ∧ (s.clear file).answer = .ok 1 := by
  decide +kernel

end Service

end DeskCalculator
