import DeskCalculator.Proofs.Service.Exchange

/-!
# The history that the service shows

* `log` : the entries recorded since the last clearing, newest first;
  `added_map_call` : they are those that the calls of the store add;
* `itemJson` : an entry as it is listed; `content_listed` : what listing finite results carries;
* `exists_of_status` : what an expression that is not blank and was evaluated is recorded as;
* `history_of_exchanges` : in any run over a missing file, listings show the log up to the limit,
  clearing counts it, and every other exchange leaves the file as it is.
-/

namespace DeskCalculator.Service

/-! ## The log -/

/-- The entries recorded since the last clearing, newest first. -/
def log (past : List Exchange) : List Entry :=
  (past.reverse.takeWhile (!·.clears)).filterMap Exchange.recorded?

theorem Exchange.recorded?_of_clears {x : Exchange} (h : x.clears = true) : x.recorded? = none := by
  unfold clears at h
  split at h
  · rename_i hroute
    unfold recorded? Request.expression?
    rw [hroute]
  · cases h

theorem Exchange.time_of_recorded? {x : Exchange} {e : Entry} (h : x.recorded? = some e) :
    e.time = milliseconds x.now := by
  unfold recorded? at h
  split at h
  · split at h
    · cases h
    · obtain rfl := Option.some.inj h
      rfl
  · cases h

theorem Exchange.isClear_call (x : Exchange) : x.call.isClear = x.clears := by
  unfold call
  cases x.clears with
  | true => rfl
  | false => cases x.recorded? <;> rfl

theorem Exchange.entry?_call (x : Exchange) : x.call.entry? = x.recorded? := by
  unfold call
  cases hclears : x.clears with
  | true => exact (recorded?_of_clears hclears).symm
  | false =>
    cases h : x.recorded? with
    | none => rfl
    | some e =>
      show some (⟨e.expression, e.result, milliseconds x.now⟩ : Entry) = some e
      rw [← time_of_recorded? h]

theorem added_map_call (past : List Exchange) :
    Store.Call.added (past.map Exchange.call) = log past := by
  unfold Store.Call.added log
  rw [← List.map_reverse, List.takeWhile_map, List.filterMap_map]
  simp only [Function.comp_def, Exchange.entry?_call, Exchange.isClear_call]

theorem exists_of_mem_log {past : List Exchange} {e : Entry} (h : e ∈ log past) :
    ∃ x ∈ past, x.recorded? = some e := by
  obtain ⟨x, hx, he⟩ := List.mem_filterMap.1 h
  exact ⟨x, List.mem_reverse.1 (List.takeWhile_subset _ hx), he⟩

/-! ## Listings -/

/-- An entry as it is listed. -/
def itemJson (e : Entry) : Json :=
  .ofFields [("expr", .text e.expression), ("result", .real e.result), ("ts", .int e.time),
    ("display", .ofChars (display e.result))]

theorem content_listed {es : List Entry} (h : ∀ e ∈ es, e.result.isFinite = true) :
    (Answer.listed es).content =
      .json (.ofFields [("count", .int es.length), ("items", .list (es.map itemJson))]) := by
  have hitems : es.map entryJson = es.map itemJson := by
    apply List.map_congr_left
    intro e he
    unfold entryJson itemJson resultJson
    rw [h e he, if_pos rfl]
  rw [← hitems]
  rfl

/-! ## Runs -/

/-- An expression that is not blank and that was answered with status 200 is recorded, with the
result of the answer. -/
theorem exists_of_status {store : Store} {file : File} (hfile : file.IsSound) {x : Exchange}
    (hanswer : x.answer = (handle store x.now file x.request).1) {e : List Char}
    (he : x.request.expression? = some e) (hblank : isBlankText e = false)
    (hstatus : x.answer.status = 200) :
    ∃ v next exact, evaluate e = .ok v ∧ x.answer = .evaluated e v next exact ∧
      x.recorded? = some ⟨.ofChars e, v, milliseconds x.now⟩ := by
  obtain ⟨-, hreply⟩ := handle_of_expression? he store x.now file
  have hends := evaluates_evaluateReply hfile store x.now e
  unfold Exchange.recorded?
  rw [hanswer, hreply] at hstatus ⊢
  rw [he]
  generalize evaluateReply store x.now file e = reply at hends hstatus
  cases hends with
  | @recorded v next exact file' hvalue =>
    refine ⟨v, next, exact, hvalue, rfl, ?_⟩
    dsimp only
    rw [hblank, if_neg Bool.false_ne_true]
  | blank _ hall =>
    rw [hblank] at hall
    cases hall
  | rejected => cases hstatus

theorem status_of_recorded? {x : Exchange} {entry : Entry} (h : x.recorded? = some entry) :
    ∃ e, x.request.expression? = some e ∧ isBlankText e = false ∧ x.answer.status = 200 := by
  unfold Exchange.recorded? at h
  split at h
  · rename_i e _ result next exact he hanswer
    split at h
    · cases h
    · rename_i hblank
      refine ⟨e, he, Bool.eq_false_iff.2 hblank, ?_⟩
      rw [hanswer]
      rfl
  · cases h

/-- **The history is the log of the run.** Let requests of any kind be handled in turn, over a file
that is missing at the start, and take any of them. A listing shows the expressions that are not
blank and were evaluated since the last clearing, newest first, up to the limit, each with the result
that was answered. Clearing answers how many a listing would have shown. All other requests, but for
those that evaluate an expression which is not blank, leave the file as it is. -/
theorem history_of_exchanges {store : Store} (hlimit : 0 ≤ store.limit)
    {rs : List (Binary64 × Request)} {past future : List Exchange} {x : Exchange}
    (h : exchanges store .missing rs = past ++ x :: future) :
    let file := fileAfter .missing past
    let listed := (log past).take store.limit.toNat
    (x.request.route = .ok .listHistory → x.answer.status = 200 ∧ x.answer.content =
      .json (.ofFields [("count", .int listed.length), ("items", .list (listed.map itemJson))])) ∧
    (x.request.route = .ok .clearHistory → x.answer = .cleared listed.length ∧
      ∀ now r, r.route = .ok .listHistory → (handle store now file r).1 = .listed listed) ∧
    (∀ e, x.request.expression? = some e → isBlankText e = false → x.answer.status = 200 →
      ∃ v next exact, evaluate e = .ok v ∧ x.answer = .evaluated e v next exact ∧
        x.recorded? = some ⟨.ofChars e, v, milliseconds x.now⟩) ∧
    (x.request.route ≠ .ok .clearHistory →
      (∀ e, x.request.expression? = some e → isBlankText e = false → x.answer.status ≠ 200) →
        x.file = file) := by
  intro file listed
  obtain ⟨hrun, hsound, hfinite, hx⟩ := run_exchanges File.isSound_missing h
  change store.run .missing _ = .ok file at hrun
  change file.IsSound at hsound
  have hanswer := (congrArg Exchange.answer hx).trans (answer_exchange store file _ _)
  have hstored : store.stored file = listed := by
    rw [Store.stored_run_missing hlimit hrun, added_map_call]
  have hcount : store.count file = listed.length := by
    rw [Store.count_run hrun rfl, hstored]
  have hlist : ∀ now r, r.route = .ok .listHistory →
      (handle store now file r).1 = .listed listed := by
    intro now r hroute
    have hwhole := Store.isWhole_of_mem_stored (s := store) hsound.whole
    rw [handle_of_listHistory hroute, listedAnswer_of_isWhole hwhole, hstored]
  refine ⟨fun hroute => ?_, fun hroute => ⟨?_, hlist⟩, fun e he hblank hstatus => ?_,
    fun hclear hnone => ?_⟩
  · rw [hanswer, hlist x.now x.request hroute]
    refine ⟨rfl, content_listed fun e he => ?_⟩
    obtain ⟨y, hy, hrecorded⟩ := exists_of_mem_log (List.mem_of_mem_take he)
    exact hfinite y hy e hrecorded
  · obtain ⟨file', -, hreply⟩ := exists_clearReply hsound store
    rw [hanswer, handle_of_clearHistory hroute, hreply, hcount]
  · exact exists_of_status hsound hanswer he hblank hstatus
  · have hrecorded : x.recorded? = none := by
      cases hentry : x.recorded? with
      | none => rfl
      | some entry =>
        obtain ⟨e, he, hblank, hstatus⟩ := status_of_recorded? hentry
        exact absurd hstatus (hnone e he hblank)
    have hclears : x.clears = false := by
      unfold Exchange.clears
      split
      · rename_i hroute
        exact absurd hroute hclear
      · rfl
    have hcall := call_exchange hsound store x.now x.request
    rw [← hx, Exchange.call_of_recorded?_eq_none hclears hrecorded] at hcall
    exact (Except.ok.inj hcall).symm

/-- After an evaluation and a blank text, a listing shows the evaluation alone. -/
theorem history_of_exchanges_blank :
    let store : Store := ⟨"history".toList, 5⟩
    let sum : Request := ⟨"POST", "/api/evaluate", "\x7b\"expression\": \"1 + 1\"\x7d".toList⟩
    let blank : Request := ⟨"POST", "/api/evaluate", "\x7b\"expression\": \" \"\x7d".toList⟩
    let listing : Request := ⟨"GET", "/api/history", []⟩
    ∃ first second x, exchanges store .missing
        [(.ofInt 2, sum), (.ofInt 3, blank), (.ofInt 4, listing)] = [first, second] ++ x :: [] ∧
      x.answer.content = .json (.ofFields [("count", .int 1),
        ("items", .list [itemJson ⟨.ofString "1 + 1", .ofInt 2, 2000⟩])]) := by
  intro store sum blank listing
  let first := exchange store .missing (.ofInt 2) sum
  let second := exchange store first.file (.ofInt 3) blank
  let x := exchange store second.file (.ofInt 4) listing
  have hrun : exchanges store .missing [(.ofInt 2, sum), (.ofInt 3, blank), (.ofInt 4, listing)] =
    [first, second] ++ x :: [] := rfl
  have hroute : x.request.route = .ok .listHistory :=
    route_of_lookup (show (routesOf (barePath listing.path)).lookup listing.method = _ by
      decide +kernel)
  have hlog : log [first, second] = [⟨.ofString "1 + 1", .ofInt 2, 2000⟩] := by decide +kernel
  obtain ⟨-, hcontent⟩ := (history_of_exchanges (by decide) hrun).1 hroute
  rw [hlog] at hcontent
  exact ⟨first, second, x, hrun, hcontent⟩

end DeskCalculator.Service
