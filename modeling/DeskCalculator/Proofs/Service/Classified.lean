import DeskCalculator.Proofs.History.Breakdown
import DeskCalculator.Proofs.History.Faults
import DeskCalculator.Proofs.Service.Refused
import DeskCalculator.Proofs.Service.Session
import DeskCalculator.Proofs.Service.Stepwise

/-!
# Which failures are told

* `recording?`, `Request.writing?` : the call by which a request writes the history;
  `handle_of_writing?` : it is answered by what becomes of that call, whose file it leaves;
* `handle_of_not_writing` : of all requests that do not, nor list the history, only those that are
  refused for a value which no answer can show bring down their answer;
* `fails_handle` : so a failure is told where there can be no file, and it is not told where a lone
  half is to be written or listed, or where nothing can be shown;
* `fileAfter_eq_or_isSound` : in a run that is about the file at the start, until one is written;
* `answered_of_writing?` : whatever goes wrong on the disk, a refusal is all that is told;
  `fails_of_readsTo` : where reading follows nesting to some depth only, nothing is told about what
  is deeper;
* `failures_classified` : which failures there are, of calls, in runs over any file and on a disk.
-/

namespace DeskCalculator.Service

/-! ## What a request does -/

/-- The call by which an expression is recorded at a clock reading: none if it has no value or is
blank. -/
def recording? (now : Binary64) (expression : List Char) : Option Store.Call :=
  match evaluate expression with
  | .ok result =>
    if isBlankText expression then none else some (.add (.ofChars expression) result now)
  | .error _ => none

/-- The call by which a request writes the history. -/
def Request.writing? (r : Request) (now : Binary64) : Option Store.Call :=
  match r.route with
  | .ok .clearHistory => some .clear
  | _ => r.expression?.bind (recording? now)

/-- What is told about a request that fails to write. -/
def Request.detail (r : Request) : String :=
  match r.route with
  | .ok .clearHistory => "Failed to clear history"
  | _ => "Failed to save history"

variable {s : Store} {now : Binary64} {file : File} {r : Request} {e : List Char} {c : Store.Call}

/-! ## Requests that write -/

/-- How the end of a call is answered: success with some answer, a refusal with a detail, and a lone
half with nothing that was prepared. -/
inductive Reported (detail : String) : Except WriteFault File → Answer → Prop
  | success {a : Answer} (file' : File) (h : a.status = 200) : Reported detail (.ok file') a
  | told : Reported detail (.error .refused) (.failed detail)
  | untold : Reported detail (.error .loneHalf) .crashed

theorem reported_reply {α : Type} {answer : α → Answer} (h : ∀ a, (answer a).status = 200)
    (detail : String → String) (outcome : Outcome α) :
    Reported (detail "Failed to save history") (outcome.answer.map fun _ => outcome.file)
      (Stepwise.reply answer detail outcome).1 := by
  unfold Stepwise.reply
  cases outcome.answer with
  | ok a => exact .success _ (h a)
  | error fault =>
    cases fault with
    | refused => exact .told
    | loneHalf => exact .untold

theorem exists_of_recording? (h : recording? now e = some c) :
    ∃ v, evaluate e = .ok v ∧ isBlankText e = false ∧ c = .add (.ofChars e) v now := by
  unfold recording? at h
  split at h
  · rename_i v hvalue
    split at h
    · cases h
    · rename_i hblank
      exact ⟨v, hvalue, Bool.eq_false_iff.2 hblank, (Option.some.inj h).symm⟩
  · cases h

theorem of_recording?_eq_none (h : recording? now e = none) :
    (∃ fault, evaluate e = .error fault) ∨ ∃ v, evaluate e = .ok v ∧ isBlankText e = true := by
  unfold recording? at h
  split at h
  · rename_i v hvalue
    split at h
    · rename_i hblank
      exact .inr ⟨v, hvalue, hblank⟩
    · cases h
  · rename_i fault hfault
    exact .inl ⟨fault, hfault⟩

theorem evaluateReply_of_recording? (s : Store) (file : File) (h : recording? now e = some c) :
    (c.isLoad = false ∧ c.IsWhole) ∧
      Reported "Failed to save history" (s.call file c) (evaluateReply s now file e).1 ∧
      (evaluateReply s now file e).2 = s.leaves file c := by
  obtain ⟨v, hvalue, hblank, rfl⟩ := exists_of_recording? h
  obtain ⟨next, exact, hanswer⟩ := evaluatedAnswer_of_isFinite (isFinite_of_evaluate hvalue) e
  rw [Stepwise.evaluateReply_eq_reply s now file hvalue hblank, hanswer]
  exact ⟨⟨rfl, Store.Call.isWhole_add e v now⟩, reported_reply (fun _ => rfl) id _, rfl⟩

/-- A request that writes is answered by what becomes of its call, and leaves that call's file. -/
theorem handle_of_writing? (s : Store) (file : File) (h : r.writing? now = some c) :
    (c.isLoad = false ∧ c.IsWhole) ∧ r.violations = [] ∧
      Reported r.detail (s.call file c) (handle s now file r).1 ∧
      (handle s now file r).2 = s.leaves file c := by
  unfold Request.writing? at h
  unfold Request.detail
  split at h
  · rename_i hroute
    obtain rfl := Option.some.inj h
    unfold Request.violations
    rw [handle_of_clearHistory hroute, Stepwise.clearReply_eq_reply, hroute]
    exact ⟨⟨rfl, Store.Call.isWhole_clear⟩, rfl,
      reported_reply (fun _ => rfl) (fun _ => "Failed to clear history") _, rfl⟩
  · obtain ⟨e, hexpression, hrecording⟩ := Option.bind_eq_some_iff.1 h
    obtain ⟨hc, hreported, hleaves⟩ := evaluateReply_of_recording? s file hrecording
    rw [(handle_of_expression? hexpression s now file).2]
    exact ⟨hc, violations_of_expression? hexpression, hreported, hleaves⟩

/-! ## Requests that do not write -/

theorem shows_withInput {α : Type} (r : Request) (file : File)
    {read : Fields → Except (List Violation) α} {reply : α → Answer × File}
    (h : ∀ fields input, Body.ofChars r.body = .object fields → read fields = .ok input →
      (reply input).1.status ≠ 500) :
    Shows ((Body.ofChars r.body).violations read) (withInput r file read reply).1 := by
  have hreceives := receives_withInput r file read reply
  generalize (Body.ofChars r.body).violations read = violations at hreceives ⊢
  generalize withInput r file read reply = received at hreceives
  cases hreceives with
  | read hbody hread hnone => exact .shown (h _ _ hbody hread) (hnone ▸ not_unshowable_nil)
  | unparsable hnone => exact .shown nofun (hnone ▸ not_unshowable_nil)
  | refused => exact shows_refuse violations

theorem evaluateReply_of_recording?_eq_none (s : Store) (file : File)
    (h : recording? now e = none) :
    (evaluateReply s now file e).1.status ≠ 500 ∧ (evaluateReply s now file e).2 = file := by
  unfold evaluateReply
  rcases of_recording?_eq_none h with ⟨fault, hfault⟩ | ⟨v, hvalue, hblank⟩
  · obtain ⟨report, hreport⟩ := Option.isSome_iff_exists.1 (report?_isSome_of_evaluate hfault)
    rw [hfault]
    dsimp only
    rw [hreport]
    exact ⟨nofun, rfl⟩
  · obtain ⟨next, exact, hanswer⟩ := evaluatedAnswer_of_isFinite (isFinite_of_evaluate hvalue) e
    rw [hvalue]
    dsimp only
    rw [if_pos hblank, hanswer]
    exact ⟨nofun, rfl⟩

theorem writing?_of_listHistory (hroute : r.route = .ok .listHistory) (now : Binary64) :
    r.writing? now = none := by
  unfold Request.writing? Request.expression?
  rw [hroute]
  rfl

theorem of_writing?_eq_none (h : r.writing? now = none) :
    r.route ≠ .ok .clearHistory ∧ r.expression?.bind (recording? now) = none := by
  unfold Request.writing? at h
  split at h
  · cases h
  · rename_i hclear
    exact ⟨hclear, h⟩

theorem handle_of_not_writing (s : Store) (file : File) (h : r.writing? now = none)
    (hlist : r.route ≠ .ok .listHistory) :
    Shows r.violations (handle s now file r).1 ∧ (handle s now file r).2 = file := by
  obtain ⟨hclear, hexpression⟩ := of_writing?_eq_none h
  refine ⟨?_, ?_⟩
  · unfold handle Request.violations
    cases hroute : r.route with
    | error answer =>
      rcases route_eq_error hroute with rfl | rfl <;> exact .shown nofun not_unshowable_nil
    | ok route =>
      cases route with
      | health => exact .shown nofun not_unshowable_nil
      | listHistory => exact absurd hroute hlist
      | clearHistory => exact absurd hroute hclear
      | preview => exact shows_withInput r file fun _ _ _ _ => nofun
      | press => exact shows_withInput r file fun _ _ _ _ => nofun
      | evaluate =>
        refine shows_withInput r file fun fields input hbody hread => ?_
        have hsome : r.expression? = some input := by
          unfold Request.expression?
          rw [hroute, hbody]
          dsimp only
          rw [hread]
          rfl
        rw [hsome] at hexpression
        exact (evaluateReply_of_recording?_eq_none s file hexpression).1
  · cases hsome : r.expression? with
    | none => exact handle_snd hclear hsome
    | some e =>
      rw [hsome] at hexpression
      rw [(handle_of_expression? hsome s now file).2]
      exact (evaluateReply_of_recording?_eq_none s file hexpression).2

/-! ## Failures -/

/-- An answer that tells of a failure with a detail. -/
def Answer.TellsDetail (a : Answer) (detail : String) : Prop :=
  a.status = 500 ∧ a.content = .json (detailJson (.ofString detail))

/-- An answer for which nothing was prepared. -/
def Answer.IsBare (a : Answer) : Prop := a.status = 500 ∧ a.content = .text "Internal Server Error"

/-- When an answer tells of a failure with a detail, and when nothing was prepared for it; it is a
failure in no other case. -/
structure Fails (a : Answer) (detail : String) (told untold : Prop) : Prop where
  told_iff : a.TellsDetail detail ↔ told
  bare_iff : a.IsBare ↔ untold
  status_iff : a.status = 500 ↔ told ∨ untold

theorem fails_failed (detail : String) {told untold : Prop} (htold : told) (huntold : ¬untold) :
    Fails (.failed detail) detail told untold where
  told_iff := iff_of_true ⟨rfl, rfl⟩ htold
  bare_iff := iff_of_false (fun h => Content.noConfusion h.2) huntold
  status_iff := iff_of_true rfl (.inl htold)

theorem fails_crashed (detail : String) {told untold : Prop} (htold : ¬told) (huntold : untold) :
    Fails .crashed detail told untold where
  told_iff := iff_of_false (fun h => Content.noConfusion h.2) htold
  bare_iff := iff_of_true ⟨rfl, rfl⟩ huntold
  status_iff := iff_of_true rfl (.inr huntold)

theorem fails_of_status {a : Answer} (h : a.status ≠ 500) (detail : String) {told untold : Prop}
    (htold : ¬told) (huntold : ¬untold) : Fails a detail told untold where
  told_iff := iff_of_false (fun hdetail => h hdetail.1) htold
  bare_iff := iff_of_false (fun hbare => h hbare.1) huntold
  status_iff := iff_of_false h (not_or.2 ⟨htold, huntold⟩)

/-- The request writes, and there can be no file. -/
def IsRefused (file : File) (now : Binary64) (r : Request) : Prop :=
  (r.writing? now).isSome = true ∧ file.IsBarred

/-- The request is to write or to list a lone half, or it is refused for what cannot be shown. -/
def IsUntold (s : Store) (file : File) (now : Binary64) (r : Request) : Prop :=
  (∃ c, r.writing? now = some c ∧ ¬s.WritesWhole file c) ∨
    (r.route = .ok .listHistory ∧ ¬∀ e ∈ s.stored file, e.IsWhole) ∨ Unshowable r.violations

theorem fails_listHistory (s : Store) (now : Binary64) (file : File)
    (hroute : r.route = .ok .listHistory) :
    Fails (handle s now file r).1 r.detail (IsRefused file now r) (IsUntold s file now r) := by
  have hviolations : r.violations = [] := by
    unfold Request.violations
    rw [hroute]
  unfold IsRefused IsUntold
  rw [writing?_of_listHistory hroute, hviolations, handle_of_listHistory hroute, hroute]
  simp only [Option.isSome_none, Bool.false_eq_true, false_and, reduceCtorEq, exists_false,
    not_unshowable_nil, or_false, false_or, true_and]
  by_cases hwhole : ∀ e ∈ s.stored file, e.IsWhole
  · rw [listedAnswer_of_isWhole hwhole]
    have hstatus : (Answer.listed (s.stored file)).status ≠ 500 := nofun
    exact fails_of_status hstatus _ not_false (not_not_intro hwhole)
  · rw [listedAnswer_of_not_isWhole hwhole]
    exact fails_crashed _ not_false hwhole

theorem fails_of_not_writing (s : Store) (file : File) (h : r.writing? now = none)
    (hlist : r.route ≠ .ok .listHistory) :
    Fails (handle s now file r).1 r.detail (IsRefused file now r) (IsUntold s file now r) := by
  obtain ⟨hshows, -⟩ := handle_of_not_writing s file h hlist
  unfold IsRefused IsUntold
  rw [h]
  simp only [Option.isSome_none, Bool.false_eq_true, false_and, reduceCtorEq, exists_false,
    hlist, false_or]
  generalize (handle s now file r).1 = a at hshows
  cases hshows with
  | shown hstatus hshowable => exact fails_of_status hstatus _ not_false hshowable
  | unshown hunshowable => exact fails_crashed _ not_false hunshowable

theorem fails_of_writing? (s : Store) (file : File) (h : r.writing? now = some c) :
    Fails (handle s now file r).1 r.detail (IsRefused file now r) (IsUntold s file now r) := by
  obtain ⟨⟨hload, hc⟩, hviolations, hreported, -⟩ := handle_of_writing? s file h
  have hlist : r.route ≠ .ok .listHistory := by
    intro hroute
    rw [writing?_of_listHistory hroute] at h
    cases h
  unfold IsRefused IsUntold
  rw [h, hviolations]
  simp only [Option.isSome_some, true_and, Option.some.injEq, exists_eq_left', hlist, false_and,
    not_unshowable_nil, or_false]
  generalize (handle s now file r).1 = a at hreported
  rcases s.call_cases_of_isWhole file hload hc with
    ⟨hbarred, hcall⟩ | ⟨hbarred, hwhole, hcall⟩ | ⟨hbarred, hwhole, file', hcall⟩
  · rw [hcall] at hreported
    cases hreported
    exact fails_failed _ hbarred (not_not_intro (s.writesWhole_of_isBarred hbarred hc))
  · rw [hcall] at hreported
    cases hreported
    exact fails_crashed _ hbarred hwhole
  · rw [hcall] at hreported
    obtain ⟨-, hstatus⟩ | - | - := hreported
    have hsuccess : a.status ≠ 500 := by
      rw [hstatus]
      decide
    exact fails_of_status hsuccess _ hbarred (not_not_intro hwhole)

/-- **One request.** A failure to write is told where there can be no file, and a failure is not
told where a lone half is to be written or listed. -/
theorem fails_handle (s : Store) (now : Binary64) (file : File) (r : Request) :
    Fails (handle s now file r).1 r.detail (IsRefused file now r) (IsUntold s file now r) := by
  by_cases hlist : r.route = .ok .listHistory
  · exact fails_listHistory s now file hlist
  · cases hwriting : r.writing? now with
    | none => exact fails_of_not_writing s file hwriting hlist
    | some c => exact fails_of_writing? s file hwriting

/-! ## Runs -/

theorem now_exchange (s : Store) (file : File) (now : Binary64) (r : Request) :
    (exchange s file now r).now = now := rfl

/-- A request leaves the file as some call does. -/
theorem exists_leaves (s : Store) (now : Binary64) (file : File) (r : Request) :
    ∃ c, (handle s now file r).2 = s.leaves file c := by
  cases hwriting : r.writing? now with
  | some c => exact ⟨c, (handle_of_writing? s file hwriting).2.2.2⟩
  | none =>
    refine ⟨.load, ?_⟩
    by_cases hlist : r.route = .ok .listHistory
    · rw [handle_of_listHistory hlist]
      rfl
    · exact (handle_of_not_writing s file hwriting hlist).2

/-- What a request finds is the file at the start, or one that was written, without lone halves. -/
theorem fileAfter_eq_or_isSound {rs : List (Binary64 × Request)} {past future : List Exchange}
    {x : Exchange} (h : exchanges s file rs = past ++ x :: future) :
    fileAfter file past = file ∨ (fileAfter file past).IsSound := by
  induction past using List.reverseRecOn generalizing x future with
  | nil => exact .inl rfl
  | append_singleton past y ih =>
    rw [List.append_assoc, List.singleton_append] at h
    obtain ⟨c, hleaves⟩ := exists_leaves s y.now (fileAfter file past) y.request
    rw [fileAfter_concat, eq_exchange h, file_exchange, hleaves]
    rcases s.leaves_eq_or_isSound (fileAfter file past) c with hsame | hsound
    · rw [hsame]
      exact ih h
    · exact .inr hsound

/-! ## Trouble on the disk -/

section Trouble

open Stepwise

variable {conditions : Conditions} {σ : Scene} {raised : Raised}

/-- What is answered where an operation fails: its refusal is told, and nothing else. -/
def failure (detail : String) (raised : Raised) : Answer :=
  if raised = .fault .refused then .failed detail else .crashed

theorem answered_report (detail : String → String) (raised : Raised) (σ : Scene) :
    answered ((report detail raised).result σ).1 =
      failure (detail "Failed to save history") raised := by
  cases raised with
  | trouble t => rfl
  | fault f => cases f <;> rfl

theorem answered_tryCatch {α : Type} {x : Work α} (answer : α → Answer)
    (detail : String → String) (h : (x.result σ).1 = .error raised) :
    answered (Work.result (tryCatch (answer <$> x) (report detail)) σ).1 =
      failure (detail "Failed to save history") raised := by
  rw [Work.result_tryCatch, Work.result_map, h]
  exact answered_report detail raised _

theorem stepwise_evaluateReply_of_recording?_eq_none (s : Store) (file : File)
    (h : recording? now e = none) :
    Stepwise.evaluateReply s conditions now e = pure (evaluateReply s now file e).1 := by
  unfold Stepwise.evaluateReply evaluateReply
  rcases of_recording?_eq_none h with ⟨fault, hfault⟩ | ⟨v, hvalue, hblank⟩
  · rw [hfault]
    dsimp only
    cases fault.report? with
    | some report => rfl
    | none => rfl
  · rw [hvalue]
    dsimp only
    rw [if_pos hblank, if_pos hblank]

/-- A request that writes tells that its call is refused. It tells nothing if the call fails in any
other way. -/
theorem answered_of_writing? (h : r.writing? now = some c)
    (hcall : ((Stepwise.call s conditions c).result σ).1 = .error raised) :
    answered ((Stepwise.handle s conditions now r).result σ).1 = failure r.detail raised := by
  unfold Request.writing? at h
  unfold Stepwise.handle Request.detail
  split at h
  · rename_i hroute
    obtain rfl := Option.some.inj h
    rw [hroute]
    exact answered_tryCatch _ _ ((Work.result_map_eq_error_iff _).1 hcall)
  · rename_i hclear
    obtain ⟨e, hexpression, hrecording⟩ := Option.bind_eq_some_iff.1 h
    obtain ⟨v, hvalue, hblank, rfl⟩ := exists_of_recording? hrecording
    have hreply : Stepwise.evaluateReply s conditions now e =
        tryCatch ((fun _ => evaluatedAnswer e v) <$>
          add s conditions ⟨.ofChars e, v, milliseconds now⟩) (report id) := by
      unfold Stepwise.evaluateReply
      rw [hvalue]
      dsimp only
      rw [hblank]
      rfl
    rw [(handle_of_expression? hexpression s now σ.file).1, hexpression]
    dsimp only
    rw [hreply]
    exact answered_tryCatch _ _ ((Work.result_map_eq_error_iff _).1 hcall)

theorem answered_of_listHistory (hroute : r.route = .ok .listHistory)
    (hcall : ((Stepwise.call s conditions .load).result σ).1 = .error raised) :
    answered ((Stepwise.handle s conditions now r).result σ).1 = .crashed := by
  unfold Stepwise.handle
  rw [hroute]
  dsimp only
  unfold Stepwise.listReply
  rw [(Work.result_map_eq_error_iff _).2 ((Work.result_map_eq_error_iff _).1 hcall)]
  rfl

/-- A request that neither writes nor lists the history takes no step on the disk. -/
theorem answered_of_not_writing (s : Store) (h : r.writing? now = none)
    (hlist : r.route ≠ .ok .listHistory) :
    answered ((Stepwise.handle s conditions now r).result σ).1 = (handle s now σ.file r).1 := by
  obtain ⟨hclear, hexpression⟩ := of_writing?_eq_none h
  unfold Stepwise.handle
  split
  · rename_i hroute
    exact absurd hroute hlist
  · rename_i hroute
    exact absurd hroute hclear
  · cases hsome : r.expression? with
    | none => rfl
    | some e =>
      rw [hsome] at hexpression
      rw [(handle_of_expression? hsome s now σ.file).2]
      dsimp only
      rw [stepwise_evaluateReply_of_recording?_eq_none s σ.file hexpression]
      rfl


/-- The request is to read what is nested deeper than reading follows. -/
def IsTooDeep (depth : Nat) (file : File) (now : Binary64) (r : Request) : Prop :=
  depth < file.nesting ∧ (r.route = .ok .listHistory ∨ (r.writing? now).isSome = true)

theorem answered_of_isTooDeep {depth : Nat} (hc : ReadsTo depth σ.file conditions) (s : Store)
    (h : IsTooDeep depth σ.file now r) :
    answered ((Stepwise.handle s conditions now r).result σ).1 = .crashed := by
  obtain ⟨hdeep, hlist | hwriting⟩ := h
  · exact answered_of_listHistory hlist (hc.result_call hdeep s .load)
  · obtain ⟨c, hwriting⟩ := Option.isSome_iff_exists.1 hwriting
    exact answered_of_writing? hwriting (hc.result_call hdeep s c)

theorem answered_of_not_isTooDeep {depth : Nat} (hc : ReadsTo depth σ.file conditions) (s : Store)
    (h : ¬IsTooDeep depth σ.file now r) :
    answered ((Stepwise.handle s conditions now r).result σ).1 = (handle s now σ.file r).1 := by
  by_cases hdeep : depth < σ.file.nesting
  · refine answered_of_not_writing s ?_ fun hlist => h ⟨hdeep, .inl hlist⟩
    exact Option.not_isSome_iff_eq_none.1 fun hwriting => h ⟨hdeep, .inr hwriting⟩
  · obtain ⟨ended, left, levels, hends, hanswer⟩ :=
      gives_handle (hc.calm hdeep) s now σ.file r
    rw [hends.answer_eq, hanswer]

/-- **One request, where reading follows to some depth.** What is nested deeper brings down the
answer of all that are to read it. -/
theorem fails_of_readsTo {depth : Nat} (hc : ReadsTo depth σ.file conditions) (s : Store)
    (now : Binary64) (r : Request) :
    Fails (answered ((Stepwise.handle s conditions now r).result σ).1) r.detail
      (IsRefused σ.file now r) (IsTooDeep depth σ.file now r ∨ IsUntold s σ.file now r) := by
  by_cases h : IsTooDeep depth σ.file now r
  · obtain ⟨bytes, hbytes⟩ := File.exists_bytes_of_nesting h.1
    have hbarred : ¬IsRefused σ.file now r := by
      rintro ⟨-, hblocked | hdirectory⟩
      · exact File.noConfusion (hbytes.symm.trans hblocked)
      · exact File.noConfusion (hbytes.symm.trans hdirectory)
    rw [answered_of_isTooDeep hc s h]
    exact fails_crashed _ hbarred (.inl h)
  · rw [answered_of_not_isTooDeep hc s h, or_iff_right h]
    exact fails_handle s now σ.file r

end Trouble

/-- **Every failure is told, but for lone halves, deep nesting and breakdowns.** Whatever a file
holds, a call that adds or clears is refused if and only if there can be no file at the path, and
fails without being told if and only if a lone half of a surrogate pair is to be written: under a
key other than the store's, in it, or in an entry that is kept. Let requests of any kind be handled
in turn, over any file; what one of them finds is the file at the start, or one that was written
since, which has no lone halves. It is answered with its detail if and only if it writes the history
and there can be no file, and by a bare failure if and only if it is to write a lone half, or to list
one, or is refused for a value that no answer can show; no other answer has status 500.

So far every text can be read and every value can be written, however deep it is nested. Where
reading follows to some depth only, a call breaks down if and only if the file is nested deeper, and
so does the answer of each request that lists the history or writes to it; all else is as before.
Where steps have any trouble of their own, an error of the system is told where a text is saved, and
no other is expected. All other trouble goes through, and a request that writes tells nothing but
that its call was refused. -/
theorem failures_classified (s : Store) :
    (∀ {file : File} {c : Store.Call}, c.isLoad = false →
      (s.call file c = .error .refused ↔
        file = .blocked ∨ file = .directory ∧ s.WritesWhole file c) ∧
      (s.call file c = .error .loneHalf ↔ file ≠ .blocked ∧ ¬s.WritesWhole file c)) ∧
    (∀ {file : File} {rs : List (Binary64 × Request)} {past future : List Exchange}
      {x : Exchange}, exchanges s file rs = past ++ x :: future →
      let found := fileAfter file past
      (found = file ∨ found.IsSound) ∧
      Fails x.answer x.request.detail (IsRefused found x.now x.request)
        (IsUntold s found x.now x.request)) ∧
    (∀ {depth : Nat} {conditions : Conditions} {σ : Scene},
      Stepwise.ReadsTo depth σ.file conditions →
      (∀ c raised, ((Stepwise.call s conditions c).result σ).1 = .error raised ↔
        (depth < σ.file.nesting ∧ raised = .trouble .other) ∨
        (σ.file.nesting ≤ depth ∧ ∃ fault, s.call σ.file c = .error fault ∧
          raised = .fault fault)) ∧
      ∀ now r, Fails (Stepwise.answered ((Stepwise.handle s conditions now r).result σ).1) r.detail
        (IsRefused σ.file now r) (IsTooDeep depth σ.file now r ∨ IsUntold s σ.file now r)) ∧
    (∀ {conditions : Conditions} {σ τ : Scene} {c : Store.Call} {raised : Raised},
      (Stepwise.call s conditions c).result σ = (.error raised, τ) →
      Stepwise.Ending conditions raised ∧
      ∀ now r, r.writing? now = some c →
        Stepwise.answered ((Stepwise.handle s conditions now r).result σ).1 =
          failure r.detail raised) := by
  refine ⟨fun {file c} hload => ⟨s.call_refused_iff file hload, s.call_loneHalf_iff file hload⟩,
    fun {file rs past future x} h => ⟨fileAfter_eq_or_isSound h, ?_⟩,
    fun {depth conditions σ} hc => ⟨Stepwise.call_eq_error_iff hc s, fails_of_readsTo hc s⟩,
    fun {conditions σ τ c raised} h => ⟨?_, fun now r hwriting => ?_⟩⟩
  · have hfails := fails_handle s x.now (fileAfter file past) x.request
    rwa [← answer_exchange, ← eq_exchange h] at hfails
  · exact Stepwise.raises_call s conditions c σ raised τ h
  · exact answered_of_writing? hwriting (congrArg Prod.fst h)

/-- An entry of another writer holds a lone half. While it is kept, nothing is added and nothing is
listed. A list in a list is too deep where one is all that reading follows, and then not even
clearing succeeds. -/
theorem failures_classified_loneHalf :
    let s : Store := ⟨"history".toList, 5⟩
    let file : File := .present (String.toUTF8
      "\x7b\"history\": [\x7b\"expr\": \"\\ud83d\", \"result\": 1, \"ts\": 7\x7d]\x7d")
    let nested : Scene := ⟨.present (String.toUTF8 "[[]]"), [], []⟩
    let addition : Store.Call := .add (.ofString "1 + 1") (.ofInt 2) (.ofInt 3)
    let listing : Request := ⟨"GET", "/api/history", []⟩
    let sum : Request := ⟨"POST", "/api/evaluate", "\x7b\"expression\": \"1 + 1\"\x7d".toList⟩
    let deletion : Request := ⟨"DELETE", "/api/history", []⟩
    let shallow : Conditions :=
      { Stepwise.calm with trouble := fun step => if step = .reading then some .other else none }
    let answer := Stepwise.answered
      ((Stepwise.handle s shallow (.ofInt 2) deletion).result nested).1
    (s.call file addition = .error .loneHalf ∧ ¬s.WritesWhole file addition) ∧
    (∃ x y, exchanges s file [(.ofInt 2, listing), (.ofInt 3, sum)] = [x, y] ∧
      x.answer.IsBare ∧ y.answer.IsBare) ∧
    (((Stepwise.call s shallow .clear).result nested).1 = .error (.trouble .other) ∧
      answer.IsBare) ∧
    Stepwise.Ending shallow (.trouble .other) ∧ answer = .crashed := by
  intro s file nested addition listing sum deletion shallow answer
  have hcall : s.call file addition = .error .loneHalf := by decide +kernel
  have hwriting : sum.writing? (.ofInt 3) = some addition := by decide +kernel
  have hdeletion : deletion.writing? (.ofInt 2) = some .clear := by decide +kernel
  have hroute : listing.route = .ok .listHistory := route_of_lookup (by decide +kernel)
  have hdeep : 1 < nested.file.nesting := by decide +kernel
  have hshallow : Stepwise.ReadsTo 1 nested.file shallow :=
    ⟨(if_pos hdeep).symm, fun step hstep => if_neg hstep⟩
  obtain ⟨hcalls, hruns, hdepth, htrouble⟩ := failures_classified s
  have hwrites := ((hcalls rfl).2.1 hcall).2
  have hstored : ¬∀ e ∈ s.stored file, e.IsWhole := by
    intro hwhole
    have hall : (s.stored file).all (·.expression.toChars?.isSome) = true :=
      List.all_eq_true.2 fun e he => Text.isSome_toChars?_iff.2 (hwhole e he)
    exact absurd hall (by decide +kernel)
  let x := exchange s file (.ofInt 2) listing
  let y := exchange s x.file (.ofInt 3) sum
  have hfirst : exchanges s file [(.ofInt 2, listing), (.ofInt 3, sum)] = [] ++ x :: [y] := rfl
  have hsecond : exchanges s file [(.ofInt 2, listing), (.ofInt 3, sum)] = [x] ++ y :: [] := rfl
  have hfile : fileAfter file [x] = file := by
    rw [show fileAfter file [x] = x.file from rfl, file_exchange, handle_of_listHistory hroute]
  have hx := (hruns hfirst).2.bare_iff
  have hy := (hruns hsecond).2.bare_iff
  rw [request_exchange, show fileAfter file [] = file from rfl] at hx
  rw [request_exchange, now_exchange, hfile] at hy
  obtain ⟨hclearing, hanswers⟩ := hdepth hshallow
  have hbroken := (hclearing .clear (.trouble .other)).2 (.inl ⟨hdeep, rfl⟩)
  have hbare := (hanswers (.ofInt 2) deletion).bare_iff.2
    (.inl ⟨hdeep, .inr (Option.isSome_iff_exists.2 ⟨.clear, hdeletion⟩)⟩)
  obtain ⟨hending, htold⟩ := htrouble (Prod.ext hbroken rfl)
  exact ⟨⟨hcall, hwrites⟩, ⟨x, y, hfirst, hx.2 (.inr (.inl ⟨hroute, hstored⟩)),
    hy.2 (.inl ⟨addition, hwriting, hwrites⟩)⟩, ⟨hbroken, hbare⟩, hending,
    htold (.ofInt 2) deletion hdeletion⟩

/-- A note under another key ends in the first half of a pair. The history is neither added to nor
cleared, and what a client is answered has no detail. -/
theorem exists_untold_failure :
    let s : Store := ⟨"calculator.history.v1".toList, 50⟩
    let file : File := .present (String.toUTF8 "\x7b\"note\": \"\\ud83d\"\x7d")
    let entry : Entry := ⟨.ofString "1+1", .ofInt 2, 2000⟩
    let deletion : Request := ⟨"DELETE", "/api/history", []⟩
    (s.add file entry).answer = .error .loneHalf ∧ (s.clear file).answer = .error .loneHalf ∧
      (handle s (.ofInt 2) file deletion).1.status = 500 ∧
      (handle s (.ofInt 2) file deletion).1.content = .text "Internal Server Error" := by
  intro s file entry deletion
  have hadd : (s.add file entry).answer = .error .loneHalf := by decide +kernel
  have hclear : (s.clear file).answer = .error .loneHalf := by decide +kernel
  have hwriting : deletion.writing? (.ofInt 2) = some .clear := by decide +kernel
  have hcall : s.call file .clear = .error .loneHalf := by
    unfold Store.call
    dsimp only
    rw [hclear]
    rfl
  have hwrites := ((s.call_loneHalf_iff file rfl).1 hcall).2
  exact ⟨hadd, hclear, (fails_handle s (.ofInt 2) file deletion).bare_iff.2
    (.inl ⟨.clear, hwriting, hwrites⟩)⟩

end DeskCalculator.Service
