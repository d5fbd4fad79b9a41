import DeskCalculator.Proofs.Display.Rounding
import DeskCalculator.Proofs.Service.History
import DeskCalculator.Proofs.Service.Refused
import DeskCalculator.Proofs.Service.Session

/-!
# Which answers show numbers

* `displayWords` : what is displayed where there is no number; `display_mem_words_iff`;
* `Answer.numbers` : the values that an answer is about; `Answer.ShowsNumbers` : its results are
  numbers, and none of its displays is a word; `Answer.showsNumbers_iff` : then all values are finite;
* `Request.previewed?` : what a request has previewed; `Request.fallback?` : its last result, where that
  stands in for the value of the expression;
* `numbers_handle` : a last result that stands in is the one value of the answer; without one all
  values are finite, if those in the history are;
* `showsNumbers_exchanges` : so over a missing file an answer shows numbers, unless a last result that
  is not finite stands in.
-/

namespace DeskCalculator

/-! ## Words -/

/-- What is displayed where there is no number. -/
def displayWords : List (List Char) := ["NaN".toList, "Infinity".toList, "-Infinity".toList]

/-- A number is displayed by a text that denotes one, and no word does. -/
theorem display_mem_words_iff (v : Binary64) : display v ∈ displayWords ↔ v.isFinite = false := by
  cases v with
  | nan => exact iff_of_true (by decide) rfl
  | infinite negative =>
    refine iff_of_true ?_ rfl
    cases negative <;> decide
  | finite negative rank =>
    refine iff_of_false (fun hword => ?_) Bool.noConfusion
    have hnone : ∀ word ∈ displayWords, denoted? word = none := by
      simp only [displayWords, List.forall_mem_cons]
      exact ⟨rfl, rfl, rfl, List.forall_mem_nil _⟩
    have hsome := hnone _ hword
    rw [denoted?_display] at hsome
    cases hsome

namespace Service

/-! ## Values of answers -/

namespace Answer

/-- The values that an answer is about. -/
def numbers : Answer → List Binary64
  | .evaluated _ result _ _ => [result]
  | .previewed result => [result]
  | .pressed _ result => [result]
  | .listed entries => entries.map Entry.result
  | _ => []

variable {a : Answer}

theorem values_result (a : Answer) : a.values "result" = a.numbers.map resultJson := by
  cases a <;>
    simp [values, content, numbers, Json.items, detailJson, entryJson, List.lookup_cons,
      List.filterMap_map, Function.comp_def]

theorem values_display (a : Answer) :
    a.values "display" = a.numbers.map fun v => .ofChars (display v) := by
  cases a <;>
    simp [values, content, numbers, Json.items, detailJson, entryJson, List.lookup_cons,
      List.filterMap_map, Function.comp_def]

/-- Every result is a number, and no display is a word. -/
structure ShowsNumbers (a : Answer) : Prop where
  result : ∀ value ∈ a.values "result", ∃ v, v.isFinite = true ∧ value = .real v
  display : ∀ value ∈ a.values "display", ∀ word ∈ displayWords, value ≠ .ofChars word

theorem showsNumbers_iff : a.ShowsNumbers ↔ ∀ v ∈ a.numbers, v.isFinite = true := by
  constructor
  · intro h v hv
    by_contra hinfinite
    rw [Bool.not_eq_true] at hinfinite
    refine h.display (.ofChars (DeskCalculator.display v)) ?_ _
      ((display_mem_words_iff v).2 hinfinite) rfl
    rw [values_display]
    exact List.mem_map_of_mem hv
  · intro h
    refine ⟨fun value hvalue => ?_, fun value hvalue word hword heq => ?_⟩
    · rw [values_result] at hvalue
      obtain ⟨v, hv, rfl⟩ := List.mem_map.1 hvalue
      exact ⟨v, h v hv, if_pos (h v hv)⟩
    · rw [values_display] at hvalue
      obtain ⟨v, hv, rfl⟩ := List.mem_map.1 hvalue
      rw [← Json.ofChars_inj heq, display_mem_words_iff, h v hv] at hword
      cases hword

end Answer

/-! ## The last result -/

/-- The last result, where it stands in for the value of an expression. -/
def PreviewInput.fallback? (input : PreviewInput) : Option Binary64 :=
  if isBlankText input.expression then none
  else match evaluate input.expression with
    | .ok _ => none
    | .error _ => some input.lastResult

/-- What a request has previewed: an expression, as it is sent or after a key, and a last result. -/
def Request.previewed? (r : Request) : Option PreviewInput :=
  match r.route, Body.ofChars r.body with
  | .ok .preview, .object fields => (previewInput fields).toOption
  | .ok .press, .object fields =>
    (pressInput fields).toOption.map fun input =>
      ⟨Keypad.press none input.expression input.key, input.lastResult⟩
  | _, _ => none

/-- The last result of a request, where it stands in for the value of an expression. -/
def Request.fallback? (r : Request) : Option Binary64 :=
  r.previewed?.bind PreviewInput.fallback?

section Fallback

variable {input : PreviewInput}

theorem preview_of_fallback? {v : Binary64} (h : input.fallback? = some v) :
    preview input.expression input.lastResult = v := by
  unfold PreviewInput.fallback? at h
  unfold preview
  by_cases hblank : isBlankText input.expression = true
  · rw [if_pos hblank] at h
    cases h
  · rw [if_neg hblank] at h ⊢
    cases hvalue : evaluate input.expression with
    | ok value =>
      rw [hvalue] at h
      cases h
    | error fault =>
      rw [hvalue] at h
      exact Option.some.inj h

theorem isFinite_preview_of_fallback? (h : input.fallback? = none) :
    (preview input.expression input.lastResult).isFinite = true := by
  unfold PreviewInput.fallback? at h
  unfold preview
  by_cases hblank : isBlankText input.expression = true
  · rw [if_pos hblank]
    rfl
  · rw [if_neg hblank] at h ⊢
    cases hvalue : evaluate input.expression with
    | ok value => exact isFinite_of_evaluate hvalue
    | error fault =>
      rw [hvalue] at h
      cases h

end Fallback

/-! ## Handling -/

variable {store : Store} {now : Binary64} {file : File} {r : Request}

/-- What is previewed is the one value of the answer. -/
theorem numbers_of_previewed? {input : PreviewInput} (h : r.previewed? = some input)
    (store : Store) (now : Binary64) (file : File) :
    (handle store now file r).1.status = 200 ∧
      (handle store now file r).1.numbers = [preview input.expression input.lastResult] := by
  unfold Request.previewed? at h
  unfold handle
  split at h
  · rename_i fields hroute hbody
    rw [hroute]
    cases hread : previewInput fields with
    | error violations =>
      rw [hread] at h
      cases h
    | ok sent =>
      rw [hread] at h
      obtain rfl := Option.some.inj h
      dsimp only
      rw [withInput_of_read hbody hread]
      exact ⟨rfl, rfl⟩
  · rename_i fields hroute hbody
    rw [hroute]
    cases hread : pressInput fields with
    | error violations =>
      rw [hread] at h
      cases h
    | ok sent =>
      rw [hread] at h
      obtain rfl := Option.some.inj h
      dsimp only
      rw [withInput_of_read hbody hread]
      exact ⟨rfl, rfl⟩
  · cases h

theorem numbers_refuse (violations : List Violation) : (refuse violations).numbers = [] := by
  unfold refuse
  split <;> rfl

theorem isFinite_of_mem_numbers_withInput {α : Type} {read : Fields → Except (List Violation) α}
    {reply : α → Answer × File} (h : ∀ fields input, Body.ofChars r.body = .object fields →
      read fields = .ok input → ∀ v ∈ (reply input).1.numbers, v.isFinite = true) :
    ∀ v ∈ (withInput r file read reply).1.numbers, v.isFinite = true := by
  have hreceives := receives_withInput r file read reply
  generalize withInput r file read reply = received at hreceives
  cases hreceives with
  | read hbody hread => exact h _ _ hbody hread
  | unparsable => exact List.forall_mem_nil _
  | refused =>
    rw [numbers_refuse]
    exact List.forall_mem_nil _

theorem numbers_clearReply (store : Store) (file : File) :
    (clearReply store file).1.numbers = [] := by
  unfold clearReply
  dsimp only
  split
  · rfl
  · split <;> rfl

theorem isFinite_of_mem_numbers_evaluateReply (store : Store) (now : Binary64) (file : File)
    (e : List Char) : ∀ v ∈ (evaluateReply store now file e).1.numbers, v.isFinite = true := by
  have hanswer : ∀ v, evaluate e = .ok v →
      ∀ w ∈ (evaluatedAnswer e v).numbers, w.isFinite = true := by
    intro v hv
    unfold evaluatedAnswer
    split
    · exact List.forall_mem_singleton.2 (isFinite_of_evaluate hv)
    · exact List.forall_mem_nil _
  unfold evaluateReply
  split
  · split <;> exact List.forall_mem_nil _
  · rename_i v hv
    split
    · exact hanswer v hv
    · dsimp only
      split
      · exact hanswer v hv
      · split <;> exact List.forall_mem_nil _

/-- Where nothing is previewed, the values of an answer are finite, if those in the history are. -/
theorem isFinite_of_mem_numbers (hstored : ∀ e ∈ store.stored file, e.result.isFinite = true)
    (h : r.previewed? = none) :
    ∀ v ∈ (handle store now file r).1.numbers, v.isFinite = true := by
  unfold Request.previewed? at h
  unfold handle
  cases hroute : r.route with
  | error answer =>
    rcases route_eq_error hroute with rfl | rfl <;> exact List.forall_mem_nil _
  | ok route =>
    rw [hroute] at h
    cases route with
    | health => exact List.forall_mem_nil _
    | evaluate =>
      exact isFinite_of_mem_numbers_withInput fun _ input _ _ =>
        isFinite_of_mem_numbers_evaluateReply store now file input
    | preview =>
      refine isFinite_of_mem_numbers_withInput fun fields input hbody hread => ?_
      rw [hbody] at h
      dsimp only at h
      rw [hread] at h
      cases h
    | press =>
      refine isFinite_of_mem_numbers_withInput fun fields input hbody hread => ?_
      rw [hbody] at h
      dsimp only at h
      rw [hread] at h
      cases h
    | listHistory =>
      dsimp only
      unfold listReply listedAnswer
      rw [Store.answer_load]
      dsimp only
      split
      · exact List.forall_mem_map.2 hstored
      · exact List.forall_mem_nil _
    | clearHistory =>
      dsimp only
      rw [numbers_clearReply]
      exact List.forall_mem_nil _

/-- **One request.** Where no last result stands in, the values of an answer are finite, if those in
the history are; else it is the one value. -/
theorem numbers_handle (now : Binary64) (r : Request)
    (hstored : ∀ e ∈ store.stored file, e.result.isFinite = true) :
    (r.fallback? = none → ∀ v ∈ (handle store now file r).1.numbers, v.isFinite = true) ∧
      ∀ v ∈ r.fallback?, (handle store now file r).1.status = 200 ∧
        (handle store now file r).1.numbers = [v] := by
  unfold Request.fallback?
  cases hpreviewed : r.previewed? with
  | none => exact ⟨fun _ => isFinite_of_mem_numbers hstored hpreviewed, nofun⟩
  | some input =>
    obtain ⟨hstatus, hnumbers⟩ := numbers_of_previewed? hpreviewed store now file
    rw [hnumbers]
    refine ⟨fun hnone => ?_, fun v hv => ⟨hstatus, ?_⟩⟩
    · exact List.forall_mem_singleton.2 (isFinite_preview_of_fallback? hnone)
    · rw [preview_of_fallback? hv]

/-! ## Runs -/

/-- The history of a run from a missing file on holds finite results. -/
theorem isFinite_of_mem_stored {store : Store} {rs : List (Binary64 × Request)}
    {past future : List Exchange} {x : Exchange}
    (h : exchanges store .missing rs = past ++ x :: future) :
    ∀ e ∈ store.stored (fileAfter .missing past), e.result.isFinite = true := by
  obtain ⟨hrun, -, hfinite, -⟩ := run_exchanges File.isSound_missing h
  intro e he
  rw [Store.stored_run hrun] at he
  rcases Store.Call.of_mem_foldl_kept he with hmissing | ⟨c, hc, hentry⟩
  · cases hmissing
  · obtain ⟨y, hy, rfl⟩ := List.mem_map.1 hc
    rw [Exchange.entry?_call] at hentry
    exact hfinite y hy e hentry

/-- **Only a last result that is not finite is shown as no number.** Let requests of any kind be
handled in turn, over a file that is missing at the start. An answer shows numbers alone if and only
if no last result that was sent as an infinity or as not-a-number stands in for the value of an
expression. Where one does, the answer has status 200, its result is null, and its display is the
word for what was sent. -/
theorem showsNumbers_exchanges (store : Store) (rs : List (Binary64 × Request)) :
    ∀ x ∈ exchanges store .missing rs,
      (x.answer.ShowsNumbers ↔ ∀ v ∈ x.request.fallback?, v.isFinite = true) ∧
      ∀ v ∈ x.request.fallback?, v.isFinite = false →
        x.answer.status = 200 ∧ x.answer.values "result" = [.null] ∧
        x.answer.values "display" = [.ofChars (display v)] ∧ display v ∈ displayWords := by
  intro x hx
  obtain ⟨past, future, h⟩ := List.append_of_mem hx
  have hstored := isFinite_of_mem_stored h
  have heq := eq_exchange h
  rw [Answer.showsNumbers_iff, Answer.values_result, Answer.values_display, heq, answer_exchange,
    request_exchange]
  obtain ⟨hfinite, hsent⟩ := numbers_handle x.now x.request hstored
  cases hfallback : x.request.fallback? with
  | none => exact ⟨iff_of_true (hfinite hfallback) nofun, nofun⟩
  | some v =>
    obtain ⟨hstatus, hnumbers⟩ := hsent v hfallback
    rw [hnumbers]
    refine ⟨by simp, fun w hw hinfinite => ?_⟩
    obtain rfl := Option.some.inj hw
    have hjson : resultJson v = .null := by
      unfold resultJson
      rw [hinfinite, if_neg Bool.false_ne_true]
    exact ⟨hstatus, congrArg (fun j => [j]) hjson, rfl, (display_mem_words_iff v).2 hinfinite⟩

/-- A product that lacks an operand is previewed twice. Its first fallback is shown as it is, and the
second one is no number. -/
theorem showsNumbers_exchanges_product :
    let store : Store := ⟨"history".toList, 5⟩
    let finite : Request :=
      ⟨"POST", "/api/preview", "\x7b\"expression\": \"2*\", \"last_result\": 2\x7d".toList⟩
    let infinite : Request :=
      ⟨"POST", "/api/preview", "\x7b\"expression\": \"2*\", \"last_result\": -1e999\x7d".toList⟩
    ∃ x y, exchanges store .missing [(.ofInt 2, finite), (.ofInt 3, infinite)] = [x, y] ∧
      x.answer.ShowsNumbers ∧ ¬y.answer.ShowsNumbers ∧ y.answer.values "result" = [.null] ∧
      y.answer.values "display" = [.ofString "-Infinity"] := by
  intro store finite infinite
  have hfinite : finite.fallback? = some (.ofInt 2) := by decide +kernel
  have hinfinite : infinite.fallback? = some (.infinite true) := by decide +kernel
  let x := exchange store .missing (.ofInt 2) finite
  let y := exchange store x.file (.ofInt 3) infinite
  have hrun : exchanges store .missing [(.ofInt 2, finite), (.ofInt 3, infinite)] = [x, y] := rfl
  have hall := showsNumbers_exchanges store [(.ofInt 2, finite), (.ofInt 3, infinite)]
  rw [hrun] at hall
  obtain ⟨hx, -⟩ := hall x List.mem_cons_self
  obtain ⟨hy, hword⟩ := hall y (List.mem_cons_of_mem x List.mem_cons_self)
  rw [request_exchange, hfinite] at hx
  rw [request_exchange, hinfinite] at hy hword
  obtain ⟨-, hresult, hdisplay, -⟩ := hword _ rfl rfl
  refine ⟨x, y, hrun, hx.2 ?_, fun hshows => ?_, hresult, hdisplay⟩
  · rintro v hv
    obtain rfl := Option.some.inj hv
    decide +kernel
  · exact absurd (hy.1 hshows _ rfl) Bool.false_ne_true

/-- An infinity comes back. -/
theorem exists_infinity_displayed :
    let store : Store := ⟨"calculator.history.v1".toList, 50⟩
    let r : Request :=
      ⟨"POST", "/api/preview", "\x7b\"expression\": \"2+\", \"last_result\": 1e999\x7d".toList⟩
    ∃ x, exchanges store .missing [(.ofInt 2, r)] = [x] ∧ x.answer.status = 200 ∧
      x.answer.values "result" = [.null] ∧
      x.answer.values "display" = [.ofString "Infinity"] := by
  intro store r
  have hfallback : r.fallback? = some (.infinite false) := by decide +kernel
  have hempty : ∀ e ∈ store.stored .missing, e.result.isFinite = true := nofun
  obtain ⟨hstatus, hnumbers⟩ := (numbers_handle (.ofInt 2) r hempty).2 _ hfallback
  rw [← answer_exchange] at hstatus hnumbers
  refine ⟨_, rfl, hstatus, ?_, ?_⟩
  · rw [Answer.values_result, hnumbers]
    rfl
  · rw [Answer.values_display, hnumbers]
    rfl

end Service

end DeskCalculator
