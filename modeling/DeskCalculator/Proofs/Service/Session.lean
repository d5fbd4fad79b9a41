import DeskCalculator.Proofs.Keypad.Length
import DeskCalculator.Proofs.Operand.Limited
import DeskCalculator.Proofs.Service.Exchange

/-!
# Sessions

A client goes on with what it was answered.

* `Answer.values` : what an answer hands out under a name; `Answer.texts` : the expressions among it;
* `KnownText`, `KnownNumber` : what can be taken from the exchanges so far; `Request.Follows` : a
  request that takes its expression and its last result from there; `IsSession` : exchanges of such
  requests;
* `Served` : how they are answered; `served_handle` : after exchanges that were served, a request
  that follows is served; `served_of_isSession` : so are all requests of a session.
-/

namespace DeskCalculator

/-! ## Fields of answers -/

namespace Json

/-- The value of a name in an object. -/
def field? (name : String) : Json → Option Json
  | .object fields => Fields.get? (.ofString name) fields
  | _ => none

/-- The objects listed in an object. -/
def items (v : Json) : List Json :=
  match v.field? "items" with
  | some (.list items) => items
  | _ => []

theorem ofString_inj {s t : String} (h : Text.ofString s = Text.ofString t) : s = t := by
  have hchars := congrArg Text.toChars? h
  unfold Text.ofString at hchars
  rw [Text.toChars?_ofChars, Text.toChars?_ofChars] at hchars
  exact String.toList_inj.1 (Option.some.inj hchars)

@[simp] theorem field?_ofFields (name : String) (fields : List (String × Json)) :
    (ofFields fields).field? name = fields.lookup name := by
  unfold field? ofFields
  dsimp only
  induction fields with
  | nil => rfl
  | cons f rest ih =>
    rw [List.map_cons, Fields.get?, List.lookup_cons, ih]
    by_cases h : name = f.1
    · rw [if_pos (congrArg Text.ofString h.symm), beq_iff_eq.2 h]
    · rw [if_neg fun heq => h (ofString_inj heq).symm, beq_eq_false_iff_ne.2 h]

theorem ofChars_inj {cs ds : List Char} (h : ofChars cs = ofChars ds) : cs = ds := by
  have hchars := congrArg Text.toChars? (Json.text.inj h)
  rw [Text.toChars?_ofChars, Text.toChars?_ofChars] at hchars
  exact Option.some.inj hchars

theorem toReal_int {n : Int} (h : (Binary64.ofInt n).isFinite = true) :
    toReal (.int n) = .ok (.ofInt n) := if_pos h

end Json

namespace Service

/-- What an answer hands out under a name, at its top and in its items. -/
def Answer.values (name : String) (a : Answer) : List Json :=
  match a.content with
  | .json value => (value :: value.items).filterMap (Json.field? name)
  | _ => []

/-- The expressions that an answer hands out. -/
def Answer.texts : Answer → List (List Char)
  | .evaluated expression _ next _ => expression :: next.toList
  | .pressed expression _ => [expression]
  | _ => []

namespace Answer

variable {a : Answer} {value : Json}

theorem exists_of_mem_values_expression (h : value ∈ a.values "expression") :
    ∃ e ∈ a.texts, value = .ofChars e := by
  cases a <;> simp [values, content, Json.items, detailJson, entryJson, List.lookup_cons] at h
  case evaluated e _ next _ => exact ⟨e, List.mem_cons_self, h⟩
  case pressed e _ => exact ⟨e, List.mem_cons_self, h⟩

theorem of_mem_values_next (h : value ∈ a.values "next_expression") :
    value = .null ∨ ∃ e ∈ a.texts, value = .ofChars e := by
  cases a <;> simp [values, content, Json.items, detailJson, entryJson, List.lookup_cons] at h
  case evaluated e _ next _ =>
    cases next with
    | none => exact .inl h
    | some text => exact .inr ⟨text, List.mem_cons_of_mem e List.mem_cons_self, h⟩

theorem isFinite_of_resultJson {v x : Binary64} (h : .real v = resultJson x) :
    v.isFinite = true := by
  unfold resultJson at h
  split at h
  · rename_i hfinite
    rw [Json.real.inj h]
    exact hfinite
  · cases h

/-- A result that is handed out is finite, also one that was found in a file. -/
theorem isFinite_of_mem_values_result {v : Binary64} (h : .real v ∈ a.values "result") :
    v.isFinite = true := by
  cases a <;> simp [values, content, Json.items, detailJson, entryJson, List.lookup_cons] at h
  case evaluated => exact isFinite_of_resultJson h
  case previewed => exact isFinite_of_resultJson h
  case pressed => exact isFinite_of_resultJson h
  case listed entries =>
    obtain ⟨entry, -, hresult⟩ := h
    exact isFinite_of_resultJson hresult.symm

theorem values_result_previewed {x : Binary64} (h : x.isFinite = true) :
    (previewed x).values "result" = [.real x] := by
  simp [values, content, Json.items, resultJson, h, List.lookup_cons]

theorem values_result_pressed (e : List Char) {x : Binary64} (h : x.isFinite = true) :
    (pressed e x).values "result" = [.real x] := by
  simp [values, content, Json.items, resultJson, h, List.lookup_cons]

end Answer

/-! ## What a client goes on with -/

/-- No text, or one that was handed out as an expression. -/
def KnownText (past : List Exchange) (e : List Char) : Prop :=
  e = [] ∨ ∃ x ∈ past, x.answer.status = 200 ∧
    (.ofChars e ∈ x.answer.values "expression" ∨ .ofChars e ∈ x.answer.values "next_expression")

/-- Zero, or a number that was handed out as a result. -/
def KnownNumber (past : List Exchange) (v : Binary64) : Prop :=
  v = .zero false ∨ ∃ x ∈ past, x.answer.status = 200 ∧ .real v ∈ x.answer.values "result"

/-- The expression is known. -/
def SendsText (past : List Exchange) (fields : Fields) : Prop :=
  ∃ value e, Fields.get? (.ofString "expression") fields = some value ∧ value.toChars = .ok e ∧
    KnownText past e

/-- The last result, if there is one, is known. -/
def SendsNumber (past : List Exchange) (fields : Fields) : Prop :=
  ∀ value, Fields.get? (.ofString "last_result") fields = some value →
    ∃ v, value.toReal = .ok v ∧ KnownNumber past v

/-- There is a key, of any characters, that is not empty and not too long. A key with a lone half of
a surrogate pair is none of characters: it is refused, and the answer that would show it fails. -/
def SendsKey (fields : Fields) : Prop :=
  ∃ value key, Fields.get? (.ofString "key") fields = some value ∧ value.toChars = .ok key ∧
    1 ≤ key.length ∧ key.length ≤ maxKeyLength

/-- A request that takes its expression and its last result from the exchanges so far. Nothing is
asked of the requests that have neither. -/
def Request.Follows (past : List Exchange) (r : Request) : Prop :=
  match r.route with
  | .ok .evaluate => ∃ fields, Body.ofChars r.body = .object fields ∧ SendsText past fields
  | .ok .preview => ∃ fields, Body.ofChars r.body = .object fields ∧ SendsText past fields ∧
      SendsNumber past fields
  | .ok .press => ∃ fields, Body.ofChars r.body = .object fields ∧
      (Fields.get? (.ofString "expression") fields = none ∨ SendsText past fields) ∧
      SendsNumber past fields ∧ SendsKey fields
  | _ => True

/-- Exchanges after others, of requests that each follow all exchanges before. -/
def IsSession (past : List Exchange) : List Exchange → Prop
  | [] => True
  | x :: rest => x.request.Follows past ∧ IsSession (past ++ [x]) rest

/-- How a request of a session is answered: never with status 422; a key and a preview with status
200 and a finite result; and no expression is handed out that is too long to be sent back. -/
structure Served (r : Request) (a : Answer) : Prop where
  status : a.status ≠ 422
  result : r.route = .ok .press ∨ r.route = .ok .preview →
    a.status = 200 ∧ ∃ v, v.isFinite = true ∧ a.values "result" = [.real v]
  expression : ∀ value ∈ a.values "expression",
    ∃ e, value = .ofChars e ∧ e.length ≤ maxExpressionLength
  next : ∀ value ∈ a.values "next_expression",
    value = .null ∨ ∃ e, value = .ofChars e ∧ e.length ≤ maxExpressionLength

/-! ## Reading what is sent -/

section Fields

variable {past : List Exchange} {fields : Fields}

theorem KnownText.length_le {e : List Char} (h : KnownText past e)
    (hpast : ∀ x ∈ past, Served x.request x.answer) : e.length ≤ maxExpressionLength := by
  rcases h with rfl | ⟨x, hx, -, hexpression | hnext⟩
  · exact Nat.zero_le _
  · obtain ⟨text, heq, hlength⟩ := (hpast x hx).expression _ hexpression
    rw [Json.ofChars_inj heq]
    exact hlength
  · rcases (hpast x hx).next _ hnext with hnull | ⟨text, heq, hlength⟩
    · cases hnull
    · rw [Json.ofChars_inj heq]
      exact hlength

theorem KnownNumber.isFinite {v : Binary64} (h : KnownNumber past v) : v.isFinite = true := by
  rcases h with rfl | ⟨x, -, -, hresult⟩
  · rfl
  · exact Answer.isFinite_of_mem_values_result hresult

theorem textField_eq_ok (name : String) {shortest longest : Nat} {value : Json} {cs : List Char}
    (h : value.toChars = .ok cs) (hshort : shortest ≤ cs.length) (hlong : cs.length ≤ longest) :
    textField name shortest longest value = .ok cs := by
  unfold textField
  rw [h]
  dsimp only
  rw [if_neg (Nat.not_lt.2 hshort), if_neg (Nat.not_lt.2 hlong)]

theorem SendsText.expressionField (h : SendsText past fields)
    (hpast : ∀ x ∈ past, Served x.request x.answer) :
    ∃ e, e.length ≤ maxExpressionLength ∧
      required "expression" fields Service.expressionField = .ok e ∧
      optional "expression" [] fields Service.expressionField = .ok e := by
  obtain ⟨value, e, hvalue, hchars, hknown⟩ := h
  have hlength := hknown.length_le hpast
  have hfield : Service.expressionField value = .ok e :=
    textField_eq_ok _ hchars (Nat.zero_le _) hlength
  unfold required optional
  rw [hvalue]
  exact ⟨e, hlength, hfield, hfield⟩

theorem SendsNumber.lastResultField (h : SendsNumber past fields) :
    ∃ v, v.isFinite = true ∧ Service.lastResultField fields = .ok v := by
  unfold Service.lastResultField optional
  cases hvalue : Fields.get? (.ofString "last_result") fields with
  | none => exact ⟨.zero false, rfl, rfl⟩
  | some value =>
    obtain ⟨v, hreal, hknown⟩ := h value hvalue
    refine ⟨v, hknown.isFinite, ?_⟩
    dsimp only
    rw [hreal]

theorem SendsKey.keyField (h : SendsKey fields) :
    ∃ key, required "key" fields (textField "key" 1 maxKeyLength) = .ok key := by
  obtain ⟨value, key, hvalue, hchars, hshort, hlong⟩ := h
  refine ⟨key, ?_⟩
  unfold required
  rw [hvalue]
  exact textField_eq_ok _ hchars hshort hlong

end Fields

/-! ## Answering -/

variable {store : Store} {now : Binary64} {file : File} {past : List Exchange} {r : Request}

theorem isFinite_preview (e : List Char) {v : Binary64} (h : v.isFinite = true) :
    (preview e v).isFinite = true := by
  unfold preview
  split
  · rfl
  · split
    · rename_i value hvalue
      exact isFinite_of_evaluate hvalue
    · exact h

theorem withInput_of_read {α : Type} {read : Fields → Except (List Violation) α}
    {reply : α → Answer × File} {fields : Fields} {input : α}
    (hbody : Body.ofChars r.body = .object fields) (hread : read fields = .ok input) :
    withInput r file read reply = reply input := by
  unfold withInput
  rw [hbody]
  dsimp only
  rw [hread]

theorem length_of_mem_texts_evaluatedAnswer {e : List Char} (h : e.length ≤ maxExpressionLength)
    (v : Binary64) : ∀ text ∈ (evaluatedAnswer e v).texts, text.length ≤ maxExpressionLength := by
  unfold evaluatedAnswer
  split
  · rename_i next full hnext hfull
    refine List.forall_mem_cons.2 ⟨h, fun text htext => ?_⟩
    obtain rfl := Option.mem_toList.1 htext
    exact Int.ofNat_le.1 (length_of_operand (by decide) hnext)
  · exact List.forall_mem_nil _

/-- Whatever becomes of an evaluation, it is no violation, and only the expression and the operand
of its value are handed out. -/
theorem evaluateReply_fst (store : Store) (now : Binary64) (file : File) {e : List Char}
    (h : e.length ≤ maxExpressionLength) :
    (evaluateReply store now file e).1.status ≠ 422 ∧
      ∀ text ∈ (evaluateReply store now file e).1.texts, text.length ≤ maxExpressionLength := by
  have hanswer : ∀ v, (evaluatedAnswer e v).status ≠ 422 := by
    intro v
    unfold evaluatedAnswer
    split <;> exact nofun
  have htexts := length_of_mem_texts_evaluatedAnswer h
  unfold evaluateReply
  split
  · split
    · exact ⟨nofun, List.forall_mem_nil _⟩
    · exact ⟨nofun, List.forall_mem_nil _⟩
  · split
    · exact ⟨hanswer _, htexts _⟩
    · dsimp only
      split
      · exact ⟨hanswer _, htexts _⟩
      · split
        · exact ⟨nofun, List.forall_mem_nil _⟩
        · exact ⟨nofun, List.forall_mem_nil _⟩

theorem isFinite_press (e key : List Char) {v : Binary64} (h : v.isFinite = true) :
    (Keypad.Screen.press none ⟨e, v⟩ key).preview.isFinite = true :=
  isFinite_preview _ h

theorem length_press {e : List Char} (h : e.length ≤ maxExpressionLength) (key : List Char)
    (v : Binary64) :
    (Keypad.Screen.press none ⟨e, v⟩ key).expression.length ≤ maxExpressionLength :=
  Keypad.length_press_le_limit rfl (by decide) h key

theorem served_of_texts {a : Answer} (hstatus : a.status ≠ 422)
    (hresult : r.route = .ok .press ∨ r.route = .ok .preview →
      a.status = 200 ∧ ∃ v, v.isFinite = true ∧ a.values "result" = [.real v])
    (htexts : ∀ e ∈ a.texts, e.length ≤ maxExpressionLength) : Served r a where
  status := hstatus
  result := hresult
  expression := fun value hvalue => by
    obtain ⟨e, he, heq⟩ := Answer.exists_of_mem_values_expression hvalue
    exact ⟨e, heq, htexts e he⟩
  next := fun value hvalue => by
    rcases Answer.of_mem_values_next hvalue with hnull | ⟨e, he, heq⟩
    · exact .inl hnull
    · exact .inr ⟨e, heq, htexts e he⟩

theorem served_evaluate (hroute : r.route = .ok .evaluate)
    (hpast : ∀ x ∈ past, Served x.request x.answer) {fields : Fields}
    (hbody : Body.ofChars r.body = .object fields) (htext : SendsText past fields) :
    Served r (withInput r file evaluateInput (evaluateReply store now file)).1 := by
  obtain ⟨e, hlength, hrequired, -⟩ := htext.expressionField hpast
  have hread : evaluateInput fields = .ok e := by
    unfold evaluateInput
    rw [hrequired]
  obtain ⟨hstatus, htexts⟩ := evaluateReply_fst store now file hlength
  rw [withInput_of_read hbody hread]
  exact served_of_texts hstatus (by simp [hroute]) htexts

theorem served_preview (hpast : ∀ x ∈ past, Served x.request x.answer) {fields : Fields}
    (hbody : Body.ofChars r.body = .object fields) (htext : SendsText past fields)
    (hnumber : SendsNumber past fields) :
    Served r (withInput r file previewInput fun input =>
      (.previewed (preview input.expression input.lastResult), file)).1 := by
  obtain ⟨e, hlength, hrequired, -⟩ := htext.expressionField hpast
  obtain ⟨v, hfinite, hlast⟩ := hnumber.lastResultField
  have hread : previewInput fields = .ok ⟨e, v⟩ := by
    unfold previewInput
    rw [hrequired, hlast]
  have hpreview := isFinite_preview e hfinite
  rw [withInput_of_read hbody hread]
  exact served_of_texts nofun
    (fun _ => ⟨rfl, _, hpreview, Answer.values_result_previewed hpreview⟩) (List.forall_mem_nil _)

theorem served_press (hpast : ∀ x ∈ past, Served x.request x.answer) {fields : Fields}
    (hbody : Body.ofChars r.body = .object fields)
    (htext : Fields.get? (.ofString "expression") fields = none ∨ SendsText past fields)
    (hnumber : SendsNumber past fields) (hkey : SendsKey fields) :
    Served r (withInput r file pressInput fun input =>
      let screen := Keypad.Screen.press none ⟨input.expression, input.lastResult⟩ input.key
      (.pressed screen.expression screen.preview, file)).1 := by
  obtain ⟨e, hlength, hoptional⟩ : ∃ e, e.length ≤ maxExpressionLength ∧
      optional "expression" [] fields expressionField = .ok e := by
    rcases htext with hnone | htext
    · refine ⟨[], Nat.zero_le _, ?_⟩
      unfold optional
      rw [hnone]
    · obtain ⟨e, hlength, -, hoptional⟩ := htext.expressionField hpast
      exact ⟨e, hlength, hoptional⟩
  obtain ⟨v, hfinite, hlast⟩ := hnumber.lastResultField
  obtain ⟨key, hkey⟩ := hkey.keyField
  have hread : pressInput fields = .ok ⟨e, key, v⟩ := by
    unfold pressInput
    rw [hoptional, hkey, hlast]
  have hpreview := isFinite_press e key hfinite
  rw [withInput_of_read hbody hread]
  exact served_of_texts nofun
    (fun _ => ⟨rfl, _, hpreview, Answer.values_result_pressed _ hpreview⟩)
    (List.forall_mem_singleton.2 (length_press hlength key v))

/-! ## Requests without input -/

theorem route_eq_error {answer : Answer} (h : r.route = .error answer) :
    answer = .notFound ∨ answer = .notAllowed := by
  unfold Request.route at h
  split at h
  · exact .inl (Except.error.inj h).symm
  · split at h
    · cases h
    · exact .inr (Except.error.inj h).symm

theorem listReply_fst (store : Store) (file : File) :
    (listReply store file).1.status ≠ 422 ∧ (listReply store file).1.texts = [] := by
  unfold listReply listedAnswer
  split
  · dsimp only
    split <;> exact ⟨nofun, rfl⟩
  · exact ⟨nofun, rfl⟩

theorem clearReply_fst (store : Store) (file : File) :
    (clearReply store file).1.status ≠ 422 ∧ (clearReply store file).1.texts = [] := by
  unfold clearReply
  dsimp only
  split
  · exact ⟨nofun, rfl⟩
  · split <;> exact ⟨nofun, rfl⟩

theorem served_of_texts_eq_nil {a : Answer} (hpress : r.route ≠ .ok .press)
    (hpreview : r.route ≠ .ok .preview) (h : a.status ≠ 422 ∧ a.texts = []) : Served r a :=
  served_of_texts h.1 (fun hroute => (hroute.elim hpress hpreview).elim)
    (h.2 ▸ List.forall_mem_nil _)

/-! ## Runs -/

/-- **One request.** After exchanges that were served, a request that follows them is. -/
theorem served_handle (store : Store) (now : Binary64) (file : File)
    (hpast : ∀ x ∈ past, Served x.request x.answer) (h : r.Follows past) :
    Served r (handle store now file r).1 := by
  unfold Request.Follows at h
  unfold handle
  cases hroute : r.route with
  | error answer =>
    refine served_of_texts_eq_nil (by simp [hroute]) (by simp [hroute]) ?_
    rcases route_eq_error hroute with rfl | rfl
    · exact ⟨nofun, rfl⟩
    · exact ⟨nofun, rfl⟩
  | ok route =>
    rw [hroute] at h
    cases route with
    | health => exact served_of_texts_eq_nil (by simp [hroute]) (by simp [hroute]) ⟨nofun, rfl⟩
    | evaluate =>
      obtain ⟨fields, hbody, htext⟩ := h
      exact served_evaluate hroute hpast hbody htext
    | preview =>
      obtain ⟨fields, hbody, htext, hnumber⟩ := h
      exact served_preview hpast hbody htext hnumber
    | press =>
      obtain ⟨fields, hbody, htext, hnumber, hkey⟩ := h
      exact served_press hpast hbody htext hnumber hkey
    | listHistory =>
      exact served_of_texts_eq_nil (by simp [hroute]) (by simp [hroute]) (listReply_fst store file)
    | clearHistory =>
      exact served_of_texts_eq_nil (by simp [hroute]) (by simp [hroute]) (clearReply_fst store file)

theorem request_exchange (store : Store) (file : File) (now : Binary64) (r : Request) :
    (exchange store file now r).request = r := rfl

theorem served_exchanges {rs : List (Binary64 × Request)}
    (hpast : ∀ x ∈ past, Served x.request x.answer) (h : IsSession past (exchanges store file rs)) :
    ∀ x ∈ exchanges store file rs, Served x.request x.answer := by
  induction rs generalizing past file with
  | nil => exact List.forall_mem_nil _
  | cons q rs ih =>
    obtain ⟨hfollows, hrest⟩ := h
    have hserved : Served (exchange store file q.1 q.2).request (exchange store file q.1 q.2).answer := by
      rw [request_exchange] at hfollows ⊢
      rw [answer_exchange]
      exact served_handle store q.1 file hpast hfollows
    unfold exchanges
    dsimp only
    generalize exchange store file q.1 q.2 = x at hserved hrest
    have hall : ∀ y ∈ past ++ [x], Served y.request y.answer := by
      intro y hy
      rcases List.mem_append.1 hy with hy | hy
      · exact hpast y hy
      · obtain rfl := List.mem_singleton.1 hy
        exact hserved
    exact List.forall_mem_cons.2 ⟨hserved, ih hall hrest⟩

/-- **A session goes on.** Let requests be handled in turn, over any history file, and let each of
them take its expression and its last result from the answers before it, and press any key. Then
none is answered with status 422. Keys and previews are answered with status 200 and a finite
result, and every expression that is handed out is short enough to be sent back. Files and bodies
are read to any depth of nesting. -/
theorem served_of_isSession {store : Store} {file : File} {rs : List (Binary64 × Request)}
    (h : IsSession [] (exchanges store file rs)) :
    ∀ x ∈ exchanges store file rs, Served x.request x.answer :=
  served_exchanges (List.forall_mem_nil _) h

/-- Dividing leaves the expression without a value, so that the result of the answer before stands
in for it. -/
theorem served_of_isSession_fallback :
    let store : Store := ⟨"history".toList, 5⟩
    let digit : Request := ⟨"POST", "/api/input", "\x7b\"key\": \"7\"\x7d".toList⟩
    let division : Request := ⟨"POST", "/api/input",
      "\x7b\"expression\": \"7\", \"key\": \"/\", \"last_result\": 7\x7d".toList⟩
    let xs := exchanges store .missing [(.ofInt 2, digit), (.ofInt 3, division)]
    IsSession [] xs ∧ ∀ x ∈ xs, Served x.request x.answer := by
  intro store digit division xs
  have hlookup : (routesOf (barePath "/api/input")).lookup "POST" = some .press := by
    decide +kernel
  have hroute : ∀ body, Request.route ⟨"POST", "/api/input", body⟩ = .ok .press :=
    fun _ => route_of_lookup hlookup
  have hdigitBody : Body.ofChars digit.body = .object [(.ofString "key", .ofString "7")] := by rfl
  have hdivisionBody : Body.ofChars division.body = .object [(.ofString "expression", .ofString "7"),
      (.ofString "key", .ofString "/"), (.ofString "last_result", .int 7)] := by rfl
  let first := exchange store .missing (.ofInt 2) digit
  have hfinite : (Binary64.ofInt 7).isFinite = true := by decide +kernel
  have hfirst : first.answer = .pressed ['7'] (.ofInt 7) := by
    have hread : pressInput [(.ofString "key", .ofString "7")] = .ok ⟨[], ['7'], .zero false⟩ := rfl
    have hscreen : Keypad.Screen.press none ⟨[], .zero false⟩ ['7'] = ⟨['7'], .ofInt 7⟩ := by
      decide +kernel
    refine (answer_exchange store .missing (.ofInt 2) digit).trans ?_
    unfold handle
    rw [hroute]
    dsimp only
    rw [withInput_of_read hdigitBody hread]
    dsimp only
    rw [hscreen]
  have htext : KnownText [first] ['7'] := by
    refine .inr ⟨first, List.mem_singleton_self _, ?_⟩
    rw [hfirst]
    exact ⟨rfl, .inl (by simp [Answer.values, Answer.content, Json.items, List.lookup_cons])⟩
  have hnumber : KnownNumber [first] (.ofInt 7) := by
    refine .inr ⟨first, List.mem_singleton_self _, ?_⟩
    rw [hfirst, Answer.values_result_pressed _ hfinite]
    exact ⟨rfl, List.mem_singleton_self _⟩
  have hdigit : digit.Follows [] := by
    unfold Request.Follows
    rw [hroute]
    exact ⟨_, hdigitBody, .inl rfl, nofun, .ofString "7", ['7'], rfl, rfl, by decide, by decide⟩
  have hdivision : division.Follows [first] := by
    unfold Request.Follows
    rw [hroute]
    refine ⟨_, hdivisionBody, .inr ⟨.ofString "7", ['7'], rfl, rfl, htext⟩, ?_,
      .ofString "/", ['/'], rfl, rfl, by decide, by decide⟩
    rintro value hvalue
    obtain rfl := Option.some.inj hvalue
    exact ⟨.ofInt 7, Json.toReal_int hfinite, hnumber⟩
  have hsession : IsSession [] xs := ⟨hdigit, hdivision, trivial⟩
  exact ⟨hsession, served_of_isSession hsession⟩

end Service

end DeskCalculator
