import DeskCalculator.Proofs.Expression.Acceptance
import DeskCalculator.Proofs.Expression.Safety
import DeskCalculator.Proofs.History.Store
import DeskCalculator.Service.Handle

/-!
# Exchanges with the service

* `Exchange` : a request with its clock reading, its answer and the file after it; `exchanges` : the
  exchanges of requests in turn (`map_exchanges`);
* `Request.expression?` : the expression of a request to evaluate; `Exchange.recorded?` : the entry
  of an exchange that evaluated one which is not blank (`Exchange.isWhole_of_recorded?`);
* `Exchange.call` : the call of the store that an exchange comes to; `call_exchange`,
  `run_exchanges` : on a sound file the store's call does to it what the service does;
* `listedAnswer_of_isWhole`, `listedAnswer_of_not_isWhole` : only entries without lone halves are
  listed.
-/

namespace DeskCalculator.Service

/-! ## Exchanges -/

structure Exchange where
  now : Binary64
  request : Request
  answer : Answer
  /-- What is found at the history's path afterwards. -/
  file : File

/-- The exchange that a request leads to. -/
def exchange (store : Store) (file : File) (now : Binary64) (r : Request) : Exchange :=
  let reply := handle store now file r
  ⟨now, r, reply.1, reply.2⟩

theorem answer_exchange (store : Store) (file : File) (now : Binary64) (r : Request) :
    (exchange store file now r).answer = (handle store now file r).1 := by
  unfold exchange
  dsimp only

theorem file_exchange (store : Store) (file : File) (now : Binary64) (r : Request) :
    (exchange store file now r).file = (handle store now file r).2 := by
  unfold exchange
  dsimp only

/-- The exchanges that requests in turn lead to. -/
def exchanges (store : Store) (file : File) : List (Binary64 × Request) → List Exchange
  | [] => []
  | (now, r) :: rest =>
    let x := exchange store file now r
    x :: exchanges store x.file rest

theorem map_exchanges (store : Store) (file : File) (rs : List (Binary64 × Request)) :
    (exchanges store file rs).map (fun x => (x.answer, x.file)) = handleAll store file rs := by
  induction rs generalizing file with
  | nil => rfl
  | cons q rs ih =>
    unfold exchanges handleAll exchange
    dsimp only
    generalize handle store q.1 file q.2 = reply
    rw [List.map_cons, ih]

/-- What is found at the path after the exchanges. -/
def fileAfter (file : File) (past : List Exchange) : File := past.foldl (fun _ x => x.file) file

theorem fileAfter_concat (file : File) (past : List Exchange) (x : Exchange) :
    fileAfter file (past ++ [x]) = x.file := by
  unfold fileAfter
  rw [List.foldl_append, List.foldl_cons, List.foldl_nil]

/-! ## What is recorded -/

theorem route_of_lookup {r : Request} {route : Route}
    (h : (routesOf (barePath r.path)).lookup r.method = some route) : r.route = .ok route := by
  unfold Request.route
  split
  · rename_i hroutes
    rw [hroutes] at h
    cases h
  · rw [h]

/-- The expression of a request to evaluate one. -/
def Request.expression? (r : Request) : Option (List Char) :=
  match r.route, Body.ofChars r.body with
  | .ok .evaluate, .object fields => (evaluateInput fields).toOption
  | _, _ => none

namespace Exchange

/-- The entry of an exchange that evaluated an expression which is not blank: the expression of the
request, the result of the answer, and the time of the clock. -/
def recorded? (x : Exchange) : Option Entry :=
  match x.request.expression?, x.answer with
  | some expression, .evaluated _ result _ _ =>
    if isBlankText expression then none else some ⟨.ofChars expression, result, milliseconds x.now⟩
  | _, _ => none

/-- Whether the request was to clear the history. -/
def clears (x : Exchange) : Bool :=
  match x.request.route with
  | .ok .clearHistory => true
  | _ => false

/-- The call of the store that the exchange comes to. -/
def call (x : Exchange) : Store.Call :=
  if x.clears then .clear
  else match x.recorded? with
    | some e => .add e.expression e.result x.now
    | none => .load

theorem isWhole_of_recorded? {x : Exchange} {e : Entry} (h : x.recorded? = some e) : e.IsWhole := by
  unfold recorded? at h
  split at h
  · split at h
    · cases h
    · obtain rfl := Option.some.inj h
      exact Entry.isWhole_ofChars _ _ _
  · cases h

theorem isWhole_call (x : Exchange) : x.call.IsWhole := by
  unfold call
  cases x.clears with
  | true => exact Store.Call.isWhole_clear
  | false =>
    cases h : x.recorded? with
    | none => exact Store.Call.isWhole_load
    | some entry =>
      rintro e ⟨⟩
      exact show entry.IsWhole from isWhole_of_recorded? h

theorem call_of_recorded?_eq_none {x : Exchange} (hclears : x.clears = false)
    (h : x.recorded? = none) : x.call = .load := by
  unfold call
  rw [hclears, h]
  rfl

end Exchange

/-! ## Evaluating -/

theorem evaluatedAnswer_of_isFinite {v : Binary64} (h : v.isFinite = true) (e : List Char) :
    ∃ next exact, evaluatedAnswer e v = .evaluated e v next exact := by
  obtain ⟨negative, rank, rfl⟩ := Binary64.exists_finite h
  unfold evaluatedAnswer operand
  exact ⟨_, _, rfl⟩

/-- How evaluating ends: the call of the store, and the answer. -/
inductive Evaluates (store : Store) (now : Binary64) (file : File) (e : List Char) :
    Answer × File → Prop
  | recorded {v : Binary64} {next : Option (List Char)} {exact : Bool} {file' : File}
      (h : evaluate e = .ok v) (hblank : isBlankText e = false)
      (hcall : store.call file (.add (.ofChars e) v now) = .ok file') :
      Evaluates store now file e (.evaluated e v next exact, file')
  | blank {v : Binary64} {next : Option (List Char)} {exact : Bool}
      (h : evaluate e = .ok v) (hblank : isBlankText e = true) :
      Evaluates store now file e (.evaluated e v next exact, file)
  | rejected {fault : Fault} {report : Report} (h : evaluate e = .error fault)
      (hreport : fault.report? = some report) :
      Evaluates store now file e (.rejected report, file)

theorem evaluates_evaluateReply {file : File} (hfile : file.IsSound) (store : Store)
    (now : Binary64) (e : List Char) :
    Evaluates store now file e (evaluateReply store now file e) := by
  unfold evaluateReply
  cases h : evaluate e with
  | error fault =>
    obtain ⟨report, hreport⟩ := Option.isSome_iff_exists.1 (report?_isSome_of_evaluate h)
    dsimp only
    rw [hreport]
    exact .rejected h hreport
  | ok v =>
    obtain ⟨next, exact, hanswer⟩ := evaluatedAnswer_of_isFinite (isFinite_of_evaluate h) e
    dsimp only
    rw [hanswer]
    split
    · rename_i hblank
      exact .blank h hblank
    · rename_i hblank
      obtain ⟨file', hcall, -⟩ := store.exists_call hfile (Store.Call.isWhole_add e v now)
      have hadd := hcall
      unfold Store.call at hadd
      dsimp only at hadd
      split
      · rename_i entry hok
        rw [hok] at hadd
        obtain rfl := Except.ok.inj hadd
        exact .recorded h (Bool.not_eq_true _ ▸ hblank) hcall
      · rename_i fault herror
        rw [herror] at hadd
        cases hadd

/-! ## Handling -/

variable {store : Store} {now : Binary64} {file : File} {r : Request}

theorem handle_of_expression? {e : List Char} (h : r.expression? = some e) (store : Store)
    (now : Binary64) (file : File) :
    r.route = .ok .evaluate ∧ handle store now file r = evaluateReply store now file e := by
  unfold Request.expression? at h
  split at h
  · rename_i fields hroute hbody
    refine ⟨hroute, ?_⟩
    unfold handle withInput
    rw [hroute, hbody]
    dsimp only
    cases hinput : evaluateInput fields with
    | error violations =>
      rw [hinput] at h
      cases h
    | ok input =>
      rw [hinput] at h
      obtain rfl := Option.some.inj h
      rfl
  · cases h

theorem withInput_snd {α : Type} (read : Fields → Except (List Violation) α)
    {reply : α → Answer × File} (h : ∀ input, (reply input).2 = file) :
    (withInput r file read reply).2 = file := by
  unfold withInput
  split
  · rfl
  · rfl
  · split
    · rfl
    · exact h _

/-- Nothing but an expression to evaluate, or clearing the history, changes the file. -/
theorem handle_snd (hclear : r.route ≠ .ok .clearHistory) (h : r.expression? = none) :
    (handle store now file r).2 = file := by
  unfold handle
  cases hroute : r.route with
  | error answer => rfl
  | ok route =>
    cases route with
    | health => rfl
    | preview => exact withInput_snd _ fun _ => rfl
    | press => exact withInput_snd _ fun _ => rfl
    | listHistory => rfl
    | clearHistory => exact absurd hroute hclear
    | evaluate =>
      unfold Request.expression? at h
      rw [hroute] at h
      show (withInput r file evaluateInput (evaluateReply store now file)).2 = file
      unfold withInput
      cases hbody : Body.ofChars r.body with
      | unparsable => rfl
      | violation v => rfl
      | object fields =>
        rw [hbody] at h
        dsimp only at h ⊢
        cases hinput : evaluateInput fields with
        | error violations => rfl
        | ok input =>
          rw [hinput] at h
          cases h

theorem handle_of_clearHistory (hroute : r.route = .ok .clearHistory) :
    handle store now file r = clearReply store file := by
  unfold handle
  rw [hroute]

theorem listedAnswer_of_isWhole {es : List Entry} (h : ∀ e ∈ es, e.IsWhole) :
    listedAnswer es = .listed es := by
  refine if_pos (List.all_eq_true.2 fun e he => ?_)
  exact Text.isSome_toChars?_iff.2 (h e he)

theorem listedAnswer_of_not_isWhole {es : List Entry} (h : ¬∀ e ∈ es, e.IsWhole) :
    listedAnswer es = .crashed := by
  refine if_neg fun hall => h fun e he => ?_
  exact Text.isSome_toChars?_iff.1 (List.all_eq_true.1 hall e he)

theorem handle_of_listHistory (hroute : r.route = .ok .listHistory) :
    handle store now file r = (listedAnswer (store.stored file), file) := by
  unfold handle
  rw [hroute]
  rfl

theorem exists_clearReply (hfile : file.IsSound) (store : Store) :
    ∃ file', store.call file .clear = .ok file' ∧
      clearReply store file = (.cleared (store.count file), file') := by
  obtain ⟨file', hcall, -⟩ := store.exists_call hfile Store.Call.isWhole_clear
  refine ⟨file', hcall, ?_⟩
  rw [Store.call_clear] at hcall
  unfold clearReply Store.clear Store.commit
  dsimp only
  rw [hcall]
  rfl

/-! ## Exchanges as calls -/

theorem recorded?_exchange_of_expression?_eq_none (h : r.expression? = none) :
    (exchange store file now r).recorded? = none := by
  unfold Exchange.recorded? exchange
  dsimp only
  rw [h]

/-- On a sound file the store's call does to it what the service does. -/
theorem call_exchange (hfile : file.IsSound) (store : Store) (now : Binary64) (r : Request) :
    store.call file (exchange store file now r).call = .ok (exchange store file now r).file := by
  by_cases hclear : r.route = .ok .clearHistory
  · obtain ⟨file', hcall, hreply⟩ := exists_clearReply hfile store
    have hclears : (exchange store file now r).clears = true := by
      unfold Exchange.clears exchange
      dsimp only
      rw [hclear]
    unfold Exchange.call
    rw [hclears, if_pos rfl, hcall]
    unfold exchange
    rw [handle_of_clearHistory hclear, hreply]
  · have hclears : (exchange store file now r).clears = false := by
      unfold Exchange.clears exchange
      dsimp only
      split
      · rename_i hroute
        exact absurd hroute hclear
      · rfl
    cases h : r.expression? with
    | none =>
      rw [Exchange.call_of_recorded?_eq_none hclears (recorded?_exchange_of_expression?_eq_none h)]
      unfold exchange
      dsimp only
      rw [handle_snd hclear h]
      rfl
    | some e =>
      obtain ⟨-, hreply⟩ := handle_of_expression? h store now file
      have hends := evaluates_evaluateReply hfile store now e
      rw [← hreply] at hends
      unfold Exchange.call Exchange.recorded?
      rw [hclears, if_neg Bool.false_ne_true]
      unfold exchange
      dsimp only
      rw [h]
      generalize handle store now file r = reply at hends
      cases hends with
      | recorded hvalue hblank hcall =>
        dsimp only
        rw [hblank, if_neg Bool.false_ne_true]
        exact hcall
      | blank hvalue hblank =>
        dsimp only
        rw [hblank, if_pos rfl]
        rfl
      | rejected hvalue hreport => rfl

theorem isFinite_of_recorded?_exchange (hfile : file.IsSound) (store : Store) (now : Binary64)
    {e : Entry} (h : (exchange store file now r).recorded? = some e) : e.result.isFinite = true := by
  unfold Exchange.recorded? exchange at h
  dsimp only at h
  split at h
  · rename_i expression _ result next exact hexpression hanswer
    split at h
    · cases h
    · obtain rfl := Option.some.inj h
      obtain ⟨-, hreply⟩ := handle_of_expression? hexpression store now file
      have hends := evaluates_evaluateReply hfile store now expression
      rw [← hreply] at hends
      generalize handle store now file r = reply at hends hanswer
      cases hends with
      | recorded hvalue =>
        cases hanswer
        exact isFinite_of_evaluate hvalue
      | blank hvalue =>
        cases hanswer
        exact isFinite_of_evaluate hvalue
      | rejected => cases hanswer
  · cases h

/-- Each exchange is one with the file that those before it leave. -/
theorem eq_exchange {rs : List (Binary64 × Request)} {past future : List Exchange} {x : Exchange}
    (h : exchanges store file rs = past ++ x :: future) :
    x = exchange store (fileAfter file past) x.now x.request := by
  induction past generalizing file rs with
  | nil =>
    cases rs with
    | nil => cases h
    | cons q rs =>
      obtain ⟨hx, -⟩ := List.cons.inj h
      change exchange store file q.1 q.2 = x at hx
      rw [← hx]
      rfl
  | cons y past ih =>
    cases rs with
    | nil => cases h
    | cons q rs =>
      obtain ⟨hy, hrest⟩ := List.cons.inj h
      change exchanges store (exchange store file q.1 q.2).file rs = _ at hrest
      change exchange store file q.1 q.2 = y at hy
      rw [hy] at hrest
      exact ih hrest

/-- Exchanges from a sound file on are a run of the store, and the next one goes on from there. -/
theorem run_exchanges (hfile : file.IsSound) {rs : List (Binary64 × Request)}
    {past future : List Exchange} {x : Exchange}
    (h : exchanges store file rs = past ++ x :: future) :
    store.run file (past.map Exchange.call) = .ok (fileAfter file past) ∧
      (fileAfter file past).IsSound ∧ (∀ y ∈ past, ∀ e ∈ y.recorded?, e.result.isFinite = true) ∧
      x = exchange store (fileAfter file past) x.now x.request := by
  suffices hpast : store.run file (past.map Exchange.call) = .ok (fileAfter file past) ∧
      (fileAfter file past).IsSound ∧ ∀ y ∈ past, ∀ e ∈ y.recorded?, e.result.isFinite = true from
    ⟨hpast.1, hpast.2.1, hpast.2.2, eq_exchange h⟩
  induction past generalizing file rs with
  | nil =>
    cases rs with
    | nil => cases h
    | cons q rs =>
      exact ⟨rfl, hfile, List.forall_mem_nil _⟩
  | cons y past ih =>
    cases rs with
    | nil => cases h
    | cons q rs =>
      obtain ⟨hy, hrest⟩ := List.cons.inj h
      have hcall := call_exchange hfile store q.1 q.2
      have hresult := fun e => isFinite_of_recorded?_exchange (e := e) (r := q.2) hfile store q.1
      rw [hy] at hcall hresult
      change exchanges store (exchange store file q.1 q.2).file rs = _ at hrest
      rw [hy] at hrest
      obtain ⟨file', hcall', hsound⟩ := store.exists_call hfile y.isWhole_call
      obtain rfl := Except.ok.inj (hcall.symm.trans hcall')
      obtain ⟨hrun, hafter, hfinite⟩ := ih hsound hrest
      exact ⟨foldlM_cons_eq_ok.2 ⟨_, hcall, hrun⟩, hafter,
        List.forall_mem_cons.2 ⟨hresult, hfinite⟩⟩

end DeskCalculator.Service
