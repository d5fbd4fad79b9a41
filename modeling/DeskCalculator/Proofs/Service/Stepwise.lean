import DeskCalculator.Proofs.History.Frame
import DeskCalculator.Proofs.History.Untroubled
import DeskCalculator.Proofs.Service.Exchange

/-!
# The service on a disk that fails

* `Stepwise.handle` : the answer to a request where any step on the disk may fail;
  `Stepwise.answered` : what leaves the service;
* `Stepwise.triple_handle` : an answer that tells of a failure leaves what was at the path;
* `Stepwise.gives_handle` : without trouble the answers and files are those of `Service.handle`;
* `Stepwise.unharmed_by_failure` : so no failure, of a call or in a run of requests, changes the
  history or what is answered later.
-/

namespace DeskCalculator.Stepwise

open Scene Work
open Service (Answer Request Exchange evaluatedAnswer listedAnswer exchanges exchange fileAfter)

/-! ## Handling -/

/-- Answers a fault that is told to users, with a detail made of its message. All else goes on. -/
def report (detail : String → String) : Raised → Work Answer
  | .fault f =>
    match f.message? with
    | some message => return .failed (detail message)
    | none => throw (.fault f)
  | raised => throw raised

/-- Evaluates an expression, and records it unless it is blank. -/
def evaluateReply (s : Store) (c : Conditions) (now : Binary64) (expression : List Char) :
    Work Answer :=
  match evaluate expression with
  | .error fault =>
    match fault.report? with
    | some report => return .rejected report
    | none => return .crashed
  | .ok result =>
    if isBlankText expression then return evaluatedAnswer expression result
    else
      try
        (fun _ => evaluatedAnswer expression result) <$>
          add s c ⟨.ofChars expression, result, milliseconds now⟩
      catch raised => report id raised

/-- Lists the history. -/
def listReply (s : Store) (c : Conditions) : Work Answer := listedAnswer <$> load s c

/-- Clears the history. -/
def clearReply (s : Store) (c : Conditions) : Work Answer :=
  try .cleared <$> clear s c catch raised => report (fun _ => "Failed to clear history") raised

/-- The answer to a request at a clock reading. Only those to evaluate and those about the history
take steps on the disk. -/
def handle (s : Store) (c : Conditions) (now : Binary64) (r : Request) : Work Answer :=
  match r.route with
  | .ok .listHistory => listReply s c
  | .ok .clearHistory => clearReply s c
  | _ =>
    match r.expression? with
    | some expression => evaluateReply s c now expression
    | none => do return (Service.handle s now (← found) r).1

/-- The answer that leaves the service: where nothing answers, it crashes. -/
def answered : Except Raised Answer → Answer
  | .ok answer => answer
  | .error _ => .crashed

/-! ## Failures -/

variable {file : File}

/-- What was at the path is there if the answer tells of a failure. -/
def Unharmed (file : File) (answer : Except Raised Answer) (σ : Scene) : Prop :=
  (answered answer).status = 500 → σ.file = file

theorem unharmed_of_keeps {x : Work Answer} (hx : Keeps (At file) x) :
    Triple (At file) x (Unharmed file) :=
  Triple.weaken hx (fun _ h => h) fun _ _ h _ => h

theorem keeps_report (detail : String → String) (raised : Raised) :
    Keeps (At file) (report detail raised) := by
  unfold report
  split
  · split
    · exact keeps_pure _
    · exact keeps_throw _
  · exact keeps_throw _

/-- A failed operation may be reported. -/
theorem triple_report {x : Work Answer} (hx : Triple (At file) x (Unharmed file))
    (detail : String → String) :
    Triple (At file) (tryCatch x (report detail)) (Unharmed file) := by
  refine triple_tryCatch hx (fun raised => ?_) fun _ _ h => h
  exact (unharmed_of_keeps (keeps_report detail raised)).weaken (fun σ hσ => hσ rfl) fun _ _ h => h

/-- What succeeds is answered with success. -/
theorem triple_answer {α : Type} {x : Work α} (hx : Triple (At file) x (Spared file))
    {answer : α → Answer} (h : ∀ a, (answer a).status = 200) :
    Triple (At file) (answer <$> x) (Unharmed file) := by
  rw [← bind_pure_comp]
  refine hx.bind (fun a σ _ => ⟨_, σ, ends_pure _ σ, fun hstatus => ?_⟩) fun _ _ h _ => h rfl
  exact absurd ((h a).symm.trans hstatus) (by decide)

theorem triple_evaluateReply (s : Store) (c : Conditions) (now : Binary64) (e : List Char) :
    Triple (At file) (evaluateReply s c now e) (Unharmed file) := by
  unfold evaluateReply
  cases h : evaluate e with
  | error fault =>
    dsimp only
    split
    · exact unharmed_of_keeps (keeps_pure _)
    · exact unharmed_of_keeps (keeps_pure _)
  | ok v =>
    -- A value without an operand text would bring down the answer to what is already recorded.
    obtain ⟨next, exact, hanswer⟩ := Service.evaluatedAnswer_of_isFinite (isFinite_of_evaluate h) e
    dsimp only
    rw [hanswer]
    split
    · exact unharmed_of_keeps (keeps_pure _)
    · exact triple_report (triple_answer (triple_add s c _) fun _ => rfl) id

theorem keeps_listReply (s : Store) (c : Conditions) : Keeps (At file) (listReply s c) := by
  unfold listReply
  rw [← bind_pure_comp]
  exact (keeps_load s c).bind fun _ => keeps_pure _

theorem triple_handle (s : Store) (c : Conditions) (now : Binary64) (r : Request) :
    Triple (At file) (handle s c now r) (Unharmed file) := by
  unfold handle
  split
  · exact unharmed_of_keeps (keeps_listReply s c)
  · exact triple_report (triple_answer (triple_clear s c) fun _ => rfl) _
  · split
    · exact triple_evaluateReply s c now _
    · exact unharmed_of_keeps (keeps_found.bind fun _ => keeps_pure _)

theorem isFramed_handle (s : Store) (c : Conditions) (now : Binary64) (r : Request) :
    (handle s c now r).IsFramed :=
  isFramed_of_triple fun _ => triple_handle s c now r

/-! ## Without trouble -/

/-- On a file the work gives a reply. -/
def Gives (x : Work Answer) (file : File) (reply : Answer × File) : Prop :=
  ∃ ended left levels, x.Ends ⟨file, [], []⟩ ended ⟨reply.2, left, levels⟩ ∧
    answered ended = reply.1

theorem gives_pure (file : File) (answer : Answer) : Gives (pure answer) file (answer, file) :=
  ⟨_, _, _, ends_pure answer _, rfl⟩

theorem gives_map {α : Type} {x : Work α} {outcome : Outcome α} (hx : ComesTo x file outcome)
    {a : α} (ha : outcome.answer = .ok a) (answer : α → Answer) :
    Gives (answer <$> x) file (answer a, outcome.file) := by
  obtain ⟨left, hends⟩ := hx
  rw [ha] at hends
  exact ⟨_, left, _, ends_map hends, rfl⟩

theorem ends_report (detail : String → String) (fault : WriteFault) (σ : Scene) :
    (report detail (.fault fault)).Ends σ
      (match fault.message? with
        | some message => .ok (.failed (detail message))
        | none => .error (.fault fault)) σ := by
  unfold report
  cases h : fault.message? with
  | some message =>
    simp only [h]
    exact ends_pure _ σ
  | none =>
    simp only [h]
    exact ends_throw _ σ

/-- The reply to an outcome whose faults are reported. -/
def reply {α : Type} (answer : α → Answer) (detail : String → String) (outcome : Outcome α) :
    Answer × File :=
  (match outcome.answer with
    | .ok a => answer a
    | .error fault =>
      match fault.message? with
      | some message => .failed (detail message)
      | none => .crashed,
    outcome.file)

theorem gives_report {α : Type} {x : Work α} {outcome : Outcome α} (hx : ComesTo x file outcome)
    (answer : α → Answer) (detail : String → String) :
    Gives (tryCatch (answer <$> x) (report detail)) file (reply answer detail outcome) := by
  obtain ⟨left, hends⟩ := hx
  unfold reply
  cases houtcome : outcome.answer with
  | ok a =>
    rw [houtcome] at hends
    exact ⟨_, left, _, ends_tryCatch_of_ok (ends_map hends), rfl⟩
  | error fault =>
    rw [houtcome] at hends
    refine ⟨_, left, _, ends_tryCatch (ends_map_of_error hends) (ends_report detail fault _), ?_⟩
    dsimp only
    cases fault.message? <;> rfl

theorem evaluateReply_eq_reply (s : Store) (now : Binary64) (file : File) {e : List Char}
    {v : Binary64} (h : evaluate e = .ok v) (hblank : isBlankText e = false) :
    Service.evaluateReply s now file e =
      reply (fun _ => evaluatedAnswer e v) id (s.add file ⟨.ofChars e, v, milliseconds now⟩) := by
  unfold Service.evaluateReply reply
  rw [h]
  dsimp only
  rw [if_neg (Bool.not_eq_true _ ▸ hblank)]
  cases (s.add file ⟨.ofChars e, v, milliseconds now⟩).answer with
  | ok _ => rfl
  | error fault =>
    dsimp only
    cases fault.message? <;> rfl

theorem clearReply_eq_reply (s : Store) (file : File) :
    Service.clearReply s file =
      reply .cleared (fun _ => "Failed to clear history") (s.clear file) := by
  unfold Service.clearReply reply
  dsimp only
  cases (s.clear file).answer with
  | ok _ => rfl
  | error fault =>
    dsimp only
    cases fault.message? <;> rfl

section Calm

variable {c : Conditions} (hc : ∀ step, c.trouble step = none)

include hc

theorem gives_evaluateReply (s : Store) (now : Binary64) (file : File) (e : List Char) :
    Gives (evaluateReply s c now e) file (Service.evaluateReply s now file e) := by
  unfold evaluateReply
  cases h : evaluate e with
  | error fault =>
    unfold Service.evaluateReply
    rw [h]
    dsimp only
    cases fault.report? with
    | some report => exact gives_pure file _
    | none => exact gives_pure file _
  | ok v =>
    dsimp only
    cases hblank : isBlankText e with
    | true =>
      unfold Service.evaluateReply
      rw [h, hblank]
      exact gives_pure file _
    | false =>
      rw [evaluateReply_eq_reply s now file h hblank]
      exact gives_report (comesTo_add hc s file _) _ id

theorem gives_handle (s : Store) (now : Binary64) (file : File) (r : Request) :
    Gives (handle s c now r) file (Service.handle s now file r) := by
  unfold handle
  split
  · rename_i hroute
    rw [Service.handle_of_listHistory hroute]
    exact gives_map (comesTo_load hc s file) rfl _
  · rename_i hroute
    rw [Service.handle_of_clearHistory hroute, clearReply_eq_reply]
    exact gives_report (comesTo_clear hc s file) _ _
  · rename_i hlist hclear
    cases h : r.expression? with
    | some e =>
      rw [(Service.handle_of_expression? h s now file).2]
      exact gives_evaluateReply hc s now file e
    | none =>
      refine ⟨.ok (Service.handle s now file r).1, [], [], ?_, rfl⟩
      rw [Service.handle_snd hclear h]
      exact (ends_found _).bind (ends_pure _ _)

end Calm

/-! ## Failures of the service -/

/-- Nothing goes wrong, and a text is written glyph by glyph. -/
def calm : Conditions where
  trouble _ := none
  pieces text := text.map fun g => [g]
  flatten_pieces text := by rw [← List.flatMap_def, List.flatMap_singleton']

theorem file_handle_of_status {s : Store} {now : Binary64} {file : File} {r : Request}
    (h : (Service.handle s now file r).1.status = 500) :
    (Service.handle s now file r).2 = file := by
  have hgives := gives_handle (c := calm) (fun _ => rfl) s now file r
  have hunharmed := (triple_handle s calm now r).result ⟨file, [], []⟩ rfl
  generalize Service.handle s now file r = reply at h hgives ⊢
  obtain ⟨ended, left, levels, hends, hanswer⟩ := hgives
  rw [hends.result] at hunharmed
  exact hunharmed (hanswer ▸ h)

/-- A call of an operation of a store, and the conditions that it meets with. -/
structure Attempt where
  store : Store
  conditions : Conditions
  operation : Store.Call

def Attempt.work (a : Attempt) : Work Reply := call a.store a.conditions a.operation

/-- A request with the reading of the clock, and the conditions that it meets with. -/
structure Visit where
  conditions : Conditions
  now : Binary64
  request : Request

def Visit.work (s : Store) (v : Visit) : Work Answer := handle s v.conditions v.now v.request

/-- **Failures leave the history as it was.** Whatever trouble the call of an operation meets with, if
it does not answer then what was at the path is there as it was, and all later calls, each under its
own conditions, answer as they would have without it. So it is with requests: in a run over any
disk, one that is answered with status 500 leaves what was at the path, and the rest of the run is
answered as without it. Reading or writing that gives up on deep nesting is such trouble. The last
two parts are about calls and runs without any, where only the file itself can be the reason. -/
theorem unharmed_by_failure (s : Store) :
    (∀ (a : Attempt) (later : List Attempt) (σ τ : Scene) (raised : Raised),
      a.work.result σ = (.error raised, τ) → τ.file = σ.file ∧
        inTurn τ (later.map Attempt.work) = inTurn σ (later.map Attempt.work)) ∧
    (∀ (past future : List Visit) (v : Visit) (σ τ : Scene) (ended : Except Raised Answer),
      let before := sceneAfter σ (past.map (Visit.work s))
      (v.work s).result before = (ended, τ) → (answered ended).status = 500 →
        τ.file = before.file ∧
          inTurn τ (future.map (Visit.work s)) = inTurn before (future.map (Visit.work s))) ∧
    (∀ file k fault, s.call file k = .error fault → s.leaves file k = file) ∧
    (∀ file rs past future (x : Exchange),
      exchanges s file rs = past ++ x :: future → x.answer.status = 500 →
        x.file = fileAfter file past) := by
  refine ⟨fun a later σ τ raised h => ?_, fun past future v σ τ ended => ?_,
    fun file k fault h => ?_, fun file rs past future x h hfailed => ?_⟩
  · have hspared := (triple_call a.store a.conditions a.operation).result σ rfl
    rw [show (call a.store a.conditions a.operation).result σ = (.error raised, τ) from h] at hspared
    have hfile : τ.file = σ.file := hspared rfl
    refine ⟨hfile, inTurn_congr ?_ hfile⟩
    exact List.forall_mem_map.2 fun b _ => isFramed_call b.store b.conditions b.operation
  · intro before h hfailed
    have hunharmed := (triple_handle s v.conditions v.now v.request).result before rfl
    rw [show (handle s v.conditions v.now v.request).result before = (ended, τ) from h]
      at hunharmed
    have hfile : τ.file = before.file := hunharmed hfailed
    refine ⟨hfile, inTurn_congr ?_ hfile⟩
    exact List.forall_mem_map.2 fun w _ => isFramed_handle s w.conditions w.now w.request
  · rcases s.call_eq_leaves file k with hok | ⟨-, hleaves⟩
    · cases h.symm.trans hok
    · exact hleaves
  · have hx := Service.eq_exchange h
    rw [hx, Service.answer_exchange] at hfailed
    rw [hx]
    unfold exchange
    dsimp only
    exact file_handle_of_status hfailed

/-- A file of another writer holds a lone half. Its text is stopped seven bytes into the temporary
file, and the history is neither cleared by a call nor on request. -/
theorem unharmed_by_failure_loneHalf :
    let s : Store := ⟨"history".toList, 5⟩
    let σ : Scene := ⟨.present (String.toUTF8 "\x7b\"v\": \"\\ud800\"\x7d"), [], []⟩
    let clearing : Attempt := ⟨s, calm, .clear⟩
    let loading : Attempt := ⟨s, calm, .load⟩
    let deletion : Visit := ⟨calm, .ofInt 1, "DELETE", "/api/history", []⟩
    (∃ τ, clearing.work.result σ = (.error (.fault .loneHalf), τ) ∧
      τ.temporaries.map ByteArray.size = [7] ∧ τ.file = σ.file ∧
      inTurn τ [loading.work] = inTurn σ [loading.work]) ∧
    (∃ ended τ, (deletion.work s).result σ = (ended, τ) ∧
      (answered ended).status = 500 ∧ τ.file = σ.file) ∧
    ∃ x, exchanges s σ.file [(deletion.now, deletion.request)] = [x] ∧ x.answer.status = 500 ∧
      x.file = σ.file := by
  intro s σ clearing loading deletion
  have hraised : (clearing.work.result σ).1 = .error (.fault .loneHalf) := by decide +kernel
  have hsize : (clearing.work.result σ).2.temporaries.map ByteArray.size = [7] := by decide +kernel
  have hstatus : (answered ((deletion.work s).result σ).1).status = 500 := by decide +kernel
  have hanswer : (exchange s σ.file deletion.now deletion.request).answer.status = 500 := by
    decide +kernel
  obtain ⟨⟨answer, τ⟩, hclearing⟩ : ∃ r, clearing.work.result σ = r := ⟨_, rfl⟩
  obtain ⟨⟨ended, υ⟩, hdeletion⟩ : ∃ r, (deletion.work s).result σ = r := ⟨_, rfl⟩
  rw [hclearing] at hraised hsize
  rw [hdeletion] at hstatus
  obtain rfl : answer = .error (.fault .loneHalf) := hraised
  obtain ⟨hfile, hlater⟩ := (unharmed_by_failure s).1 clearing [loading] σ τ _ hclearing
  have hdeleted := ((unharmed_by_failure s).2.1 [] [] deletion σ υ ended hdeletion hstatus).1
  have hexchange := (unharmed_by_failure s).2.2.2 σ.file [(deletion.now, deletion.request)] [] [] _
    rfl hanswer
  exact ⟨⟨τ, hclearing, hsize, hfile, hlater⟩, ⟨ended, υ, hdeletion, hstatus, hdeleted⟩,
    exchange s σ.file deletion.now deletion.request, rfl, hanswer, hexchange⟩

end DeskCalculator.Stepwise
