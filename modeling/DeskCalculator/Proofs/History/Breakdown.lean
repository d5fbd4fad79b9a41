import DeskCalculator.Proofs.History.Untroubled

/-!
# How operations fail

An error that the system reports is told where a text is saved, and where one is read it leaves an
empty object. All other trouble goes through to the caller.

* `Step.IsUnguarded` : the steps where no error of the system is expected; `Stepwise.Ending` : how
  an operation can fail;
* `Stepwise.raises_read`, `Stepwise.raises_save`, `Stepwise.raises_call` : it fails in no other way;
* `Stepwise.ends_call_of_stopsReading` : where reading breaks down, so does every operation that
  finds something to read;
* `Json.nesting` : how deep a text is nested; `Stepwise.ReadsTo` : reading follows to some depth;
  `Stepwise.call_eq_error_iff` : then a call breaks down on what is deeper, and else it fails as the
  store's does.
-/

namespace DeskCalculator

/-- The steps where no error of the system is expected. -/
def Step.IsUnguarded (step : Step) : Prop := step = .stamping ∨ step = .probing ∨ step = .checking

/-- There is something to read at the path. -/
def File.IsFound (file : File) : Prop := file ≠ .missing ∧ file ≠ .blocked

/-! ## Nesting -/

/-- How many lists and objects are open. -/
def Json.Phase.depth : Phase → Nat
  | .value frames => frames.length
  | .firstItem frames | .afterItem _ frames => frames.length + 1
  | .firstKey frames | .key _ frames | .colon _ _ frames | .afterField _ frames =>
    frames.length + 1
  | .finished _ | .failed _ => 0

/-- The most lists and objects that are open at once while a text is read, which ends where a mistake
is met. -/
def Json.nesting (cs : List Char) : Nat :=
  (((tokens cs).scanl Phase.step (.value [])).map Phase.depth).foldr max 0

example : Json.nesting "[[1, [2]], \x7b\"a\": 3\x7d]".toList = 3 := by decide +kernel

/-- How deep the text of a file is nested. -/
def File.nesting : File → Nat
  | .present bytes =>
    match String.fromUTF8? bytes with
    | none => 0
    | some s => Json.nesting s.toList
  | _ => 0

theorem File.exists_bytes_of_nesting {file : File} {depth : Nat} (h : depth < file.nesting) :
    ∃ bytes, file = .present bytes := by
  cases file with
  | present bytes => exact ⟨bytes, rfl⟩
  | missing | blocked | directory => exact absurd h (Nat.not_lt_zero depth)

namespace Stepwise

open Work

variable {α : Type} {c : Conditions} {step : Step}

/-! ## Ways to fail -/

/-- How an operation fails: what it saves is refused or holds a lone half, a step breaks down, or
the system reports an error where none is expected. -/
inductive Ending (c : Conditions) : Raised → Prop
  | refused : Ending c (.fault .refused)
  | loneHalf : Ending c (.fault .loneHalf)
  | brokenDown {step : Step} (h : c.trouble step = some .other) : Ending c (.trouble .other)
  | unexpected {step : Step} (hstep : step.IsUnguarded) (h : c.trouble step = some .system) :
      Ending c (.trouble .system)

/-- How a step fails where an error of the system is expected. -/
def Guarded (c : Conditions) (raised : Raised) : Prop := raised = .trouble .system ∨ Ending c raised

theorem raises_guarded_take (c : Conditions) (step : Step) : Raises (take c step) (Guarded c) := by
  unfold take
  split
  · rename_i t htrouble
    refine raises_throw ?_
    cases t with
    | system => exact .inl rfl
    | other => exact .inr (.brokenDown htrouble)
  · exact raises_pure ()

theorem raises_take (c : Conditions) (hstep : step.IsUnguarded) :
    Raises (take c step) (Ending c) := by
  unfold take
  split
  · rename_i t htrouble
    refine raises_throw ?_
    cases t with
    | system => exact .unexpected hstep htrouble
    | other => exact .brokenDown htrouble
  · exact raises_pure ()

theorem raises_log (levels : List Level) {ways : Raised → Prop} : Raises (log levels) ways :=
  raises_modify _

theorem raises_found {ways : Raised → Prop} : Raises found ways :=
  raises_get.bind fun _ => raises_pure _

/-! ## Reading -/

theorem raises_readFound (c : Conditions) (file : File) : Raises (readFound c file) (Ending c) := by
  unfold readFound
  refine raises_tryCatch (Guarded c) ?_ fun raised hraised => ?_
  · exact (raises_guarded_take c _).bind fun _ => (raises_log _).bind fun _ => raises_pure _
  · split
    · exact (raises_log _).bind fun _ => raises_pure _
    · rename_i hsystem
      exact raises_throw (hraised.resolve_left hsystem)

theorem raises_read (c : Conditions) : Raises (read c) (Ending c) := by
  unfold read
  refine (raises_take c (.inr (.inl rfl))).bind fun _ => raises_found.bind fun file => ?_
  split
  · exact raises_pure _
  · exact raises_pure _
  · exact raises_readFound c _

theorem raises_entries (s : Store) (c : Conditions) (fields : Fields) :
    Raises (entries s c fields) (Ending c) :=
  (raises_take c (.inr (.inr rfl))).bind fun _ => (raises_log _).bind fun _ => raises_pure _

/-! ## Writing -/

theorem raises_makeFolder (c : Conditions) : Raises (makeFolder c) (Guarded c) := by
  unfold makeFolder
  refine (raises_guarded_take c _).bind fun _ => raises_found.bind fun file => ?_
  split
  · exact raises_throw (.inl rfl)
  · exact raises_pure _

theorem raises_writePieces (c : Conditions) (k : Nat) (pieces : List Text) :
    Raises (writePieces c k pieces) (Guarded c) := by
  induction pieces generalizing k with
  | nil => exact raises_pure _
  | cons piece rest ih =>
    unfold writePieces
    refine (raises_guarded_take c _).bind fun _ => ?_
    split
    · exact raises_throw (.inr .loneHalf)
    · exact (raises_modify _).bind fun _ => ih (k + 1)

theorem raises_rename : Raises rename (Guarded c) := by
  unfold rename
  refine raises_get.bind fun σ => ?_
  split
  · exact raises_throw (.inl rfl)
  · exact raises_throw (.inl rfl)
  · exact raises_modify _

/-- Saving tells the errors of the system, and lets all else through. -/
theorem raises_refuse {raised : Raised} (h : Guarded c raised) :
    Raises (refuse raised) (Ending c) := by
  unfold refuse
  split
  · exact (raises_log _).bind fun _ => raises_throw .refused
  · rename_i hsystem
    exact raises_throw (h.resolve_left hsystem)

theorem raises_save (c : Conditions) (text : Text) : Raises (save c text) (Ending c) := by
  unfold save
  refine raises_tryCatch (Guarded c) ?_ fun raised hraised => raises_refuse hraised
  refine (raises_makeFolder c).bind fun _ => ?_
  refine ((raises_guarded_take c _).bind fun _ => raises_modify _).bind fun _ => ?_
  refine (raises_tryFinally (raises_writePieces c 0 _) (raises_guarded_take c _)).bind fun _ => ?_
  exact (raises_guarded_take c _).bind fun _ => raises_rename

/-! ## Operations -/

theorem raises_commit (c : Conditions) (text : Text) (a : α) :
    Raises (do save c text; log [.info]; return a) (Ending c) :=
  (raises_save c text).bind fun _ => (raises_log _).bind fun _ => raises_pure _

/-- An operation that fails ends in one of those ways. -/
theorem raises_call (s : Store) (c : Conditions) (k : Store.Call) :
    Raises (call s c k) (Ending c) := by
  cases k with
  | add expression result now =>
    refine raises_map ((raises_take c (.inl rfl)).bind fun _ => (raises_read c).bind fun _ => ?_)
    exact (raises_entries s c _).bind fun _ => raises_commit c _ _
  | clear => exact raises_map ((raises_read c).bind fun _ => raises_commit c _ _)
  | load => exact raises_map ((raises_read c).bind fun _ => raises_entries s c _)

/-! ## Outcomes -/

/-- Work that comes to an outcome fails if the outcome is a fault. -/
theorem error_iff_of_comesTo {β : Type} {x : Work α} {σ : Scene} {outcome : Outcome α}
    (hx : ComesTo x σ.file outcome) (f : α → β) {raised : Raised} :
    (Work.result (f <$> x) σ).1 = .error raised ↔
      ∃ fault, outcome.answer.map (fun _ => outcome.file) = .error fault ∧
        raised = .fault fault := by
  obtain ⟨left, hends⟩ := hx
  rw [result_map_eq_error_iff, hends.answer_eq]
  cases outcome.answer with
  | ok a => exact iff_of_false nofun nofun
  | error fault =>
    constructor
    · intro h
      exact ⟨fault, rfl, (Except.error.inj h).symm⟩
    · rintro ⟨other, hother, rfl⟩
      rw [← Except.error.inj hother]
      rfl

/-! ## Reading that breaks down -/

/-- Reading breaks down, and nothing goes wrong before it. -/
structure StopsReading (c : Conditions) : Prop where
  stamping : c.trouble .stamping = none
  probing : c.trouble .probing = none
  reading : c.trouble .reading = some .other

theorem ends_read_of_stopsReading (hc : StopsReading c) {σ : Scene} (hfile : σ.file.IsFound) :
    (read c).Ends σ (.error (.trouble .other)) σ := by
  have htake : (take c .reading).Ends σ (.error (.trouble .other)) σ := by
    unfold take
    rw [hc.reading]
    exact ends_throw _ σ
  have hfound : (readFound c σ.file).Ends σ (.error (.trouble .other)) σ :=
    ends_tryCatch htake.bind_of_error (ends_throw _ σ)
  refine (ends_take_of_none hc.probing σ).bind ((ends_found σ).bind ?_)
  split
  · rename_i hmissing
    exact absurd hmissing hfile.1
  · rename_i hblocked
    exact absurd hblocked hfile.2
  · exact hfound

/-- Then so does every operation that finds something to read. -/
theorem ends_call_of_stopsReading (hc : StopsReading c) {σ : Scene} (hfile : σ.file.IsFound)
    (s : Store) (k : Store.Call) : (call s c k).Ends σ (.error (.trouble .other)) σ := by
  have hread := ends_read_of_stopsReading hc hfile
  cases k with
  | add expression result now =>
    exact ends_map_of_error ((ends_take_of_none hc.stamping σ).bind hread.bind_of_error)
  | clear => exact ends_map_of_error hread.bind_of_error
  | load => exact ends_map_of_error hread.bind_of_error

/-! ## Reading to some depth -/

/-- Nothing goes wrong but that reading breaks down on what is nested deeper than it follows. -/
structure ReadsTo (depth : Nat) (file : File) (c : Conditions) : Prop where
  reading : c.trouble .reading = if depth < file.nesting then some .other else none
  others : ∀ step, step ≠ .reading → c.trouble step = none

section ReadsTo

variable {depth : Nat} {σ : Scene} (hc : ReadsTo depth σ.file c)

include hc

theorem ReadsTo.calm (h : ¬depth < σ.file.nesting) (step : Step) : c.trouble step = none := by
  by_cases hstep : step = .reading
  · rw [hstep, hc.reading, if_neg h]
  · exact hc.others step hstep

theorem ReadsTo.stopsReading (h : depth < σ.file.nesting) : StopsReading c where
  stamping := hc.others _ nofun
  probing := hc.others _ nofun
  reading := hc.reading.trans (if_pos h)

theorem ReadsTo.result_call (h : depth < σ.file.nesting) (s : Store) (k : Store.Call) :
    ((call s c k).result σ).1 = .error (.trouble .other) := by
  obtain ⟨bytes, hbytes⟩ := File.exists_bytes_of_nesting h
  have hfile : σ.file.IsFound := hbytes ▸ ⟨nofun, nofun⟩
  rw [(ends_call_of_stopsReading (hc.stopsReading h) hfile s k).result]

/-- A call breaks down on what is nested too deep, and else it fails as the store's does. -/
theorem call_eq_error_iff (s : Store) (k : Store.Call) (raised : Raised) :
    ((call s c k).result σ).1 = .error raised ↔
      (depth < σ.file.nesting ∧ raised = .trouble .other) ∨
      (σ.file.nesting ≤ depth ∧ ∃ fault, s.call σ.file k = .error fault ∧
        raised = .fault fault) := by
  by_cases hdeep : depth < σ.file.nesting
  · rw [hc.result_call hdeep s k, Except.error.injEq]
    simp only [hdeep, true_and, Nat.not_le.2 hdeep, false_and, or_false, eq_comm]
  · simp only [hdeep, false_and, false_or, Nat.not_lt.1 hdeep, true_and]
    have hcalm := hc.calm hdeep
    cases k with
    | add expression result now => exact error_iff_of_comesTo (comesTo_add hcalm s _ _) _
    | clear => exact error_iff_of_comesTo (comesTo_clear hcalm s _) _
    | load => exact error_iff_of_comesTo (comesTo_load hcalm s _) _

end ReadsTo

end Stepwise

end DeskCalculator
