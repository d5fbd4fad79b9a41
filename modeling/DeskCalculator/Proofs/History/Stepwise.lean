import DeskCalculator.Proofs.History.Store
import DeskCalculator.Proofs.History.Work

/-!
# Operations that fail

Each step of an operation is told what it keeps, and the operation is put together from them. What is
at the path stays until a text has been written and its file closed; from then on one step is left,
which either moves the new file there or does nothing.

* `Stepwise.keeps_take`, `Stepwise.keeps_log`, `Stepwise.triple_create`, `Stepwise.keeps_writePieces`,
  `Stepwise.triple_rename` : the steps;
* `Stepwise.triple_save` : a text that is not saved leaves what was at the path;
* `Stepwise.keeps_load`, `Stepwise.triple_add`, `Stepwise.triple_clear` : so do the operations;
* `Stepwise.call` : a call of an operation; `Stepwise.isFramed_call` : what it answers depends on what
  is at the path alone.
-/

namespace DeskCalculator.Stepwise

open Scene Work

variable {α β : Type} {c : Conditions} {file : File}

/-! ## Steps -/

theorem ends_take_of_none {step : Step} (h : c.trouble step = none) (σ : Scene) :
    (take c step).Ends σ (.ok ()) σ := by
  unfold take
  rw [h]
  exact ends_pure () σ

theorem keeps_take (kept : Scene → Prop) (c : Conditions) (step : Step) :
    Keeps kept (take c step) := by
  unfold take
  cases c.trouble step with
  | none => exact keeps_pure ()
  | some t => exact keeps_throw _

theorem ends_log (levels : List Level) (σ : Scene) :
    (log levels).Ends σ (.ok ()) { σ with levels := σ.levels ++ levels } := by
  intro older earlier
  show (Except.ok (), Scene.mk σ.file (σ.temporaries ++ older) (earlier ++ σ.levels ++ levels)) = _
  rw [List.append_assoc]
  rfl

theorem ends_found (σ : Scene) : found.Ends σ (.ok σ.file) σ := fun _ _ => rfl

/-- The scenes with something at the path, and a temporary file. -/
def Writing (file : File) (σ : Scene) : Prop :=
  ∃ bytes older levels, σ = ⟨file, bytes :: older, levels⟩

/-- What was at the path is there if the work failed. -/
def Spared (file : File) (answer : Except Raised α) (σ : Scene) : Prop :=
  answer.isOk = false → σ.file = file

theorem spared_of_keeps {x : Work α} (hx : Keeps (At file) x) : Triple (At file) x (Spared file) :=
  Triple.weaken hx (fun _ h => h) fun _ _ h _ => h

theorem spared_bind {x : Work α} {f : α → Work β} (hx : Keeps (At file) x)
    (hf : ∀ a, Triple (At file) (f a) (Spared file)) : Triple (At file) (x >>= f) (Spared file) :=
  hx.andThen hf fun _ _ h _ => h

theorem keeps_log (levels : List Level) : Keeps (At file) (log levels) :=
  fun σ hσ => ⟨_, _, ends_log levels σ, hσ⟩

theorem keeps_found : Keeps (At file) found := fun σ hσ => ⟨_, _, ends_found σ, hσ⟩

/-! ## Reading -/

theorem keeps_readFound (c : Conditions) (there : File) :
    Keeps (At file) (readFound c there) := by
  unfold readFound
  refine keeps_tryCatch ?_ fun raised => ?_
  · exact (keeps_take _ c _).bind fun _ => (keeps_log _).bind fun _ => keeps_pure _
  · split
    · exact (keeps_log _).bind fun _ => keeps_pure _
    · exact keeps_throw _

theorem keeps_read (c : Conditions) : Keeps (At file) (read c) := by
  unfold read
  refine (keeps_take _ c _).bind fun _ => keeps_found.bind fun there => ?_
  split
  · exact keeps_pure _
  · exact keeps_pure _
  · exact keeps_readFound c there

theorem keeps_entries (s : Store) (c : Conditions) (fields : Fields) :
    Keeps (At file) (entries s c fields) :=
  (keeps_take _ c _).bind fun _ => (keeps_log _).bind fun _ => keeps_pure _

theorem keeps_load (s : Store) (c : Conditions) : Keeps (At file) (load s c) :=
  (keeps_read c).bind fun fields => keeps_entries s c fields

/-! ## Writing -/

theorem keeps_makeFolder (c : Conditions) : Keeps (At file) (makeFolder c) := by
  unfold makeFolder
  refine (keeps_take _ c _).bind fun _ => keeps_found.bind fun there => ?_
  split
  · exact keeps_throw _
  · exact keeps_pure _

theorem ends_create_of_none (h : c.trouble .creating = none) (σ : Scene) :
    (create c).Ends σ (.ok ()) { σ with temporaries := .empty :: σ.temporaries } :=
  (ends_take_of_none h σ).bind fun _ _ => rfl

theorem triple_create (c : Conditions) : Triple (At file) (create c) fun answer τ =>
    match answer with
    | .ok _ => Writing file τ
    | .error _ => At file τ := by
  refine (keeps_take _ c _).andThen (fun _ σ hσ => ?_) fun _ _ h => h
  exact ⟨.ok (), ⟨σ.file, .empty :: σ.temporaries, σ.levels⟩, fun _ _ => rfl,
    .empty, σ.temporaries, σ.levels, by rw [show σ.file = file from hσ]⟩

theorem ends_append (bytes written : ByteArray) (older : List ByteArray) (levels : List Level) :
    Ends (modify fun σ => { σ with temporaries := σ.temporaries.modifyHead (· ++ bytes) })
      ⟨file, written :: older, levels⟩ (.ok ()) ⟨file, (written ++ bytes) :: older, levels⟩ :=
  fun _ _ => rfl

theorem keeps_writePieces (c : Conditions) (k : Nat) (pieces : List Text) :
    Keeps (Writing file) (writePieces c k pieces) := by
  induction pieces generalizing k with
  | nil => exact keeps_pure _
  | cons piece rest ih =>
    unfold writePieces
    refine (keeps_take _ c _).bind fun _ => ?_
    split
    · exact keeps_throw _
    · rename_i bytes _
      refine Keeps.bind (fun σ hσ => ?_) fun _ => ih (k + 1)
      obtain ⟨written, older, levels, rfl⟩ := hσ
      exact ⟨_, _, ends_append bytes written older levels, _, _, _, rfl⟩

theorem ends_rename (h : file ≠ .directory) (bytes : ByteArray) (older : List ByteArray)
    (levels : List Level) :
    rename.Ends ⟨file, bytes :: older, levels⟩ (.ok ()) ⟨.present bytes, older, levels⟩ := by
  intro further earlier
  cases file with
  | directory => exact absurd rfl h
  | missing => rfl
  | blocked => rfl
  | present old => rfl

theorem ends_rename_directory (bytes : ByteArray) (older : List ByteArray) (levels : List Level) :
    rename.Ends ⟨.directory, bytes :: older, levels⟩ (.error (.trouble .system))
      ⟨.directory, bytes :: older, levels⟩ :=
  fun _ _ => rfl

theorem triple_rename : Triple (Writing file) rename (Spared file) := by
  rintro σ ⟨bytes, older, levels, rfl⟩
  by_cases h : file = .directory
  · subst h
    exact ⟨_, _, ends_rename_directory bytes older levels, fun _ => rfl⟩
  · exact ⟨_, _, ends_rename h bytes older levels, nofun⟩

theorem keeps_refuse (raised : Raised) : Keeps (At file) (refuse raised) := by
  unfold refuse
  split
  · exact (keeps_log _).bind fun _ => keeps_throw _
  · exact keeps_throw _

/-- A text that is not saved leaves what was at the path. -/
theorem triple_save (c : Conditions) (text : Text) :
    Triple (At file) (save c text) (Spared file) := by
  have hwriting : ∀ raised τ, Writing file τ → @Spared Unit file (.error raised) τ := by
    rintro raised τ ⟨bytes, older, levels, rfl⟩ -
    rfl
  have hwrite : Keeps (Writing file)
      (tryFinally (writePieces c 0 (c.pieces text)) (take c .closing)) :=
    keeps_tryFinally (keeps_writePieces c 0 _) (keeps_take _ c _)
  refine triple_tryCatch (show Triple (At file) _ (Spared file) from ?_) (fun raised => ?_)
    fun _ _ h => h
  · -- Up to the renaming only the temporary file is touched.
    refine spared_bind (keeps_makeFolder c) fun _ => ?_
    refine (triple_create c).bind (fun _ => ?_) fun _ _ h _ => h
    refine hwrite.andThen (fun _ => ?_) hwriting
    exact (keeps_take _ c _).andThen (fun _ => triple_rename) hwriting
  · exact (spared_of_keeps (keeps_refuse raised)).weaken (fun σ hσ => hσ rfl) fun _ _ h => h

/-! ## Operations -/

/-- After a save there is nothing left to fail. -/
theorem triple_commit (c : Conditions) (text : Text) (a : α) :
    Triple (At file) (do save c text; log [.info]; return a) (Spared file) := by
  refine (triple_save c text).bind (fun _ σ _ => ?_) fun _ _ h => h
  exact ⟨_, _, (ends_log _ σ).bind (ends_pure a _), nofun⟩

theorem triple_add (s : Store) (c : Conditions) (e : Entry) :
    Triple (At file) (add s c e) (Spared file) := by
  unfold add
  refine spared_bind (keeps_take _ c _) fun _ => spared_bind (keeps_read c) fun fields => ?_
  exact spared_bind (keeps_entries s c fields) fun _ => triple_commit c _ e

theorem triple_clear (s : Store) (c : Conditions) :
    Triple (At file) (clear s c) (Spared file) := by
  unfold clear
  exact spared_bind (keeps_read c) fun _ => triple_commit c _ _

/-! ## Calls -/

/-- What an operation answers. -/
inductive Reply
  | added (e : Entry)
  | cleared (count : Nat)
  | loaded (entries : List Entry)
  deriving DecidableEq

/-- A call of an operation. -/
def call (s : Store) (c : Conditions) : Store.Call → Work Reply
  | .add expression result now => .added <$> add s c ⟨expression, result, milliseconds now⟩
  | .clear => .cleared <$> clear s c
  | .load => .loaded <$> load s c

theorem triple_map {f : α → β} {x : Work α} (hx : Triple (At file) x (Spared file)) :
    Triple (At file) (f <$> x) (Spared file) := by
  rw [← bind_pure_comp]
  exact hx.bind (fun a σ _ => ⟨_, σ, ends_pure _ σ, nofun⟩) fun _ _ h => h

theorem triple_call (s : Store) (c : Conditions) (k : Store.Call) :
    Triple (At file) (call s c k) (Spared file) := by
  cases k with
  | add expression result now => exact triple_map (triple_add s c _)
  | clear => exact triple_map (triple_clear s c)
  | load => exact triple_map (spared_of_keeps (keeps_load s c))

theorem isFramed_call (s : Store) (c : Conditions) (k : Store.Call) : (call s c k).IsFramed :=
  isFramed_of_triple fun _ => triple_call s c k

end DeskCalculator.Stepwise
