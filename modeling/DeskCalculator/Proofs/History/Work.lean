import DeskCalculator.History.Stepwise

/-!
# Work on a scene

* `Work.result_bind`, `Work.result_tryCatch`, `Work.result_tryFinally` : what composed work comes to;
* `Work.Ends` : how work ends, whatever older temporary files and earlier records there are besides;
  the frame is in the definition, so it composes (`Work.Ends.bind`, `Work.ends_tryCatch`,
  `Work.ends_tryFinally`);
* `Work.Triple` : from every scene with one property the work has an end with another; `Work.Keeps` :
  with the same;
* `Work.Raises` : the ways in which work can fail; `Work.Raises.bind`, `Work.raises_tryCatch`,
  `Work.raises_tryFinally` : those of composed work are those of its parts that are not caught;
* `Work.IsFramed` : from every scene the work has an end; then all that it depends on is what is at
  the path (`Work.IsFramed.congr`, `Work.inTurn_congr`).
-/

namespace DeskCalculator

variable {α β : Type}

/-- The scene beside older temporary files, after an earlier log. -/
def Scene.beside (σ : Scene) (older : List ByteArray) (earlier : List Level) : Scene :=
  ⟨σ.file, σ.temporaries ++ older, earlier ++ σ.levels⟩

/-- The scenes with something at the path. -/
def Scene.At (file : File) (σ : Scene) : Prop := σ.file = file

@[simp] theorem Scene.beside_nil (σ : Scene) : σ.beside [] [] = σ := by
  unfold Scene.beside
  rw [List.append_nil, List.nil_append]

/-- Every scene is one with its file alone, beside the rest. -/
theorem Scene.bare_beside {σ : Scene} {file : File} (h : σ.file = file) :
    (⟨file, [], []⟩ : Scene).beside σ.temporaries σ.levels = σ := by
  subst h
  unfold Scene.beside
  rw [List.nil_append, List.append_nil]

namespace Work

/-! ## Results -/

theorem result_bind (x : Work α) (f : α → Work β) (σ : Scene) :
    Work.result (x >>= f) σ = match x.result σ with
      | (.ok a, τ) => (f a).result τ
      | (.error raised, τ) => (.error raised, τ) := by
  show ExceptT.bindCont f (x.result σ).1 (x.result σ).2 = _
  generalize x.result σ = r
  obtain ⟨_ | a, τ⟩ := r <;> rfl

theorem result_tryCatch (x : Work α) (handle : Raised → Work α) (σ : Scene) :
    Work.result (tryCatch x handle) σ = match x.result σ with
      | (.ok a, τ) => (.ok a, τ)
      | (.error raised, τ) => (handle raised).result τ := by
  unfold result ExceptT.run StateT.run
  simp only [tryCatch, tryCatchThe, MonadExceptOf.tryCatch, ExceptT.tryCatch, ExceptT.mk, bind,
    StateT.bind]
  generalize x σ = r
  obtain ⟨_ | a, τ⟩ := r <;> rfl

theorem result_map (f : α → β) (x : Work α) (σ : Scene) :
    Work.result (f <$> x) σ = ((x.result σ).1.map f, (x.result σ).2) := by
  rw [← bind_pure_comp, result_bind]
  generalize x.result σ = r
  obtain ⟨_ | a, τ⟩ := r <;> rfl

/-- Work fails as it does if its answer is used. -/
theorem result_map_eq_error_iff (f : α → β) {x : Work α} {σ : Scene} {raised : Raised} :
    (Work.result (f <$> x) σ).1 = .error raised ↔ (x.result σ).1 = .error raised := by
  rw [result_map]
  cases (x.result σ).1 with
  | ok a => exact iff_of_false nofun nofun
  | error other => exact ⟨fun h => congrArg _ (Except.error.inj h), fun h => h ▸ rfl⟩

/-- Whatever comes of the first part, the second is done as well, and may fail in its place. -/
theorem result_tryFinally (x : Work α) (y : Work Unit) (σ : Scene) :
    Work.result (tryFinally x y) σ = match y.result (x.result σ).2 with
      | (.ok _, τ) => ((x.result σ).1, τ)
      | (.error raised, τ) => (.error raised, τ) := by
  unfold result ExceptT.run StateT.run
  simp only [tryFinally, MonadFinally.tryFinally', Functor.map, ExceptT.map, ExceptT.mk, bind,
    StateT.bind]
  generalize x σ = r
  obtain ⟨_ | a, τ⟩ := r
  · dsimp only
    generalize y τ = q
    obtain ⟨_ | _, υ⟩ := q <;> rfl
  · dsimp only
    generalize y τ = q
    obtain ⟨_ | _, υ⟩ := q <;> rfl

/-! ## Ends -/

/-- From one scene the work ends with an answer in another, whatever older temporary files there are
and whatever was logged before. -/
def Ends (x : Work α) (σ : Scene) (answer : Except Raised α) (τ : Scene) : Prop :=
  ∀ older earlier, x.result (σ.beside older earlier) = (answer, τ.beside older earlier)

section Ends

variable {x : Work α} {f : α → Work β} {y : Work Unit} {handle : Raised → Work α}
  {answer : Except Raised α} {σ τ υ : Scene} {a : α} {raised : Raised}

theorem Ends.result (hx : x.Ends σ answer τ) : x.result σ = (answer, τ) := by
  have hresult := hx [] []
  rwa [Scene.beside_nil, Scene.beside_nil] at hresult

/-- What the work answers depends on what is at the path, and on nothing else of the scene. -/
theorem Ends.answer_eq (hx : x.Ends ⟨σ.file, [], []⟩ answer τ) : (x.result σ).1 = answer := by
  have hresult := hx σ.temporaries σ.levels
  rw [Scene.bare_beside rfl] at hresult
  rw [hresult]

theorem ends_pure (a : α) (σ : Scene) : Ends (pure a) σ (.ok a) σ := fun _ _ => rfl

theorem ends_throw (raised : Raised) (σ : Scene) :
    Ends (throw raised : Work α) σ (.error raised) σ :=
  fun _ _ => rfl

theorem Ends.bind {answer : Except Raised β} (hx : x.Ends σ (.ok a) τ)
    (hf : (f a).Ends τ answer υ) : Ends (x >>= f) σ answer υ := by
  intro older earlier
  rw [result_bind, hx]
  exact hf older earlier

theorem Ends.bind_of_error (hx : x.Ends σ (.error raised) τ) :
    Ends (x >>= f) σ (.error raised) τ := by
  intro older earlier
  rw [result_bind, hx]

theorem ends_map {f : α → β} (hx : x.Ends σ (.ok a) τ) : Ends (f <$> x) σ (.ok (f a)) τ := by
  rw [← bind_pure_comp]
  exact hx.bind (ends_pure _ _)

theorem ends_map_of_error {f : α → β} (hx : x.Ends σ (.error raised) τ) :
    Ends (f <$> x) σ (.error raised) τ := by
  rw [← bind_pure_comp]
  exact hx.bind_of_error

theorem ends_tryCatch_of_ok (hx : x.Ends σ (.ok a) τ) : Ends (tryCatch x handle) σ (.ok a) τ := by
  intro older earlier
  rw [result_tryCatch, hx]

theorem ends_tryCatch (hx : x.Ends σ (.error raised) τ) (hhandle : (handle raised).Ends τ answer υ) :
    Ends (tryCatch x handle) σ answer υ := by
  intro older earlier
  rw [result_tryCatch, hx]
  exact hhandle older earlier

theorem ends_tryFinally (hx : x.Ends σ answer τ) (hy : y.Ends τ (.ok ()) υ) :
    Ends (tryFinally x y) σ answer υ := by
  intro older earlier
  rw [result_tryFinally, hx, hy]

theorem ends_tryFinally_of_error (hx : x.Ends σ answer τ) (hy : y.Ends τ (.error raised) υ) :
    Ends (tryFinally x y) σ (.error raised) υ := by
  intro older earlier
  rw [result_tryFinally, hx, hy]

end Ends

/-! ## Triples -/

/-- From every scene with one property the work has an end with another. -/
def Triple (before : Scene → Prop) (x : Work α) (after : Except Raised α → Scene → Prop) : Prop :=
  ∀ σ, before σ → ∃ answer τ, x.Ends σ answer τ ∧ after answer τ

section Triple

variable {before : Scene → Prop} {after : Except Raised α → Scene → Prop}
  {later : Except Raised β → Scene → Prop} {x : Work α} {f : α → Work β} {y : Work Unit}
  {handle : Raised → Work α}

theorem Triple.weaken {other : Scene → Prop} {weaker : Except Raised α → Scene → Prop}
    (hx : Triple before x after) (hbefore : ∀ σ, other σ → before σ)
    (hafter : ∀ answer τ, after answer τ → weaker answer τ) : Triple other x weaker := by
  intro σ hσ
  obtain ⟨answer, τ, hends, hτ⟩ := hx σ (hbefore σ hσ)
  exact ⟨answer, τ, hends, hafter answer τ hτ⟩

theorem Triple.result (hx : Triple before x after) (σ : Scene) (hσ : before σ) :
    after (x.result σ).1 (x.result σ).2 := by
  obtain ⟨answer, τ, hends, hτ⟩ := hx σ hσ
  rw [hends.result]
  exact hτ

theorem Triple.bind (hx : Triple before x after) (hf : ∀ a, Triple (after (.ok a)) (f a) later)
    (herror : ∀ raised τ, after (.error raised) τ → later (.error raised) τ) :
    Triple before (x >>= f) later := by
  intro σ hσ
  obtain ⟨answer, τ, hends, hτ⟩ := hx σ hσ
  cases answer with
  | error raised => exact ⟨.error raised, τ, hends.bind_of_error, herror raised τ hτ⟩
  | ok a =>
    obtain ⟨answer, υ, hrest, hυ⟩ := hf a τ hτ
    exact ⟨answer, υ, hends.bind hrest, hυ⟩

theorem triple_tryCatch {caught : Except Raised α → Scene → Prop} (hx : Triple before x after)
    (hhandle : ∀ raised, Triple (after (.error raised)) (handle raised) caught)
    (hok : ∀ a τ, after (.ok a) τ → caught (.ok a) τ) :
    Triple before (tryCatch x handle) caught := by
  intro σ hσ
  obtain ⟨answer, τ, hends, hτ⟩ := hx σ hσ
  cases answer with
  | ok a => exact ⟨.ok a, τ, ends_tryCatch_of_ok hends, hok a τ hτ⟩
  | error raised =>
    obtain ⟨answer, υ, hrest, hυ⟩ := hhandle raised τ hτ
    exact ⟨answer, υ, ends_tryCatch hends hrest, hυ⟩

end Triple

/-- The work keeps a property of scenes, whether it answers or fails. -/
def Keeps (kept : Scene → Prop) (x : Work α) : Prop := Triple kept x fun _ => kept

section Keeps

variable {kept : Scene → Prop} {x : Work α} {f : α → Work β} {y : Work Unit}
  {handle : Raised → Work α}

theorem keeps_pure (a : α) : Keeps kept (pure a) := fun σ hσ => ⟨_, σ, ends_pure a σ, hσ⟩

theorem keeps_throw (raised : Raised) : Keeps kept (throw raised : Work α) :=
  fun σ hσ => ⟨_, σ, ends_throw raised σ, hσ⟩

theorem Keeps.bind (hx : Keeps kept x) (hf : ∀ a, Keeps kept (f a)) : Keeps kept (x >>= f) :=
  Triple.bind hx hf fun _ _ h => h

theorem Keeps.andThen {later : Except Raised β → Scene → Prop} (hx : Keeps kept x)
    (hf : ∀ a, Triple kept (f a) later)
    (herror : ∀ raised τ, kept τ → later (.error raised) τ) : Triple kept (x >>= f) later :=
  Triple.bind hx hf herror

theorem keeps_tryCatch (hx : Keeps kept x) (hhandle : ∀ raised, Keeps kept (handle raised)) :
    Keeps kept (tryCatch x handle) :=
  triple_tryCatch hx hhandle fun _ _ h => h

theorem keeps_tryFinally (hx : Keeps kept x) (hy : Keeps kept y) :
    Keeps kept (tryFinally x y) := by
  intro σ hσ
  obtain ⟨answer, τ, hends, hτ⟩ := hx σ hσ
  obtain ⟨closed, υ, hrest, hυ⟩ := hy τ hτ
  cases closed with
  | ok _ => exact ⟨answer, υ, ends_tryFinally hends hrest, hυ⟩
  | error raised => exact ⟨.error raised, υ, ends_tryFinally_of_error hends hrest, hυ⟩

end Keeps

/-! ## How work fails -/

/-- If the work does not answer, it ends in one of some ways. -/
def Raises (x : Work α) (ways : Raised → Prop) : Prop :=
  ∀ σ raised τ, x.result σ = (.error raised, τ) → ways raised

section Raises

variable {ways : Raised → Prop} {x : Work α} {f : α → Work β} {y : Work Unit}
  {handle : Raised → Work α}

theorem raises_pure (a : α) : Raises (pure a) ways := by
  intro σ raised τ h
  change (Except.ok a, σ) = (Except.error raised, τ) at h
  cases h

theorem raises_throw {raised : Raised} (h : ways raised) : Raises (throw raised : Work α) ways := by
  intro σ other τ hresult
  change (Except.error raised, σ) = (Except.error other, τ) at hresult
  cases hresult
  exact h

theorem raises_get : Raises (get : Work Scene) ways := by
  intro σ raised τ h
  change (Except.ok σ, σ) = (Except.error raised, τ) at h
  cases h

theorem raises_modify (f : Scene → Scene) : Raises (modify f : Work Unit) ways := by
  intro σ raised τ h
  change (Except.ok (), f σ) = (Except.error raised, τ) at h
  cases h

theorem Raises.bind (hx : Raises x ways) (hf : ∀ a, Raises (f a) ways) :
    Raises (x >>= f) ways := by
  intro σ raised τ h
  rw [result_bind] at h
  split at h
  · exact hf _ _ _ _ h
  · rename_i hresult
    cases h
    exact hx _ _ _ hresult

theorem raises_map {f : α → β} (hx : Raises x ways) : Raises (f <$> x) ways := by
  rw [← bind_pure_comp]
  exact hx.bind fun _ => raises_pure _

theorem raises_tryCatch (before : Raised → Prop) (hx : Raises x before)
    (hhandle : ∀ raised, before raised → Raises (handle raised) ways) :
    Raises (tryCatch x handle) ways := by
  intro σ raised τ h
  rw [result_tryCatch] at h
  split at h
  · cases h
  · rename_i hresult
    exact hhandle _ (hx _ _ _ hresult) _ _ _ h

theorem raises_tryFinally (hx : Raises x ways) (hy : Raises y ways) :
    Raises (tryFinally x y) ways := by
  intro σ raised τ h
  rw [result_tryFinally] at h
  split at h
  · rename_i hclosed
    obtain ⟨hended, -⟩ := Prod.mk.inj h
    exact hx σ raised _ (Prod.ext hended rfl)
  · rename_i hclosed
    cases h
    exact hy _ _ _ hclosed

end Raises

/-! ## What work depends on -/

/-- From every scene the work has an end, beside whatever older temporary files there are. -/
def IsFramed (x : Work α) : Prop := Triple (fun _ => True) x fun _ _ => True

theorem isFramed_of_triple {x : Work α} {after : File → Except Raised α → Scene → Prop}
    (h : ∀ file, Triple (Scene.At file) x (after file)) : x.IsFramed := by
  intro σ _
  obtain ⟨answer, τ, hends, -⟩ := h σ.file σ rfl
  exact ⟨answer, τ, hends, trivial⟩

/-- Framed work depends on what is at the path alone. -/
theorem IsFramed.congr {x : Work α} (h : x.IsFramed) {σ τ : Scene} (hfile : σ.file = τ.file) :
    (x.result σ).1 = (x.result τ).1 ∧ (x.result σ).2.file = (x.result τ).2.file := by
  -- Both scenes are the same bare one, beside whatever else there is.
  obtain ⟨answer, υ, hends, -⟩ := h ⟨σ.file, [], []⟩ trivial
  have hσ := hends σ.temporaries σ.levels
  have hτ := hends τ.temporaries τ.levels
  rw [Scene.bare_beside rfl] at hσ
  rw [Scene.bare_beside hfile.symm] at hτ
  rw [hσ, hτ]
  exact ⟨rfl, rfl⟩

/-- The answers of work in turn, each with what is found at the path after it. -/
def inTurn (σ : Scene) : List (Work α) → List (Except Raised α × File)
  | [] => []
  | x :: xs =>
    let ended := x.result σ
    (ended.1, ended.2.file) :: inTurn ended.2 xs

/-- The scene after work in turn. -/
def sceneAfter (σ : Scene) (xs : List (Work α)) : Scene := xs.foldl (fun σ x => (x.result σ).2) σ

theorem inTurn_congr {xs : List (Work α)} (h : ∀ x ∈ xs, x.IsFramed) {σ τ : Scene}
    (hfile : σ.file = τ.file) : inTurn σ xs = inTurn τ xs := by
  induction xs generalizing σ τ with
  | nil => rfl
  | cons x xs ih =>
    obtain ⟨hx, hxs⟩ := List.forall_mem_cons.1 h
    obtain ⟨hanswer, hafter⟩ := hx.congr hfile
    unfold inTurn
    dsimp only
    rw [hanswer, hafter, ih hxs hafter]

end Work

end DeskCalculator
