import DeskCalculator.Proofs.Json.Numeral
import DeskCalculator.Proofs.Json.Readable

/-!
# What is written is read back

* `Json.Reads text p q` : a reader in phase `p` is in phase `q` after the text, whatever follows that
  ends a word;
* `Reads.mark`, `Reads.gap`, `Reads.append_mark` : texts in a row;
* `Json.reads_render` : the text of a readable value completes the value, in any open frames;
* `Json.read_render` : so the text of a readable value reads as the value.
-/

namespace DeskCalculator.Json

/-! ## Texts in a row -/

/-- The text takes a reader from one phase to another. -/
def Reads (text : Text) (p q : Phase) : Prop :=
  ∀ cs rest, text = Text.ofChars cs → EndsWord rest →
    (scan .between (cs ++ rest)).foldl Phase.step p = (scan .between rest).foldl Phase.step q

variable {p q r : Phase} {a b : Text} {c : Char} {t : Token} {v : Json}

theorem Reads.nil (p : Phase) : Reads [] p p := by
  intro cs rest hcs _
  obtain rfl := List.map_eq_nil_iff.1 hcs.symm
  rfl

theorem scan_punctuation (hc : punctuation? c = some t) (cs : List Char) :
    scan .between (c :: cs) = t :: scan .between cs := by
  have hgap : isGap c = false := by
    unfold punctuation? at hc
    split at hc
    case h_7 => cases hc
    all_goals rfl
  have hquote : c ≠ '"' := by
    rintro rfl
    cases hc
  show (stepBetween c).1 ++ scan (stepBetween c).2 cs = _
  unfold stepBetween
  rw [hgap, if_neg Bool.false_ne_true, if_neg hquote, hc]
  rfl

theorem Reads.mark (hc : punctuation? c = some t) (h : Reads a (p.step t) q) :
    Reads (.char c :: a) p q := by
  intro cs rest hcs hrest
  obtain ⟨d, tail, rfl, hd, htail⟩ := List.map_eq_cons_iff.1 hcs.symm
  obtain rfl := Glyph.char.inj hd
  rw [List.cons_append, scan_punctuation hc, List.foldl_cons]
  exact h tail rest htail.symm hrest

theorem Reads.gap (h : Reads a p q) : Reads (.char ' ' :: a) p q := by
  intro cs rest hcs hrest
  obtain ⟨d, tail, rfl, hd, htail⟩ := List.map_eq_cons_iff.1 hcs.symm
  obtain rfl := Glyph.char.inj hd
  exact h tail rest htail.symm hrest

/-- A punctuation mark ends what is in front of it. -/
theorem Reads.append_mark (ha : Reads a p q) (hc : punctuation? c = some t)
    (hb : Reads b (q.step t) r) : Reads (a ++ .char c :: b) p r := by
  intro cs rest hcs hrest
  obtain ⟨front, back, rfl, hfront, hback⟩ := List.map_eq_append_iff.1 hcs.symm
  obtain ⟨d, tail, rfl, hd, htail⟩ := List.map_eq_cons_iff.1 hback
  obtain rfl := Glyph.char.inj hd
  have hends := endsWord_cons (isBare_of_punctuation? hc) (tail ++ rest)
  rw [List.append_assoc, List.cons_append, ha front _ hfront.symm hends]
  exact Reads.mark hc hb (d :: tail) rest hback.symm hrest

/-! ## Values -/

theorem reads_word {cs : List Char} (h : IsWord cs v) (p : Phase) :
    Reads (Text.ofChars cs) p (p.step (.scalar v)) := by
  intro ds rest hds hrest
  obtain rfl := (List.map_inj_right fun _ _ => Glyph.char.inj).1 hds
  rw [h.scan hrest, List.foldl_cons]

theorem reads_text (text : Text) (p : Phase) :
    Reads (renderText text) p (p.step (.scalar (.text text))) := by
  intro cs rest hcs _
  rw [scan_renderText hcs, List.foldl_cons]

/-- A value may start in the phase, in the given frames. -/
def Phase.Awaits (p : Phase) (frames : List Frame) : Prop :=
  ∀ t, t ≠ .closeList → p.step t = startValue frames t

theorem awaits_value (frames : List Frame) : (Phase.value frames).Awaits frames :=
  fun _ _ => rfl

theorem awaits_firstItem (frames : List Frame) :
    (Phase.firstItem frames).Awaits (.list [] :: frames) := by
  intro t ht
  cases t with
  | closeList => exact absurd rfl ht
  | _ => rfl

/-- The text of the value completes it wherever a value may start. -/
def ReadsBack (v : Json) : Prop :=
  ∀ (p : Phase) (frames : List Frame), p.Awaits frames → Reads (render v) p (complete v frames)

theorem readsBack_scalar (h : ∀ p : Phase, Reads (render v) p (p.step (.scalar v))) :
    ReadsBack v := by
  intro p frames hp
  have hread := h p
  rwa [hp (.scalar v) nofun] at hread

theorem readsBack_word {cs : List Char} (hcs : render v = Text.ofChars cs) (h : IsWord cs v) :
    ReadsBack v := by
  refine readsBack_scalar fun p => ?_
  rw [hcs]
  exact reads_word h p

/-! ### Lists -/

theorem reads_renderItems {items : List Json} (h : ∀ v ∈ items, ReadsBack v) (hne : items ≠ [])
    (before : List Json) (frames : List Frame) {p : Phase} (hp : p.Awaits (.list before :: frames)) :
    Reads (renderItems items) p (.afterItem (items.reverse ++ before) frames) := by
  induction items generalizing before p with
  | nil => exact absurd rfl hne
  | cons v items ih =>
    obtain ⟨hv, hitems⟩ := List.forall_mem_cons.1 h
    have hfirst := hv p _ hp
    cases items with
    | nil => exact hfirst
    | cons w items =>
      have hrest := ih hitems (List.cons_ne_nil _ _) (v :: before) (awaits_value _)
      rw [List.reverse_cons, List.append_assoc]
      exact hfirst.append_mark rfl hrest.gap

theorem readsBack_list {items : List Json} (h : ∀ v ∈ items, ReadsBack v) :
    ReadsBack (.list items) := by
  intro p frames hp
  refine Reads.mark rfl ?_
  rw [hp .openList nofun]
  cases items with
  | nil => exact Reads.mark rfl (Reads.nil _)
  | cons v items =>
    have hitems := reads_renderItems h (List.cons_ne_nil _ _) [] frames (awaits_firstItem frames)
    refine hitems.append_mark rfl ?_
    rw [List.append_nil]
    show Reads [] (complete (.list (v :: items).reverse.reverse) frames) _
    rw [List.reverse_reverse]
    exact Reads.nil _

/-! ### Objects -/

/-- A key may stand in the phase, after the given fields. -/
def Phase.AwaitsKey (p : Phase) (fields : Fields) (frames : List Frame) : Prop :=
  ∀ k, p.step (.scalar (.text k)) = .colon fields k frames

theorem reads_renderField {f : Text × Json} (hf : ReadsBack f.2) {before : Fields}
    (hkey : f.1 ∉ before.map Prod.fst) {frames : List Frame} {p : Phase}
    (hp : p.AwaitsKey before frames) :
    Reads (renderField f) p (.afterField (before ++ [f]) frames) := by
  obtain ⟨k, v⟩ := f
  have hk := reads_text k p
  rw [hp k] at hk
  have hv := hf (.value (.object before k :: frames)) _ (awaits_value _)
  have hput : complete v (.object before k :: frames) = .afterField (before ++ [(k, v)]) frames :=
    congrArg (Phase.afterField · frames) (Fields.put_of_not_mem hkey v)
  rw [hput] at hv
  exact hk.append_mark rfl hv.gap

theorem reads_renderFields {fields : Fields} (h : ∀ f ∈ fields, ReadsBack f.2) (hne : fields ≠ [])
    (before : Fields) (hkeys : ((before ++ fields).map Prod.fst).Nodup) (frames : List Frame)
    {p : Phase} (hp : p.AwaitsKey before frames) :
    Reads (renderFields fields) p (.afterField (before ++ fields) frames) := by
  induction fields generalizing before p with
  | nil => exact absurd rfl hne
  | cons f fields ih =>
    obtain ⟨hf, hfields⟩ := List.forall_mem_cons.1 h
    have hkey : f.1 ∉ before.map Prod.fst := by
      intro hmem
      rw [List.map_append, List.nodup_append] at hkeys
      exact hkeys.2.2 f.1 hmem f.1 List.mem_cons_self rfl
    have hfirst := reads_renderField hf hkey hp
    cases fields with
    | nil => exact hfirst
    | cons g fields =>
      rw [List.append_cons] at hkeys ⊢
      have hnext : (Phase.key (before ++ [f]) frames).AwaitsKey (before ++ [f]) frames :=
        fun _ => rfl
      have hrest := ih hfields (List.cons_ne_nil _ _) (before ++ [f]) hkeys hnext
      exact hfirst.append_mark rfl hrest.gap

theorem readsBack_object {fields : Fields} (hkeys : (fields.map Prod.fst).Nodup)
    (h : ∀ f ∈ fields, ReadsBack f.2) : ReadsBack (.object fields) := by
  intro p frames hp
  refine Reads.mark rfl ?_
  rw [hp .openObject nofun]
  cases fields with
  | nil => exact Reads.mark rfl (Reads.nil _)
  | cons f fields =>
    have hkey : (Phase.firstKey frames).AwaitsKey [] frames := fun _ => rfl
    have hfields := reads_renderFields h (List.cons_ne_nil _ _) [] hkeys frames hkey
    exact hfields.append_mark rfl (Reads.nil _)

/-! ## Whole texts -/

/-- The text of a readable value completes the value. -/
theorem reads_render (h : v.Readable) : ReadsBack v := by
  induction h with
  | null => exact readsBack_word rfl ⟨nofun, List.all_eq_true.1 (by decide), rfl⟩
  | bool b =>
    cases b with
    | false => exact readsBack_word rfl ⟨nofun, List.all_eq_true.1 (by decide), rfl⟩
    | true => exact readsBack_word rfl ⟨nofun, List.all_eq_true.1 (by decide), rfl⟩
  | int hlength => exact readsBack_word rfl (isWord_renderInt hlength)
  | real x => exact readsBack_word rfl (isWord_numeral x)
  | text t => exact readsBack_scalar (reads_text t)
  | list _ ih => exact readsBack_list ih
  | object hkeys _ ih => exact readsBack_object hkeys ih

/-- **What is written of a readable value is read as the value.** -/
theorem read_render (h : v.Readable) {cs : List Char} (hcs : render v = Text.ofChars cs) :
    read cs = .ok v := by
  have hrun := reads_render h (.value []) [] (awaits_value []) cs [] hcs endsWord_nil
  rw [List.append_nil] at hrun
  unfold read ofTokens tokens
  rw [hrun]
  rfl

end DeskCalculator.Json
