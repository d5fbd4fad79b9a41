import DeskCalculator.Json.Coerce
import DeskCalculator.Json.Reader
import DeskCalculator.Proofs.Decimal.Digits
import DeskCalculator.Proofs.Json.Fields

/-!
# What the reader returns

* `Json.Readable` : no integer has too many digits, and no object has a key twice;
* `Json.readable_int_ofDigitChars` : an integer is readable if some spelling of it is short enough;
* `Json.readable_of_read` : the value of a text is readable;
* `Fields.readable_put`, `Fields.readable_remove` : so is an object after one of its fields changed.
-/

namespace DeskCalculator

/-! ## Readable values -/

namespace Json

/-- The values that the reader can return. -/
inductive Readable : Json → Prop
  | null : Readable .null
  | bool (b : Bool) : Readable (.bool b)
  | int {n : Int} (h : (decimalDigits n.natAbs).length ≤ maxIntegerDigits) : Readable (.int n)
  | real (x : Binary64) : Readable (.real x)
  | text (t : Text) : Readable (.text t)
  | list {items : List Json} (h : ∀ v ∈ items, Readable v) : Readable (.list items)
  | object {fields : Fields} (hkeys : (fields.map Prod.fst).Nodup)
      (h : ∀ f ∈ fields, Readable f.2) : Readable (.object fields)

theorem readable_int_ofDigitChars {ds : List Char} (hdigits : ∀ c ∈ ds, isDigit c = true)
    (hne : ds ≠ []) (hlength : ds.length ≤ maxIntegerDigits) {n : Int}
    (hn : n.natAbs = Nat.ofDigitChars 10 ds 0) : Readable (.int n) := by
  refine .int ?_
  rw [hn]
  exact Nat.le_trans (length_decimalDigits_ofDigitChars_le hdigits hne) hlength

end Json

/-! ## Fields -/

namespace Fields

/-- The objects that the reader can return. -/
structure Readable (fields : Fields) : Prop where
  keys_nodup : (fields.map Prod.fst).Nodup
  values : ∀ f ∈ fields, f.2.Readable

theorem readable_iff {fields : Fields} : (Json.object fields).Readable ↔ Readable fields := by
  constructor
  · rintro (_ | _ | _ | _ | _ | _ | ⟨hkeys, hvalues⟩)
    exact ⟨hkeys, hvalues⟩
  · intro h
    exact .object h.keys_nodup h.values

theorem readable_nil : Readable [] := ⟨List.nodup_nil, List.forall_mem_nil _⟩

theorem readable_put {fields : Fields} (h : Readable fields) (key : Text) {value : Json}
    (hvalue : value.Readable) : Readable (put key value fields) := by
  refine ⟨?_, fun f hf => ?_⟩
  · by_cases hkey : key ∈ fields.map Prod.fst
    · rw [map_fst_put_of_mem hkey]
      exact h.keys_nodup
    · rw [put_of_not_mem hkey, List.map_append]
      refine List.nodup_append.2 ⟨h.keys_nodup, by simp, ?_⟩
      intro k hk k' hk' heq
      rw [heq, List.mem_singleton.1 hk'] at hk
      exact hkey hk
  · rcases mem_put hf with rfl | hf
    · exact hvalue
    · exact h.values f hf

theorem readable_remove {fields : Fields} (h : Readable fields) (key : Text) :
    Readable (remove key fields) := by
  have hsub := sublist_remove key fields
  exact ⟨h.keys_nodup.sublist (hsub.map Prod.fst), fun f hf => h.values f (hsub.subset hf)⟩

theorem readable_of_get? {fields : Fields} (h : Readable fields) {key : Text} {value : Json}
    (hget : get? key fields = some value) : value.Readable :=
  h.values _ (mem_of_get? hget)

end Fields

namespace Json

/-! ## Tokens -/

def Token.Readable : Token → Prop
  | .scalar v => v.Readable
  | _ => True

theorem whole_of_splitNumber {cs rest : List Char} {n : Numeral}
    (h : splitNumber cs = some (n, rest)) : (∀ c ∈ n.whole, isDigit c = true) ∧ n.whole ≠ [] := by
  have hspan : ∀ ds : List Char, ∀ c ∈ (ds.span isDigit).1, isDigit c = true := by
    intro ds c hc
    rw [List.span_eq_takeWhile_dropWhile] at hc
    exact List.mem_takeWhile_imp hc
  have hzero : ∀ c ∈ ['0'], isDigit c = true := List.forall_mem_singleton.2 rfl
  unfold splitNumber at h
  dsimp only at h
  split at h
  · split at h
    · cases h
    · obtain ⟨rfl, -⟩ := Prod.mk.inj (Option.some.inj h)
      exact ⟨hzero, nofun⟩
  · split at h
    · cases h
    · rename_i hne
      obtain ⟨rfl, -⟩ := Prod.mk.inj (Option.some.inj h)
      exact ⟨hspan _, fun hnil => hne (List.isEmpty_iff.2 hnil)⟩

theorem readable_numberToken {n : Numeral} (hdigits : ∀ c ∈ n.whole, isDigit c = true)
    (hne : n.whole ≠ []) : (numberToken n).Readable := by
  unfold numberToken
  split
  · split
    · trivial
    · rename_i hlength
      refine readable_int_ofDigitChars hdigits hne (Nat.not_lt.1 hlength) ?_
      split <;> omega
  · exact .real _

theorem readable_of_namedValue? {word : String} {v : Json} (h : namedValue? word = some v) :
    v.Readable := by
  unfold namedValue? at h
  repeat' split at h
  all_goals cases h
  all_goals constructor

theorem readable_bareTokens (cs : List Char) : ∀ t ∈ bareTokens cs, t.Readable := by
  unfold bareTokens
  split
  · rename_i v hv
    intro t ht
    obtain rfl := List.mem_singleton.1 ht
    exact readable_of_namedValue? hv
  · split
    · rename_i n hn
      obtain ⟨hdigits, hne⟩ := whole_of_splitNumber hn
      intro t ht
      obtain rfl := List.mem_singleton.1 ht
      exact readable_numberToken hdigits hne
    · rename_i n c rest hn
      obtain ⟨hdigits, hne⟩ := whole_of_splitNumber hn
      exact List.forall_mem_cons.2
        ⟨readable_numberToken hdigits hne, List.forall_mem_singleton.2 trivial⟩
    · exact List.forall_mem_singleton.2 trivial

theorem readable_stepBetween (c : Char) : ∀ t ∈ (stepBetween c).1, t.Readable := by
  unfold stepBetween
  split
  · exact List.forall_mem_nil _
  · split
    · exact List.forall_mem_nil _
    · split
      · rename_i mark hmark
        refine List.forall_mem_singleton.2 ?_
        unfold punctuation? at hmark
        split at hmark <;> cases hmark <;> trivial
      · exact List.forall_mem_nil _

theorem readable_modeStep (mode : Mode) (c : Char) : ∀ t ∈ (mode.step c).1, t.Readable := by
  unfold Mode.step
  split
  · exact readable_stepBetween c
  · split
    · exact List.forall_mem_append.2 ⟨readable_bareTokens _, readable_stepBetween c⟩
    · exact List.forall_mem_nil _
  · repeat' split
    all_goals simp [Token.Readable, Json.Readable.text]
  · repeat' split
    all_goals simp [Token.Readable]
  · repeat' split
    all_goals simp [Token.Readable]
  · exact List.forall_mem_nil _

theorem readable_finish (mode : Mode) : ∀ t ∈ mode.finish, t.Readable := by
  cases mode with
  | between => exact List.forall_mem_nil _
  | bare word => exact readable_bareTokens _
  | string read => exact List.forall_mem_singleton.2 trivial
  | escape read => exact List.forall_mem_singleton.2 trivial
  | unit read digits value => exact List.forall_mem_singleton.2 trivial
  | broken => exact List.forall_mem_nil _

theorem readable_scan (mode : Mode) (cs : List Char) : ∀ t ∈ scan mode cs, t.Readable := by
  induction cs generalizing mode with
  | nil => exact readable_finish mode
  | cons c cs ih => exact List.forall_mem_append.2 ⟨readable_modeStep mode c, ih _⟩

/-! ## Values -/

def Frame.Readable : Frame → Prop
  | .list items => ∀ v ∈ items, v.Readable
  | .object fields _ => fields.Readable

/-- What is open, and what is complete, is readable. -/
def Phase.Readable : Phase → Prop
  | .value frames => ∀ f ∈ frames, f.Readable
  | .firstItem frames => ∀ f ∈ frames, f.Readable
  | .afterItem items frames => (∀ v ∈ items, v.Readable) ∧ ∀ f ∈ frames, f.Readable
  | .firstKey frames => ∀ f ∈ frames, f.Readable
  | .key fields frames => fields.Readable ∧ ∀ f ∈ frames, f.Readable
  | .colon fields _ frames => fields.Readable ∧ ∀ f ∈ frames, f.Readable
  | .afterField fields frames => fields.Readable ∧ ∀ f ∈ frames, f.Readable
  | .finished v => v.Readable
  | .failed _ => True

theorem readable_complete {v : Json} (hv : v.Readable) {frames : List Frame}
    (hframes : ∀ f ∈ frames, f.Readable) : (complete v frames).Readable := by
  cases frames with
  | nil => exact hv
  | cons f frames =>
    obtain ⟨hf, hrest⟩ := List.forall_mem_cons.1 hframes
    cases f with
    | list items => exact ⟨List.forall_mem_cons.2 ⟨hv, hf⟩, hrest⟩
    | object fields key => exact ⟨Fields.readable_put hf key hv, hrest⟩

theorem readable_startValue {t : Token} (ht : t.Readable) {frames : List Frame}
    (hframes : ∀ f ∈ frames, f.Readable) : (startValue frames t).Readable := by
  cases t with
  | scalar v => exact readable_complete ht hframes
  | openList => exact hframes
  | openObject => exact hframes
  | _ => trivial

theorem readable_phaseStep {p : Phase} (hp : p.Readable) {t : Token} (ht : t.Readable) :
    (p.step t).Readable := by
  unfold Phase.step
  split
  · exact readable_startValue ht hp
  · exact readable_complete (.list (List.forall_mem_nil _)) hp
  · exact readable_startValue ht (List.forall_mem_cons.2 ⟨List.forall_mem_nil _, hp⟩)
  · exact List.forall_mem_cons.2 hp
  · exact readable_complete (.list fun v hv => hp.1 v (List.mem_reverse.1 hv)) hp.2
  · exact readable_complete (Fields.readable_iff.2 Fields.readable_nil) hp
  · exact ⟨Fields.readable_nil, hp⟩
  · exact hp
  · exact List.forall_mem_cons.2 hp
  · exact hp
  · exact readable_complete (Fields.readable_iff.2 hp.1) hp.2
  · trivial
  · trivial

theorem readable_foldl {ts : List Token} (hts : ∀ t ∈ ts, t.Readable) {p : Phase}
    (hp : p.Readable) : (ts.foldl Phase.step p).Readable := by
  induction ts generalizing p with
  | nil => exact hp
  | cons t ts ih =>
    obtain ⟨ht, hts⟩ := List.forall_mem_cons.1 hts
    exact ih hts (readable_phaseStep hp ht)

/-- The value of a text is readable. -/
theorem readable_of_read {cs : List Char} {v : Json} (h : read cs = .ok v) : v.Readable := by
  have hstart : (Phase.value []).Readable := List.forall_mem_nil _
  have hrun := readable_foldl (readable_scan .between cs) hstart
  unfold read ofTokens at h
  split at h
  · rename_i w hw
    obtain rfl := Except.ok.inj h
    unfold tokens at hw
    rwa [hw] at hrun
  · cases h
  · cases h

end Json

end DeskCalculator
