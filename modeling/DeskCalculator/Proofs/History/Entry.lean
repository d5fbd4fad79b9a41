import DeskCalculator.History.Entry
import DeskCalculator.Proofs.Json.Readable
import DeskCalculator.Proofs.Json.Written

/-!
# Entries read back

* `Entry.ofJson?_toJson` : a stored entry stands for the entry; `Entry.exists_of_ofJson?` : what a
  value that stands for one holds;
* `Entry.IsTimely` : an entry whose time is not too long to be read, so that it can be stored and
  read again (`Entry.readable_toJson`); `Entry.isTimely_of_ofJson?` : an entry that was read is one,
  also when its time was given leniently, and `readable_int_milliseconds` : so is one of the clock;
* `Entry.IsWhole` : an entry whose expression has no lone halves; `Entry.whole_toJson_iff` : these
  are the ones that are stored without any, and `Entry.isWhole_of_ofJson?` : an entry that was read
  of a value without any is one.
-/

namespace DeskCalculator

/-! ## Integers short enough to be read -/

namespace Json

theorem readable_int_of_natAbs_lt {n : Int} {k : Nat} (h : n.natAbs < 10 ^ k) (hpos : 0 < k)
    (hk : k ≤ maxIntegerDigits) : Readable (.int n) :=
  .int (Nat.le_trans ((Nat.length_toDigits_le_iff (by decide) hpos).2 h) hk)

theorem exists_natural {o : Option Nat} {n : Int}
    (h : (do let m ← o; pure (m : Int)) = some n) : ∃ m, o = some m ∧ n = m := by
  cases o with
  | none => cases h
  | some m => exact ⟨m, rfl, (Option.some.inj h).symm⟩

theorem readable_of_plainNatural? {digits : List Char} {m : Nat}
    (h : plainNatural? digits = some m) {n : Int} (hn : n.natAbs = m) : Readable (.int n) := by
  unfold plainNatural? at h
  split at h
  · cases h
  · rename_i hplain
    obtain rfl := Option.some.inj h
    simp only [Bool.or_eq_true, not_or, Bool.not_eq_true, Bool.not_eq_false', decide_eq_false_iff_not,
      List.isEmpty_eq_false_iff, List.all_eq_true] at hplain
    obtain ⟨⟨⟨hne, hdigits⟩, hlength⟩, -⟩ := hplain
    exact readable_int_ofDigitChars hdigits hne (Nat.not_lt.1 hlength) hn

theorem readable_of_readInteger? {cs : List Char} {n : Int} (h : readInteger? cs = some n) :
    Readable (.int n) := by
  unfold readInteger? at h
  dsimp only at h
  split at h
  · split at h
    · obtain ⟨_, hmap, rfl⟩ := Option.map_eq_some_iff.1 h
      obtain ⟨m, hm, rfl⟩ := exists_natural hmap
      exact readable_of_plainNatural? hm (Int.natAbs_neg m)
    · unfold plainInteger? at h
      split at h
      · obtain ⟨_, hmap, rfl⟩ := Option.map_eq_some_iff.1 h
        obtain ⟨m, hm, rfl⟩ := exists_natural hmap
        exact readable_of_plainNatural? hm (Int.natAbs_neg m)
      · obtain ⟨_, hmap, rfl⟩ := Option.map_eq_some_iff.1 h
        obtain ⟨m, hm, rfl⟩ := exists_natural hmap
        exact readable_of_plainNatural? hm (Int.natAbs_natCast m)
  · cases h

/-- The integer that a readable value stands for is readable. -/
theorem readable_of_toInteger {v : Json} (hv : v.Readable) {n : Int} (h : v.toInteger = .ok n) :
    Readable (.int n) := by
  unfold toInteger at h
  split at h
  · obtain rfl := Except.ok.inj h
    exact hv
  · split at h
    · split at h
      · rename_i hrange
        obtain rfl := Except.ok.inj h
        have hbound : 2 ^ 63 < 10 ^ 19 := by decide
        exact readable_int_of_natAbs_lt (k := 19) (by omega) (by decide) (by decide)
      · cases h
    · cases h
  · obtain rfl := Except.ok.inj h
    exact .int (by decide)
  · obtain rfl := Except.ok.inj h
    exact .int (by decide)
  · split at h
    · cases h
    · split at h
      · rename_i hread
        obtain rfl := Except.ok.inj h
        exact readable_of_readInteger? hread
      · cases h
  · cases h

end Json

/-! ## Clock readings -/

theorem units_lt (rank : Nat) : units rank < 2 ^ (53 + (rank / 2 ^ 52 - 1)) := by
  unfold units
  split
  · rename_i hsmall
    exact Nat.lt_of_lt_of_le hsmall (Nat.pow_le_pow_right (by decide) (by omega))
  · have hplace : rank % 2 ^ 52 < 2 ^ 52 := Nat.mod_lt _ (by decide)
    rw [Nat.pow_add]
    exact Nat.mul_lt_mul_of_pos_right (by omega) (Nat.two_pow_pos _)

theorem readable_int_truncate (x : Binary64) : (Json.int x.truncate).Readable := by
  cases x with
  | nan => exact .int (by decide)
  | infinite negative => exact .int (show (decimalDigits 0).length ≤ _ by decide)
  | finite negative rank =>
    have hrank : rank.val < 2047 * 2 ^ 52 := rank.isLt
    have hwhole : (Binary64.finite negative rank).truncate.natAbs = units rank / unitsInOne := by
      unfold Binary64.truncate
      dsimp only
      split
      · rw [Int.natAbs_neg, Int.natAbs_natCast]
      · rw [Int.natAbs_natCast]
    refine Json.readable_int_of_natAbs_lt (k := 53 + (rank.val / 2 ^ 52 - 1)) ?_ (by omega) ?_
    · calc (Binary64.finite negative rank).truncate.natAbs
          ≤ units rank := by rw [hwhole]; exact Nat.div_le_self _ _
        _ < 2 ^ (53 + (rank.val / 2 ^ 52 - 1)) := units_lt rank
        _ ≤ 10 ^ (53 + (rank.val / 2 ^ 52 - 1)) := Nat.pow_le_pow_left (by decide) _
    · show 53 + (rank.val / 2 ^ 52 - 1) ≤ 4300
      omega

theorem readable_int_milliseconds (now : Binary64) : (Json.int (milliseconds now)).Readable :=
  readable_int_truncate _

/-! ## Entries -/

namespace Entry

/-- A stored entry stands for the entry. -/
@[simp] theorem ofJson?_toJson (e : Entry) : ofJson? e.toJson = some e := rfl

/-- A value that stands for an entry holds its expression as a text, and its time in some form. -/
theorem exists_of_ofJson? {v : Json} {e : Entry} (h : ofJson? v = some e) :
    ∃ fields w, v = .object fields ∧
      Fields.get? (.ofString "expr") fields = some (.text e.expression) ∧
      Fields.get? (.ofString "ts") fields = some w ∧ w.toInteger = .ok e.time := by
  unfold ofJson? at h
  split at h
  · rename_i fields
    obtain ⟨t, hexpr, h⟩ := Option.bind_eq_some_iff.1 h
    obtain ⟨expression, htext, h⟩ := Option.bind_eq_some_iff.1 h
    obtain ⟨_, -, h⟩ := Option.bind_eq_some_iff.1 h
    obtain ⟨_, -, h⟩ := Option.bind_eq_some_iff.1 h
    obtain ⟨w, hts, h⟩ := Option.bind_eq_some_iff.1 h
    obtain ⟨time, htime, h⟩ := Option.bind_eq_some_iff.1 h
    obtain rfl := Option.some.inj h
    refine ⟨fields, w, rfl, ?_, hts, ?_⟩
    · cases t with
      | text t =>
        obtain rfl := Option.some.inj htext
        exact hexpr
      | _ => cases htext
    · cases hinteger : w.toInteger with
      | ok n =>
        rw [hinteger] at htime
        exact congrArg Except.ok (Option.some.inj htime)
      | error mismatch =>
        rw [hinteger] at htime
        cases htime
  · cases h

/-- The entries that can be stored and read again. -/
def IsTimely (e : Entry) : Prop := (Json.int e.time).Readable

theorem readable_toJson {e : Entry} (h : e.IsTimely) : e.toJson.Readable := by
  refine .object ?_ ?_
  · show [Text.ofString "expr", Text.ofString "result", Text.ofString "ts"].Nodup
    decide
  · refine List.forall_mem_cons.2 ⟨.text _, List.forall_mem_cons.2 ⟨.real _, ?_⟩⟩
    exact List.forall_mem_singleton.2 h

theorem isTimely_of_ofJson? {v : Json} (hv : v.Readable) {e : Entry} (h : ofJson? v = some e) :
    e.IsTimely := by
  obtain ⟨fields, w, rfl, -, hts, htime⟩ := exists_of_ofJson? h
  exact Json.readable_of_toInteger (Fields.readable_of_get? (Fields.readable_iff.1 hv) hts) htime

/-- The entries without lone halves. -/
def IsWhole (e : Entry) : Prop := e.expression.IsWhole

theorem isWhole_ofChars (cs : List Char) (result : Binary64) (time : Int) :
    IsWhole ⟨.ofChars cs, result, time⟩ := ⟨cs, rfl⟩

theorem whole_toJson_iff {e : Entry} : e.toJson.Whole ↔ e.IsWhole := by
  have hname : ∀ name : String, (Text.ofString name).IsWhole := fun name => ⟨name.toList, rfl⟩
  constructor
  · intro h
    exact Json.whole_text_iff.1 (Json.whole_object_iff.1 h _ List.mem_cons_self).2
  · refine fun h => Json.whole_object_iff.2 (List.forall_mem_cons.2 ⟨⟨hname _, .text h⟩, ?_⟩)
    exact List.forall_mem_cons.2
      ⟨⟨hname _, .real _⟩, List.forall_mem_singleton.2 ⟨hname _, .int _⟩⟩

theorem isWhole_of_ofJson? {v : Json} (hv : v.Whole) {e : Entry} (h : ofJson? v = some e) :
    e.IsWhole := by
  obtain ⟨fields, -, rfl, hexpr, -, -⟩ := exists_of_ofJson? h
  exact Json.whole_text_iff.1 (Json.whole_object_iff.1 hv _ (Fields.mem_of_get? hexpr)).2

end Entry

end DeskCalculator
