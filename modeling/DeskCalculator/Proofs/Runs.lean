import Mathlib.Data.List.Chain
import Mathlib.Data.List.Forall2

/-!
# Runs that may stop at a fault

* `ok_bind` : a step after one that ended; `bind_eq_ok`, `bind_eq_error` : how two
  steps in a row end;
* `foldlM_cons_eq_ok`, `exists_append_of_foldlM_eq_error`, `exists_of_foldlM_eq_error` : how a run
  over a list ends;
* `mapM_cons_eq_ok_iff`, `mapM_append_eq_ok_iff`, `exists_append_of_mapM_eq_ok` : how a step on each
  element alone ends over the parts of a list;
* `forall₂_of_mapM_eq_ok`, `exists_of_mem_of_mapM_eq_ok`, `isChain_of_mapM_eq_ok` : and over its
  elements;
* `mapM_eq_ok_iff`, `exists_mapM_eq_ok_iff`, `mapM_eq_error_iff`, `mapM_append_cons_eq` : such a run
  ends when every step does, and else with the leftmost fault, whatever follows that.
-/

namespace DeskCalculator

variable {ε α β : Type}

theorem ok_bind (a : α) (f : α → Except ε β) : (Except.ok a >>= f) = f a := rfl

theorem bind_eq_ok {x : Except ε α} {f : α → Except ε β} {b : β} :
    (x >>= f) = .ok b ↔ ∃ a, x = .ok a ∧ f a = .ok b := by
  cases x with
  | error e => exact ⟨fun h => (nomatch h), fun ⟨a, ha, _⟩ => (nomatch ha)⟩
  | ok a => exact ⟨fun h => ⟨a, rfl, h⟩, fun ⟨_, ha, h⟩ => Except.ok.inj ha ▸ h⟩

theorem bind_eq_error {x : Except ε α} {f : α → Except ε β} {e : ε} :
    (x >>= f) = .error e ↔ x = .error e ∨ ∃ a, x = .ok a ∧ f a = .error e := by
  cases x with
  | error d =>
    refine ⟨fun h => .inl (Except.error.inj h ▸ rfl), ?_⟩
    rintro (h | ⟨a, ha, -⟩)
    · exact Except.error.inj h ▸ rfl
    · cases ha
  | ok a =>
    refine ⟨fun h => .inr ⟨a, rfl, h⟩, ?_⟩
    rintro (h | ⟨a', ha, h⟩)
    · cases h
    · exact Except.ok.inj ha ▸ h

theorem foldlM_cons_eq_ok {f : β → α → Except ε β} {b b' : β} {a : α} {as : List α} :
    (a :: as).foldlM f b = .ok b' ↔ ∃ mid, f b a = .ok mid ∧ as.foldlM f mid = .ok b' := by
  rw [List.foldlM_cons]
  exact bind_eq_ok

/-- A run that stops gets to some element, and there the step stops. -/
theorem exists_append_of_foldlM_eq_error {f : β → α → Except ε β} {b : β} {as : List α} {e : ε}
    (h : as.foldlM f b = .error e) : ∃ before a after mid,
      as = before ++ a :: after ∧ before.foldlM f b = .ok mid ∧ f mid a = .error e := by
  induction as generalizing b with
  | nil => cases h
  | cons a as ih =>
    rw [List.foldlM_cons] at h
    rcases bind_eq_error.1 h with h | ⟨mid, hstep, h⟩
    · exact ⟨[], a, as, b, rfl, rfl, h⟩
    · obtain ⟨before, a', after, last, rfl, hrun, hlast⟩ := ih h
      exact ⟨a :: before, a', after, last, rfl, foldlM_cons_eq_ok.2 ⟨mid, hstep, hrun⟩, hlast⟩

theorem exists_of_foldlM_eq_error {f : β → α → Except ε β} {b : β} {as : List α} {e : ε}
    (h : as.foldlM f b = .error e) : ∃ a ∈ as, ∃ mid, f mid a = .error e := by
  obtain ⟨before, a, after, mid, rfl, -, hmid⟩ := exists_append_of_foldlM_eq_error h
  exact ⟨a, by simp, mid, hmid⟩

theorem mapM_cons_eq_ok_iff {f : α → Except ε β} {a : α} {as : List α} {bs : List β} :
    (a :: as).mapM f = .ok bs ↔ ∃ b us, bs = b :: us ∧ f a = .ok b ∧ as.mapM f = .ok us := by
  rw [List.mapM_cons]
  constructor
  · intro h
    obtain ⟨b, hb, h⟩ := bind_eq_ok.1 h
    obtain ⟨us, hus, h⟩ := bind_eq_ok.1 h
    exact ⟨b, us, (Except.ok.inj h).symm, hb, hus⟩
  · rintro ⟨b, us, rfl, hb, hus⟩
    rw [hb, ok_bind, hus]
    rfl

theorem mapM_cons_eq_ok {f : α → Except ε β} {a : α} {as : List α} {b : β} {bs : List β}
    (ha : f a = .ok b) (has : as.mapM f = .ok bs) : (a :: as).mapM f = .ok (b :: bs) :=
  mapM_cons_eq_ok_iff.2 ⟨b, bs, rfl, ha, has⟩

theorem mapM_append_eq_ok_iff {f : α → Except ε β} {as as' : List α} {bs : List β} :
    (as ++ as').mapM f = .ok bs ↔
      ∃ us vs, bs = us ++ vs ∧ as.mapM f = .ok us ∧ as'.mapM f = .ok vs := by
  rw [List.mapM_append]
  constructor
  · intro h
    obtain ⟨us, hus, h⟩ := bind_eq_ok.1 h
    obtain ⟨vs, hvs, h⟩ := bind_eq_ok.1 h
    exact ⟨us, vs, (Except.ok.inj h).symm, hus, hvs⟩
  · rintro ⟨us, vs, rfl, hus, hvs⟩
    rw [hus, hvs]
    rfl

/-- What a run gives is split where what it is over is. -/
theorem exists_append_of_mapM_eq_ok {f : α → Except ε β} {as : List α} {bs bs' : List β}
    (h : as.mapM f = .ok (bs ++ bs')) : ∃ front back, as = front ++ back ∧
      front.mapM f = .ok bs ∧ back.mapM f = .ok bs' := by
  induction bs generalizing as with
  | nil => exact ⟨[], as, rfl, rfl, h⟩
  | cons b bs ih =>
    cases as with
    | nil => cases h
    | cons a as =>
      obtain ⟨b', cs, hcons, ha, has⟩ := mapM_cons_eq_ok_iff.1 h
      obtain ⟨rfl, rfl⟩ := List.cons.inj hcons
      obtain ⟨front, back, rfl, hfront, hback⟩ := ih has
      exact ⟨a :: front, back, rfl, mapM_cons_eq_ok ha hfront, hback⟩

theorem forall₂_of_mapM_eq_ok {f : α → Except ε β} {as : List α} {bs : List β}
    (h : as.mapM f = .ok bs) : List.Forall₂ (fun a b => f a = .ok b) as bs := by
  induction as generalizing bs with
  | nil =>
    obtain rfl := Except.ok.inj h
    exact .nil
  | cons a as ih =>
    obtain ⟨b, us, rfl, hb, hus⟩ := mapM_cons_eq_ok_iff.1 h
    exact .cons hb (ih hus)

theorem exists_of_mem_of_mapM_eq_ok {f : α → Except ε β} {as : List α} {bs : List β}
    (h : as.mapM f = .ok bs) {b : β} (hb : b ∈ bs) : ∃ a ∈ as, f a = .ok b := by
  have hall := forall₂_of_mapM_eq_ok h
  clear h
  induction hall with
  | nil => cases hb
  | @cons a b' as bs hab _ ih =>
    rcases List.mem_cons.1 hb with rfl | hb
    · exact ⟨a, List.mem_cons_self, hab⟩
    · obtain ⟨a', ha', hfa⟩ := ih hb
      exact ⟨a', List.mem_cons_of_mem a ha', hfa⟩

theorem exists_mem_of_mapM_eq_ok {f : α → Except ε β} {as : List α} {bs : List β}
    (h : as.mapM f = .ok bs) {a : α} (ha : a ∈ as) : ∃ b ∈ bs, f a = .ok b := by
  obtain ⟨front, back, rfl⟩ := List.append_of_mem ha
  obtain ⟨us, vs, rfl, -, hvs⟩ := mapM_append_eq_ok_iff.1 h
  obtain ⟨b, ws, rfl, hb, -⟩ := mapM_cons_eq_ok_iff.1 hvs
  exact ⟨b, by simp, hb⟩

/-- What holds of neighbours before the step and implies something of what they become holds so of
all neighbours after it. -/
theorem isChain_of_mapM_eq_ok {f : α → Except ε β} {R : α → α → Prop} {S : β → β → Prop}
    {as : List α} {bs : List β} (h : as.mapM f = .ok bs) (hR : as.IsChain R)
    (hstep : ∀ a ∈ as, ∀ a' ∈ as, ∀ b b', R a a' → f a = .ok b → f a' = .ok b' → S b b') :
    bs.IsChain S := by
  have hall := forall₂_of_mapM_eq_ok h
  clear h
  induction hall with
  | nil => exact List.isChain_nil
  | @cons a b as bs hab hrest ih =>
    cases hrest with
    | nil => exact List.isChain_singleton b
    | @cons a' b' as bs hab' hrest =>
      rw [List.isChain_cons_cons] at hR ⊢
      refine ⟨hstep a (by simp) a' (by simp) b b' hR.1 hab hab', ih hR.2 ?_⟩
      intro c hc c' hc'
      exact hstep c (List.mem_cons_of_mem a hc) c' (List.mem_cons_of_mem a hc')

theorem forall₂_congr_of_mem {p : α → Prop} {R S : α → β → Prop} {as : List α} {bs : List β}
    (hp : ∀ a ∈ as, p a) (h : ∀ a b, p a → (R a b ↔ S a b)) :
    List.Forall₂ R as bs ↔ List.Forall₂ S as bs := by
  constructor
  · intro hall
    exact ((List.forall₂_and_left as bs).2 ⟨hp, hall⟩).imp fun a b hab => (h a b hab.1).1 hab.2
  · intro hall
    exact ((List.forall₂_and_left as bs).2 ⟨hp, hall⟩).imp fun a b hab => (h a b hab.1).2 hab.2

/-! ## The leftmost fault -/

theorem mapM_eq_ok_iff {f : α → Except ε β} {as : List α} {bs : List β} :
    as.mapM f = .ok bs ↔ List.Forall₂ (fun a b => f a = .ok b) as bs := by
  refine ⟨forall₂_of_mapM_eq_ok, fun hall => ?_⟩
  induction hall with
  | nil => rfl
  | cons hab _ ih => exact mapM_cons_eq_ok hab ih

theorem exists_mapM_eq_ok_iff {f : α → Except ε β} {as : List α} :
    (∃ bs, as.mapM f = .ok bs) ↔ ∀ a ∈ as, ∃ b, f a = .ok b := by
  constructor
  · rintro ⟨bs, hbs⟩ a ha
    obtain ⟨i, hi, rfl⟩ := List.mem_iff_getElem.1 ha
    have hall := forall₂_of_mapM_eq_ok hbs
    exact ⟨_, List.Forall₂.get hall hi (hall.length_eq ▸ hi)⟩
  · intro hall
    induction as with
    | nil => exact ⟨[], rfl⟩
    | cons a as ih =>
      obtain ⟨b, hb⟩ := hall a List.mem_cons_self
      obtain ⟨bs, hbs⟩ := ih fun a' ha' => hall a' (List.mem_cons_of_mem a ha')
      exact ⟨b :: bs, mapM_cons_eq_ok hb hbs⟩

/-- The fault is that of the leftmost element with one, whatever follows it. -/
theorem mapM_eq_error_iff {f : α → Except ε β} {as : List α} {e : ε} :
    as.mapM f = .error e ↔ ∃ before a after, as = before ++ a :: after ∧
      (∀ a' ∈ before, ∃ b, f a' = .ok b) ∧ f a = .error e := by
  constructor
  · intro h
    induction as with
    | nil => cases h
    | cons a as ih =>
      rw [List.mapM_cons] at h
      rcases bind_eq_error.1 h with h | ⟨b, hb, h⟩
      · exact ⟨[], a, as, rfl, List.forall_mem_nil _, h⟩
      · rcases bind_eq_error.1 h with h | ⟨bs, -, h⟩
        · obtain ⟨before, a', after, rfl, hbefore, hfault⟩ := ih h
          exact ⟨a :: before, a', after, rfl, List.forall_mem_cons.2 ⟨⟨b, hb⟩, hbefore⟩, hfault⟩
        · cases h
  · rintro ⟨before, a, after, rfl, hbefore, hfault⟩
    induction before with
    | nil =>
      rw [List.nil_append, List.mapM_cons, hfault]
      rfl
    | cons a' before ih =>
      obtain ⟨⟨b, hb⟩, hbefore⟩ := List.forall_mem_cons.1 hbefore
      rw [List.cons_append, List.mapM_cons, hb, ok_bind, ih hbefore]
      rfl

/-- What comes after an element with a fault has no influence. -/
theorem mapM_append_cons_eq {f : α → Except ε β} {a : α} {e : ε} (h : f a = .error e)
    (before after after' : List α) :
    (before ++ a :: after).mapM f = (before ++ a :: after').mapM f := by
  rw [List.mapM_append, List.mapM_append, List.mapM_cons, List.mapM_cons, h]
  rfl

theorem exists_of_mapM_eq_error {f : α → Except ε β} {as : List α} {e : ε}
    (h : as.mapM f = .error e) : ∃ a ∈ as, f a = .error e := by
  obtain ⟨before, a, after, rfl, -, hfault⟩ := mapM_eq_error_iff.1 h
  exact ⟨a, by simp, hfault⟩

end DeskCalculator
