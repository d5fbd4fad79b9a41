import DeskCalculator.Proofs.Decimal.Places
import DeskCalculator.Proofs.Decimal.Shortest

/-!
# The shortest decimal is the shortest

* `gridPoint_of_dvd` : a grid on which some decimal reads back gives a point;
  `shortest_of_dvd` : so the shortest decimal is on a grid that is no finer;
* `Neighbour` : the two points of a grid around an exact value; `Neighbour.length` : they have as
  many digits as the value, unless one is the next power of ten;
* `roundedTo` : the nearer one; `roundedTo_carry` : if it is the next power of ten, it is so on every
  coarser grid;
* `length_shortest_le` : so a rounding that reads back has no shorter text than the shortest decimal,
  unless the latter is the next power of ten and both stand before the point.
-/

namespace DeskCalculator

theorem findSome?_range {α : Type} {f : Nat → Option α} {n i : Nat} (hi : i < n)
    (h : (f i).isSome = true) : ∃ j ≤ i, ∃ a, f j = some a ∧ (List.range n).findSome? f = some a := by
  obtain ⟨m, rfl⟩ : ∃ m, n = (i + 1) + m := ⟨n - (i + 1), by omega⟩
  have hsome : ((List.range (i + 1)).findSome? f).isSome = true :=
    List.findSome?_isSome_iff.2 ⟨i, List.mem_range.2 (Nat.lt_succ_self i), h⟩
  obtain ⟨a, ha⟩ := Option.isSome_iff_exists.1 hsome
  obtain ⟨j, hj, hfj⟩ := List.exists_of_findSome?_eq_some ha
  refine ⟨j, Nat.le_of_lt_succ (List.mem_range.1 hj), a, hfj, ?_⟩
  rw [List.range_add, List.findSome?_append, ha]
  rfl

/-! ## Neighbours on a grid -/

/-- A point next to a value on the grid of the multiples of a power of ten. -/
def Neighbour (value excess n : Nat) : Prop :=
  n = value / 10 ^ excess * 10 ^ excess ∨ n = (value / 10 ^ excess + 1) * 10 ^ excess

theorem Neighbour.dvd {value excess n : Nat} (h : Neighbour value excess n) : 10 ^ excess ∣ n := by
  rcases h with rfl | rfl
  · exact Nat.dvd_mul_left _ _
  · exact Nat.dvd_mul_left _ _

/-- A value rounded to a multiple of a power of ten. -/
def roundedTo (value excess : Nat) : Nat := roundHalfEven value (10 ^ excess) * 10 ^ excess

theorem neighbour_roundedTo (value excess : Nat) :
    Neighbour value excess (roundedTo value excess) := by
  have hlow := div_le_roundHalfEven value (10 ^ excess)
  have hhigh := roundHalfEven_le_div_add_one value (10 ^ excess)
  unfold roundedTo
  rcases Nat.eq_or_lt_of_le hlow with heq | hlt
  · exact .inl (by rw [← heq])
  · exact .inr (by rw [show roundHalfEven value (10 ^ excess) = value / 10 ^ excess + 1 by omega])

/-- Rounding moves a value by half a step at most. -/
theorem roundedTo_near (value excess : Nat) :
    2 * roundedTo value excess ≤ 2 * value + 10 ^ excess ∧
      2 * value ≤ 2 * roundedTo value excess + 10 ^ excess := by
  unfold roundedTo
  rw [Nat.mul_comm (roundHalfEven value (10 ^ excess))]
  exact ⟨mul_roundHalfEven_le _ _, le_mul_roundHalfEven _ (Nat.pow_pos (by decide))⟩

section Size

variable {value size excess n : Nat}

theorem length_decimalDigits_eq (hlow : 10 ^ size ≤ n) (hhigh : n < 10 ^ (size + 1)) :
    (decimalDigits n).length = size + 1 := by
  have hle := (Nat.length_toDigits_le_iff (b := 10) (by decide) (Nat.succ_pos size)).2 hhigh
  have hlt := Nat.lt_of_le_of_lt hlow (lt_pow_length_decimalDigits n)
  have hgt := (Nat.pow_lt_pow_iff_right (by decide)).1 hlt
  change (decimalDigits n).length ≤ size + 1 at hle
  omega

/-- The neighbours reach no further than the powers of ten do. -/
theorem Neighbour.bounds (h : Neighbour value excess n) (hexcess : excess ≤ size)
    (hlow : 10 ^ size ≤ value) (hhigh : value < 10 ^ (size + 1)) :
    10 ^ size ≤ n ∧ n ≤ 10 ^ (size + 1) := by
  have hstep : 0 < 10 ^ excess := Nat.pow_pos (by decide)
  have hsplit : ∀ k, excess ≤ k → 10 ^ (k - excess) * 10 ^ excess = 10 ^ k := by
    intro k hk
    rw [← Nat.pow_add, Nat.sub_add_cancel hk]
  have hbelow : 10 ^ size ≤ value / 10 ^ excess * 10 ^ excess := by
    rw [← hsplit size hexcess]
    refine Nat.mul_le_mul_right _ ((Nat.le_div_iff_mul_le hstep).2 ?_)
    rwa [hsplit size hexcess]
  have habove : (value / 10 ^ excess + 1) * 10 ^ excess ≤ 10 ^ (size + 1) := by
    rw [← hsplit (size + 1) (by omega)]
    refine Nat.mul_le_mul_right _ ((Nat.div_lt_iff_lt_mul hstep).2 ?_)
    rwa [hsplit (size + 1) (by omega)]
  rw [Nat.add_mul, Nat.one_mul] at habove
  rcases h with rfl | rfl
  · omega
  · rw [Nat.add_mul, Nat.one_mul]
    omega

/-- A neighbour has as many digits as the value, or is the next power of ten. -/
theorem Neighbour.length (h : Neighbour value excess n) (hexcess : excess ≤ size)
    (hlow : 10 ^ size ≤ value) (hhigh : value < 10 ^ (size + 1)) :
    n ≠ 0 ∧ ((decimalDigits n).length = size + 1 ∨ n = 10 ^ (size + 1)) := by
  obtain ⟨hbelow, habove⟩ := h.bounds hexcess hlow hhigh
  have hpos : 0 < 10 ^ size := Nat.pow_pos (by decide)
  refine ⟨by omega, ?_⟩
  rcases Nat.eq_or_lt_of_le habove with heq | hlt
  · exact .inr heq
  · exact .inl (length_decimalDigits_eq hbelow hlt)

/-- A value that is rounded up to the next power of ten on some grid is so on every coarser one. -/
theorem roundedTo_carry (coarser : Nat) (hexcess : excess ≤ coarser) (hcoarser : coarser ≤ size)
    (hhigh : value < 10 ^ (size + 1)) (h : roundedTo value excess = 10 ^ (size + 1)) :
    roundedTo value coarser = 10 ^ (size + 1) := by
  have hround := (roundedTo_near value excess).1
  have hstep : 10 ^ excess ≤ 10 ^ coarser := Nat.pow_le_pow_right (by decide) hexcess
  have hpos : 0 < 10 ^ (size - coarser) := Nat.pow_pos (by decide)
  have hsplit : 10 ^ (size + 1) = (10 * 10 ^ (size - coarser)) * 10 ^ coarser := by
    rw [Nat.mul_assoc, ← Nat.pow_add, Nat.sub_add_cancel hcoarser, Nat.pow_succ, Nat.mul_comm]
  unfold roundedTo
  rw [h, hsplit] at hround
  rw [hsplit] at hhigh ⊢
  generalize 10 ^ (size - coarser) = tenth at hpos hhigh hround ⊢
  generalize 10 ^ coarser = step at hhigh hround hstep ⊢
  obtain ⟨below, hbelow⟩ : ∃ below, 10 * tenth = below + 1 := ⟨10 * tenth - 1, by omega⟩
  have hprod : (below + 1) * step = below * step + step := Nat.succ_mul below step
  rw [hbelow] at hhigh hround ⊢
  have hquot : value / step = below := Nat.div_eq_of_lt_le (by omega) hhigh
  have hrem := Nat.div_add_mod value step
  rw [hquot, Nat.mul_comm] at hrem
  unfold roundHalfEven
  dsimp only
  rw [hquot, if_neg (by omega)]

end Size

/-! ## Grids -/

theorem neighbour_of_gridPoint {rank value excess : Nat} {d : Decimal}
    (h : gridPoint rank value excess = some d) : Neighbour value excess d.places := by
  have hpoint : ∀ n, Neighbour value excess (n * 10 ^ excess) →
      some (⟨n, excess - 1074⟩ : Decimal) = some d → Neighbour value excess d.places := by
    intro n hn hd
    obtain rfl := Option.some.inj hd
    rw [places_gridPoint]
    exact hn
  have hnear := neighbour_roundedTo value excess
  have hfar : ∀ near, Neighbour value excess ((if near = value / 10 ^ excess then
      value / 10 ^ excess + 1 else value / 10 ^ excess) * 10 ^ excess) := by
    intro near
    split
    · exact .inr rfl
    · exact .inl rfl
  unfold roundedTo at hnear
  unfold gridPoint at h
  dsimp only at h
  generalize roundHalfEven value (10 ^ excess) = near at h hnear
  specialize hfar near
  generalize (if near = _ then _ else _) = far at h hfar
  split at h
  · exact hpoint near hnear h
  · split at h
    · exact hpoint far hfar h
    · cases h

theorem isSome_gridPoint {rank value excess : Nat}
    (h : readsBack rank (value / 10 ^ excess * 10 ^ excess) = true ∨
      readsBack rank ((value / 10 ^ excess + 1) * 10 ^ excess) = true) :
    (gridPoint rank value excess).isSome = true := by
  have hlow := div_le_roundHalfEven value (10 ^ excess)
  have hhigh := roundHalfEven_le_div_add_one value (10 ^ excess)
  unfold gridPoint
  dsimp only
  generalize roundHalfEven value (10 ^ excess) = near at hlow hhigh
  generalize value / 10 ^ excess = lower at h hlow hhigh
  obtain rfl | rfl : near = lower ∨ near = lower + 1 := by omega
  · rw [if_pos rfl]
    rcases h with h | h
    · rw [if_pos h]
      rfl
    · rw [if_pos h]
      split <;> rfl
  · rw [if_neg (Nat.succ_ne_self lower)]
    rcases h with h | h
    · rw [if_pos h]
      split <;> rfl
    · rw [if_pos h]
      rfl

/-- A grid gives a point if some decimal on it reads back: from below the exact value the neighbour
below does so too, from above the neighbour above. -/
theorem gridPoint_of_dvd {rank excess n : Nat} (hdvd : 10 ^ excess ∣ n)
    (hback : readsBack rank n = true) :
    (gridPoint rank (Decimal.exact rank).coefficient excess).isSome = true := by
  have hexact := Decimal.readsBack_exact rank
  rw [Decimal.places_exact] at hexact
  generalize (Decimal.exact rank).coefficient = value at hexact
  have hstep : 0 < 10 ^ excess := Nat.pow_pos (by decide)
  obtain ⟨m, rfl⟩ := hdvd
  rw [Nat.mul_comm] at hback
  apply isSome_gridPoint
  rcases Nat.lt_or_ge (value / 10 ^ excess) m with hlt | hge
  · have habove : value ≤ (value / 10 ^ excess + 1) * 10 ^ excess :=
      Nat.le_of_lt ((Nat.div_lt_iff_lt_mul hstep).1 (Nat.lt_succ_self _))
    exact .inr (readsBack_of_le_of_le hexact hback habove (Nat.mul_le_mul_right _ hlt))
  · exact .inl (readsBack_of_le_of_le hback hexact (Nat.mul_le_mul_right _ hge)
      (Nat.div_mul_le_self _ _))

/-! ## The shortest decimal -/

section Shortest

variable {rank size : Nat}
  (hlow : 10 ^ size ≤ (Decimal.exact rank).coefficient)
  (hhigh : (Decimal.exact rank).coefficient < 10 ^ (size + 1))

include hlow hhigh

theorem shortest_eq_findSome? : Decimal.shortest rank =
    ((List.range (size + 1)).findSome? fun i =>
      gridPoint rank (Decimal.exact rank).coefficient (size - i)).getD (Decimal.exact rank) := by
  unfold Decimal.shortest
  dsimp only
  rw [length_decimalDigits_eq hlow hhigh]
  simp only [Nat.add_sub_add_right]

/-- The shortest decimal is on a grid that is no finer than one on which some decimal reads back. -/
theorem shortest_of_dvd {excess n : Nat} (hexcess : excess ≤ size) (hdvd : 10 ^ excess ∣ n)
    (hback : readsBack rank n = true) :
    ∃ e, excess ≤ e ∧ e ≤ size ∧
      Neighbour (Decimal.exact rank).coefficient e (Decimal.shortest rank).places := by
  have hgrid := gridPoint_of_dvd hdvd hback
  rw [show excess = size - (size - excess) by omega] at hgrid
  obtain ⟨j, hj, d, hpoint, hfind⟩ := findSome?_range (n := size + 1) (i := size - excess)
    (f := fun i => gridPoint rank (Decimal.exact rank).coefficient (size - i)) (by omega) hgrid
  refine ⟨size - j, by omega, by omega, ?_⟩
  rw [shortest_eq_findSome? hlow hhigh, hfind, Option.getD_some]
  exact neighbour_of_gridPoint hpoint

/-- The coarsest grid is tried first, and there the nearer point. -/
theorem places_shortest_of_roundedTo
    (hback : readsBack rank (roundedTo (Decimal.exact rank).coefficient size) = true) :
    (Decimal.shortest rank).places = roundedTo (Decimal.exact rank).coefficient size := by
  let point : Decimal :=
    ⟨roundHalfEven (Decimal.exact rank).coefficient (10 ^ size), size - 1074⟩
  have hpoint : gridPoint rank (Decimal.exact rank).coefficient (size - 0) = some point := by
    unfold gridPoint
    dsimp only
    rw [Nat.sub_zero]
    exact if_pos hback
  obtain ⟨j, hj, d, hd, hfind⟩ := findSome?_range (n := size + 1) (i := 0)
    (f := fun i => gridPoint rank (Decimal.exact rank).coefficient (size - i)) (Nat.succ_pos size)
    (Option.isSome_of_eq_some hpoint)
  obtain rfl := Nat.le_zero.1 hj
  obtain rfl := Option.some.inj (hpoint.symm.trans hd)
  rw [shortest_eq_findSome? hlow hhigh, hfind, Option.getD_some]
  exact places_gridPoint _ size

/-- **A rounding that reads back has no shorter text than the shortest decimal**, unless this is the
next power of ten and stands before the point: then it may have one character less. -/
theorem length_shortest_le {excess : Nat} (hexcess : excess ≤ size) {n : Nat}
    (hn : roundedTo (Decimal.exact rank).coefficient excess = n)
    (hback : readsBack rank n = true) :
    (placesText (Decimal.shortest rank).places).length ≤ (placesText n).length ∨
      1074 < size + 1 ∧ (Decimal.shortest rank).places = 10 ^ (size + 1) ∧
        (placesText (Decimal.shortest rank).places).length ≤ (placesText n).length + 1 := by
  have hneighbour := neighbour_roundedTo (Decimal.exact rank).coefficient excess
  rw [hn] at hneighbour
  obtain ⟨hzero, hsize | hpow⟩ := hneighbour.length hexcess hlow hhigh
  · have hdvd := pow_dvd n
    have hpos := significant_pos hzero
    rw [hsize] at hdvd
    obtain ⟨e, hle, he, hshortest⟩ := shortest_of_dvd hlow hhigh (by omega) hdvd hback
    obtain ⟨hne, hlength | hnext⟩ := hshortest.length he hlow hhigh
    · left
      have hdigits := significant_add_le hne hshortest.dvd
      rw [length_placesText, length_placesText, hlength, hsize]
      exact textLength_mono _ (by omega)
    · have hone := significant_mul_pow Nat.one_ne_zero (size + 1)
      rw [Nat.one_mul] at hone
      change _ = 1 at hone
      rw [hnext, length_placesText, length_placesText, length_decimalDigits_pow, hsize, hone]
      exact (textLength_succ_one (size + 1) hpos).imp_right fun h => ⟨h.1, rfl, h.2⟩
  · left
    have hcarry := roundedTo_carry size hexcess (Nat.le_refl size) hhigh (hn.trans hpow)
    rw [hpow, ← hcarry] at hback
    rw [places_shortest_of_roundedTo hlow hhigh hback, hcarry, hpow]

end Shortest

end DeskCalculator
