import DeskCalculator.Proofs.Decimal.Reading

/-!
# The shortest decimal reads back

* `of_gridPoint` : the point that a grid gives has the rank as its nearest;
* `Decimal.readsBack_shortest` : so has the shortest decimal, also when no grid gives a point.
-/

namespace DeskCalculator

theorem places_gridPoint (n excess : Nat) :
    (⟨n, excess - 1074⟩ : Decimal).places = n * 10 ^ excess := by
  unfold Decimal.places
  dsimp only
  rw [show ((excess : Int) - 1074 + 1074).toNat = excess by omega]

theorem of_gridPoint {rank value excess : Nat} {d : Decimal}
    (h : gridPoint rank value excess = some d) :
    -1074 ≤ d.exponent ∧ readsBack rank d.places = true := by
  have hpoint : ∀ n, readsBack rank (n * 10 ^ excess) = true →
      some (⟨n, excess - 1074⟩ : Decimal) = some d →
        -1074 ≤ d.exponent ∧ readsBack rank d.places = true := by
    intro n hn hd
    obtain rfl := Option.some.inj hd
    rw [places_gridPoint]
    refine ⟨?_, hn⟩
    show -1074 ≤ (excess : Int) - 1074
    omega
  unfold gridPoint at h
  dsimp only at h
  generalize roundHalfEven value (10 ^ excess) = near at h
  generalize (if near = _ then _ else _) = far at h
  split at h
  · rename_i hnear
    exact hpoint near hnear h
  · split at h
    · rename_i hfar
      exact hpoint far hfar h
    · cases h

theorem coefficient_exact (rank : Nat) :
    (Decimal.exact rank).coefficient = units rank * 5 ^ 1074 := by
  unfold Decimal.exact
  with_reducible rfl

namespace Decimal

theorem places_exact (rank : Nat) : (exact rank).places = (exact rank).coefficient := by
  unfold exact places
  dsimp only
  rw [show ((-1074 : Int) + 1074).toNat = 0 by decide, Nat.pow_zero, Nat.mul_one]

theorem readsBack_exact (rank : Nat) : readsBack rank (exact rank).places = true := by
  rw [places_exact, readsBack_iff, rankOfPlaces_exact]

theorem shortest_eq (rank : Nat) : shortest rank = exact rank ∨
    ∃ excess, gridPoint rank (exact rank).coefficient excess = some (shortest rank) := by
  unfold shortest
  dsimp only
  generalize hgrid : List.findSome? _ _ = found
  cases found with
  | none => exact .inl (Option.getD_none)
  | some d =>
    obtain ⟨i, -, hpoint⟩ := List.exists_of_findSome?_eq_some hgrid
    rw [Option.getD_some]
    exact .inr ⟨_, hpoint⟩

theorem readsBack_shortest (rank : Nat) :
    -1074 ≤ (shortest rank).exponent ∧ readsBack rank (shortest rank).places = true := by
  rcases shortest_eq rank with hexact | ⟨excess, hpoint⟩
  · rw [hexact]
    exact ⟨Int.le_refl _, readsBack_exact rank⟩
  · exact of_gridPoint hpoint

theorem shortest_coefficient_ne_zero {rank : Nat} (h : rank ≠ 0) :
    (shortest rank).coefficient ≠ 0 := by
  intro hzero
  have hback := (readsBack_shortest rank).2
  rw [readsBack_iff, places, hzero, Nat.zero_mul, rankOfPlaces_zero] at hback
  exact h hback.symm

/-- The shortest decimal is read as the magnitude. -/
theorem toBinary64_shortest (negative : Bool) (rank : Nat) :
    (shortest rank).toBinary64 negative = .ofRank negative rank := by
  obtain ⟨hexp, hback⟩ := readsBack_shortest rank
  rw [toBinary64_eq hexp, readsBack_iff.1 hback]

end Decimal

end DeskCalculator
