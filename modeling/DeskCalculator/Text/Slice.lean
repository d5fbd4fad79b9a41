/-!
# Slices

* `upTo n l` : the first `n` elements of a list, or all but the last `-n` for a negative `n`
  (`upTo_natCast`, `mem_of_mem_upTo`).
-/

namespace DeskCalculator

/-- The first `n` elements, or for a negative `n` all but the last `-n`. -/
def upTo {α : Type} (n : Int) (l : List α) : List α :=
  if 0 ≤ n then l.take n.toNat else l.take (l.length - n.natAbs)

@[simp] theorem upTo_natCast {α : Type} (n : Nat) (l : List α) : upTo n l = l.take n := by
  simp [upTo]

theorem mem_of_mem_upTo {α : Type} {n : Int} {l : List α} {a : α} (h : a ∈ upTo n l) : a ∈ l := by
  unfold upTo at h
  split at h <;> exact List.mem_of_mem_take h

end DeskCalculator
