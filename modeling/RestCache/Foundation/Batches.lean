import Mathlib.Data.List.Basic

/-!
# Batches

A loop that takes a bounded number of elements at a time.  Every element is in
exactly one batch, in its place, so that what the batches do one after the other
is what the elements do, if a batch does what its elements do.
-/

namespace RestCache
namespace Foundation

namespace Batches

variable {α σ : Type _}

def batchesFrom (size : Nat) : Nat -> List α -> List (List α)
  | 0, _ => []
  | fuel + 1, l =>
      if l.isEmpty then []
      else l.take size :: batchesFrom size fuel (l.drop size)

/-- The slices that a loop with steps of `size` takes. -/
def batches (size : Nat) (l : List α) : List (List α) :=
  batchesFrom size l.length l

section Slices

variable {size : Nat}

theorem flatten_batchesFrom (hsize : 0 < size) (fuel : Nat) (l : List α)
    (hfuel : l.length ≤ fuel) : (batchesFrom size fuel l).flatten = l := by
  induction fuel generalizing l with
  | zero => exact (List.length_eq_zero_iff.mp (Nat.le_zero.mp hfuel)).symm
  | succ fuel ih =>
      cases l with
      | nil => rfl
      | cons x rest =>
          have hrest : ((x :: rest).drop size).length ≤ fuel := by
            rw [List.length_drop]
            rw [List.length_cons] at hfuel ⊢
            omega
          show (x :: rest).take size ++
            (batchesFrom size fuel ((x :: rest).drop size)).flatten = _
          rw [ih _ hrest, List.take_append_drop]

theorem flatten_batches (hsize : 0 < size) (l : List α) :
    (batches size l).flatten = l :=
  flatten_batchesFrom hsize l.length l (Nat.le_refl _)

theorem foldl_batches (hsize : 0 < size) (step : σ -> α -> σ) (s : σ)
    (l : List α) :
    (batches size l).foldl (fun s batch => batch.foldl step s) s =
      l.foldl step s := by
  rw [← List.foldl_flatten, flatten_batches hsize]

end Slices

end Batches

end Foundation
end RestCache
