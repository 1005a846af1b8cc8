import Mathlib.Data.List.Basic

/-!
# Growing a value until a round adds nothing

Each round visits the elements of a list in order, and every visit leaves the
value as it is or makes it larger.  The rounds stop at the first one behind which
the size is the size before it.
-/

namespace RestCache
namespace Foundation

namespace Saturation

variable {α β : Type _}

/-- A visit changes nothing, or it adds something. -/
def Grows (size : α -> Nat) (visit : α -> β -> α) : Prop :=
  forall a b, visit a b = a ∨ size a < size (visit a b)

/-- Rounds until one does not change the size; `none` where the fuel runs out. -/
def saturate (size : α -> Nat) (round : α -> α) : Nat -> α -> Option α
  | 0, _ => none
  | fuel + 1, a =>
      if size (round a) = size a then some (round a)
      else saturate size round fuel (round a)

/-!
## Rounds
-/

variable {size : α -> Nat} {visit : α -> β -> α} {round : α -> α}

theorem size_le_foldl (hgrows : Grows size visit) (l : List β) (a : α) :
    size a <= size (l.foldl visit a) := by
  induction l generalizing a with
  | nil => exact Nat.le_refl _
  | cons b rest ih =>
      have hrest := ih (visit a b)
      rcases hgrows a b with hsame | hmore
      · rw [hsame] at hrest
        rw [List.foldl_cons, hsame]
        exact hrest
      · exact Nat.le_trans (Nat.le_of_lt hmore) hrest

theorem visit_eq_of_size_eq (hgrows : Grows size visit) {l : List β} {a : α}
    (h : size (l.foldl visit a) = size a) :
    l.foldl visit a = a ∧ forall b, b ∈ l -> visit a b = a := by
  induction l with
  | nil => exact ⟨rfl, fun b hb => absurd hb List.not_mem_nil⟩
  | cons b rest ih =>
      rw [List.foldl_cons] at h ⊢
      have hrest := size_le_foldl hgrows rest (visit a b)
      rcases hgrows a b with hsame | hmore
      · rw [hsame] at h ⊢
        have hall := ih h
        apply And.intro hall.left
        intro c hc
        rcases List.mem_cons.mp hc with rfl | hc
        · exact hsame
        · exact hall.right c hc
      · rw [h] at hrest
        exact absurd hrest (Nat.not_le_of_lt hmore)

theorem foldl_invariant {P : α -> Prop}
    {l : List β} (hvisit : forall a b, b ∈ l -> P a -> P (visit a b)) {a : α}
    (h : P a) : P (l.foldl visit a) := by
  induction l generalizing a with
  | nil => exact h
  | cons b rest ih =>
      exact ih (fun a c hc => hvisit a c (List.mem_cons_of_mem b hc))
        (hvisit a b List.mem_cons_self h)

/-!
## The end of the rounds
-/

theorem saturate_invariant {P : α -> Prop}
    (hround : forall a, P a -> P (round a)) {fuel : Nat} {a b : α} (h : P a)
    (hsaturate : saturate size round fuel a = some b) : P b := by
  induction fuel generalizing a with
  | zero => simp [saturate] at hsaturate
  | succ fuel ih =>
      rw [saturate] at hsaturate
      split at hsaturate
      · rw [← Option.some.inj hsaturate]
        exact hround a h
      · exact ih (hround a h) hsaturate

theorem saturate_final {fuel : Nat} {a b : α}
    (hsaturate : saturate size round fuel a = some b) :
    exists c, size (round c) = size c ∧ b = round c := by
  induction fuel generalizing a with
  | zero => simp [saturate] at hsaturate
  | succ fuel ih =>
      rw [saturate] at hsaturate
      split at hsaturate
      · rename_i hsize
        exact ⟨a, hsize, (Option.some.inj hsaturate).symm⟩
      · exact ih hsaturate

/-- A size that is bounded while the rounds go on makes them end. -/
theorem saturate_ends {P : α -> Prop} {bound : Nat}
    (hround : forall a, P a -> P (round a))
    (hgrows : forall a, P a -> size a <= size (round a))
    (hbound : forall a, P a -> size a <= bound) {fuel : Nat} {a : α} (h : P a)
    (hfuel : bound < size a + fuel) :
    exists b, saturate size round fuel a = some b := by
  induction fuel generalizing a with
  | zero => exact absurd (hbound a h) (Nat.not_le_of_lt hfuel)
  | succ fuel ih =>
      rw [saturate]
      split
      · exact ⟨round a, rfl⟩
      · rename_i hsize
        have hmore := hgrows a h
        exact ih (hround a h) (by omega)

end Saturation

end Foundation
end RestCache
