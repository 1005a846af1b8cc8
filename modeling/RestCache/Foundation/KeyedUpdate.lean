import Mathlib.Data.List.Basic

/-!
# Keyed updates of a list

An item replaces the first item with its key, or is added at the end.  A series
of such updates leaves the last item of each key, and running the series again
changes nothing.
-/

namespace RestCache
namespace Foundation
namespace KeyedUpdate

variable {item key : Type _} [DecidableEq key] (keyOf : item -> key)

/-- Replace the first item with the key of `x`, or add `x` at the end. -/
def upsert (x : item) : List item -> List item
  | [] => [x]
  | y :: rest =>
      if keyOf y = keyOf x then x :: rest else y :: upsert x rest

def upsertAll (updates items : List item) : List item :=
  updates.foldl (fun items x => upsert keyOf x items) items

def first (k : key) (items : List item) : Option item :=
  items.find? (fun x => keyOf x = k)

def latest (k : key) (items : List item) : Option item :=
  first keyOf k items.reverse

def occurrences (k : key) (items : List item) : Nat :=
  items.countP (fun x => keyOf x = k)

variable {keyOf} {x y z : item} {k : key} {items updates : List item}

/-!
## One update
-/

theorem upsert_cons_same (h : keyOf y = keyOf x) (rest : List item) :
    upsert keyOf x (y :: rest) = x :: rest := by
  rw [upsert, if_pos h]

theorem upsert_cons_other (h : keyOf y ≠ keyOf x) (rest : List item) :
    upsert keyOf x (y :: rest) = y :: upsert keyOf x rest := by
  rw [upsert, if_neg h]

theorem first_cons (y : item) (rest : List item) :
    first keyOf k (y :: rest) =
      if keyOf y = k then some y else first keyOf k rest := by
  unfold first
  by_cases h : keyOf y = k <;> simp [h]

theorem first_upsert (x : item) (k : key) (items : List item) :
    first keyOf k (upsert keyOf x items) =
      if keyOf x = k then some x else first keyOf k items := by
  induction items with
  | nil => rw [upsert, first_cons]
  | cons y rest ih =>
      by_cases h : keyOf y = keyOf x
      · rw [upsert_cons_same h, first_cons, first_cons, h]
        split <;> rfl
      · rw [upsert_cons_other h, first_cons, first_cons, ih]
        by_cases hy : keyOf y = k
        · have hx : keyOf x ≠ k := fun hx => h (hy.trans hx.symm)
          rw [if_pos hy, if_pos hy, if_neg hx]
        · rw [if_neg hy, if_neg hy]

theorem mem_keys_upsert :
    k ∈ (upsert keyOf x items).map keyOf <->
      keyOf x = k ∨ k ∈ items.map keyOf := by
  induction items with
  | nil => simp [upsert, eq_comm]
  | cons y rest ih =>
      by_cases h : keyOf y = keyOf x
      · rw [upsert_cons_same h]
        simp only [List.map_cons, List.mem_cons, h]
        tauto
      · rw [upsert_cons_other h]
        simp only [List.map_cons, List.mem_cons, ih]
        tauto

theorem mem_upsert (h : z ∈ upsert keyOf x items) : z = x ∨ z ∈ items := by
  induction items with
  | nil => exact Or.inl (List.mem_singleton.mp h)
  | cons y rest ih =>
      by_cases hy : keyOf y = keyOf x
      · rw [upsert_cons_same hy] at h
        exact (List.mem_cons.mp h).imp id (List.mem_cons_of_mem y)
      · rw [upsert_cons_other hy] at h
        rcases List.mem_cons.mp h with hfirst | hrest
        · exact Or.inr (List.mem_cons.mpr (Or.inl hfirst))
        · exact (ih hrest).imp id (List.mem_cons_of_mem y)

theorem occurrences_upsert (x : item) (k : key) (items : List item) :
    occurrences keyOf k (upsert keyOf x items) =
      if keyOf x = k then max 1 (occurrences keyOf k items)
      else occurrences keyOf k items := by
  unfold occurrences
  induction items with
  | nil => by_cases hx : keyOf x = k <;> simp [upsert, hx]
  | cons y rest ih =>
      by_cases h : keyOf y = keyOf x
      · rw [upsert_cons_same h]
        by_cases hx : keyOf x = k <;> simp [h, hx]
      · rw [upsert_cons_other h, List.countP_cons, ih, List.countP_cons]
        by_cases hx : keyOf x = k
        · have hy : keyOf y ≠ k := fun hy => h (hy.trans hx.symm)
          simp [hx, hy]
        · simp [hx]

theorem filter_upsert {p : key -> Bool} (h : p (keyOf x) = false)
    (items : List item) :
    (upsert keyOf x items).filter (fun y => p (keyOf y)) =
      items.filter (fun y => p (keyOf y)) := by
  induction items with
  | nil => simp [upsert, h]
  | cons y rest ih =>
      by_cases hy : keyOf y = keyOf x
      · rw [upsert_cons_same hy]
        simp [h, hy]
      · rw [upsert_cons_other hy, List.filter_cons, ih, List.filter_cons]

theorem upsert_of_first (h : first keyOf (keyOf x) items = some x) :
    upsert keyOf x items = items := by
  induction items with
  | nil => cases h
  | cons y rest ih =>
      rw [first_cons] at h
      by_cases hy : keyOf y = keyOf x
      · rw [if_pos hy, Option.some.injEq] at h
        rw [upsert_cons_same hy, h]
      · rw [if_neg hy] at h
        rw [upsert_cons_other hy, ih h]

theorem upsert_upsert_same (h : keyOf y = keyOf x) (items : List item) :
    upsert keyOf x (upsert keyOf y items) = upsert keyOf x items := by
  induction items with
  | nil => rw [upsert, upsert_cons_same h, upsert]
  | cons z rest ih =>
      by_cases hz : keyOf z = keyOf y
      · rw [upsert_cons_same hz, upsert_cons_same h,
          upsert_cons_same (hz.trans h)]
      · have hzx : keyOf z ≠ keyOf x := fun hzx => hz (hzx.trans h.symm)
        rw [upsert_cons_other hz, upsert_cons_other hzx, ih,
          upsert_cons_other hzx]

/-- Updates with two keys commute once one of the keys is there. -/
theorem upsert_comm (h : keyOf x ≠ keyOf y)
    (hmem : keyOf y ∈ items.map keyOf) :
    upsert keyOf x (upsert keyOf y items) =
      upsert keyOf y (upsert keyOf x items) := by
  induction items with
  | nil => exact absurd hmem List.not_mem_nil
  | cons z rest ih =>
      by_cases hzy : keyOf z = keyOf y
      · have hzx : keyOf z ≠ keyOf x := fun hzx => h (hzx.symm.trans hzy)
        rw [upsert_cons_same hzy, upsert_cons_other (Ne.symm h),
          upsert_cons_other hzx, upsert_cons_same hzy]
      · have hrest : keyOf y ∈ rest.map keyOf := by
          rcases List.mem_cons.mp hmem with hz | hrest
          · exact absurd hz.symm hzy
          · exact hrest
        by_cases hzx : keyOf z = keyOf x
        · rw [upsert_cons_other hzy, upsert_cons_same hzx, upsert_cons_same hzx,
            upsert_cons_other h]
        · rw [upsert_cons_other hzy, upsert_cons_other hzx, ih hrest,
            upsert_cons_other hzx, upsert_cons_other hzy]

/-!
## A series of updates
-/

theorem upsertAll_cons (x : item) (rest items : List item) :
    upsertAll keyOf (x :: rest) items =
      upsertAll keyOf rest (upsert keyOf x items) :=
  rfl

theorem upsertAll_append (updates more items : List item) :
    upsertAll keyOf (updates ++ more) items =
      upsertAll keyOf more (upsertAll keyOf updates items) :=
  List.foldl_append

theorem latest_cons (x : item) (rest : List item) :
    latest keyOf k (x :: rest) =
      (latest keyOf k rest).or (if keyOf x = k then some x else none) := by
  unfold latest first
  rw [List.reverse_cons, List.find?_append]
  by_cases h : keyOf x = k <;> simp [h]

theorem latest_eq_getLast? (k : key) (items : List item) :
    latest keyOf k items =
      (items.filter (fun x => keyOf x = k)).getLast? := by
  unfold latest first
  rw [← List.head?_filter, List.filter_reverse, List.head?_reverse]

theorem latest_eq_none :
    latest keyOf k updates = none <-> k ∉ updates.map keyOf := by
  unfold latest first
  rw [List.find?_eq_none, List.mem_map]
  simp only [List.mem_reverse, decide_eq_true_eq, not_exists, not_and]

theorem latest_some (h : latest keyOf k updates = some x) :
    x ∈ updates ∧ keyOf x = k := by
  unfold latest first at h
  have hmem := List.mem_of_find?_eq_some h
  have hkey := List.find?_some h
  exact ⟨List.mem_reverse.mp hmem, of_decide_eq_true hkey⟩

/-- A series leaves the last item of each of its keys. -/
theorem first_upsertAll (updates : List item) (k : key) (items : List item) :
    first keyOf k (upsertAll keyOf updates items) =
      (latest keyOf k updates).or (first keyOf k items) := by
  induction updates generalizing items with
  | nil => rfl
  | cons x rest ih =>
      rw [upsertAll_cons, ih, latest_cons, first_upsert, Option.or_assoc]
      congr 1
      split <;> rfl

theorem mem_upsertAll (h : z ∈ upsertAll keyOf updates items) :
    z ∈ updates ∨ z ∈ items := by
  induction updates generalizing items with
  | nil => exact Or.inr h
  | cons x rest ih =>
      rw [upsertAll_cons] at h
      rcases ih h with hrest | hitems
      · exact Or.inl (List.mem_cons_of_mem x hrest)
      · rcases mem_upsert hitems with hx | hold
        · exact Or.inl (List.mem_cons.mpr (Or.inl hx))
        · exact Or.inr hold

theorem filter_upsertAll {p : key -> Bool}
    (h : forall x, x ∈ updates -> p (keyOf x) = false) (items : List item) :
    (upsertAll keyOf updates items).filter (fun y => p (keyOf y)) =
      items.filter (fun y => p (keyOf y)) := by
  induction updates generalizing items with
  | nil => rfl
  | cons x rest ih =>
      rw [upsertAll_cons, ih (fun y hy => h y (List.mem_cons_of_mem x hy)),
        filter_upsert (h x List.mem_cons_self)]

theorem occurrences_upsertAll (updates : List item)
    (h : occurrences keyOf k items <= 1) :
    occurrences keyOf k (upsertAll keyOf updates items) <= 1 := by
  induction updates generalizing items with
  | nil => exact h
  | cons x rest ih =>
      rw [upsertAll_cons]
      apply ih
      rw [occurrences_upsert]
      split
      · omega
      · exact h

/-!
## Running a series again
-/

theorem upsertAll_upsert_lost (hlater : keyOf x ∈ updates.map keyOf)
    (hmem : keyOf x ∈ items.map keyOf) :
    upsertAll keyOf updates (upsert keyOf x items) =
      upsertAll keyOf updates items := by
  induction updates generalizing items with
  | nil => exact absurd hlater List.not_mem_nil
  | cons y rest ih =>
      rw [upsertAll_cons, upsertAll_cons]
      by_cases h : keyOf x = keyOf y
      · rw [upsert_upsert_same h]
      · have hrest : keyOf x ∈ rest.map keyOf := by
          rcases List.mem_cons.mp hlater with hy | hrest
          · exact absurd hy h
          · exact hrest
        rw [upsert_comm (Ne.symm h) hmem]
        exact ih hrest (mem_keys_upsert.mpr (Or.inr hmem))

/-- A series does nothing to a list that has its last items already. -/
theorem upsertAll_settled
    (h : forall k x, latest keyOf k updates = some x ->
      first keyOf k items = some x) :
    upsertAll keyOf updates items = items := by
  induction updates with
  | nil => rfl
  | cons x rest ih =>
      have hrest : forall k y, latest keyOf k rest = some y ->
          first keyOf k items = some y := by
        intro k y hy
        apply h k y
        rw [latest_cons, hy, Option.some_or]
      rw [upsertAll_cons]
      cases hlater : latest keyOf (keyOf x) rest with
      | none =>
          have hx : first keyOf (keyOf x) items = some x := by
            apply h (keyOf x) x
            rw [latest_cons, hlater, if_pos rfl, Option.none_or]
          rw [upsert_of_first hx, ih hrest]
      | some y =>
          have hkeys : keyOf x ∈ rest.map keyOf := by
            by_contra hnone
            rw [latest_eq_none.mpr hnone] at hlater
            cases hlater
          have hmem : keyOf x ∈ items.map keyOf := by
            have hfirst := hrest (keyOf x) y hlater
            have hkey := (latest_some hlater).right
            rw [List.mem_map]
            exact ⟨y, List.mem_of_find?_eq_some hfirst, hkey⟩
          rw [upsertAll_upsert_lost hkeys hmem, ih hrest]

theorem upsertAll_idem (updates items : List item) :
    upsertAll keyOf updates (upsertAll keyOf updates items) =
      upsertAll keyOf updates items := by
  apply upsertAll_settled
  intro k x hx
  rw [first_upsertAll, hx, Option.some_or]

/-!
## Items seen through a map
-/

variable {seen seenKey : Type _} [DecidableEq seenKey] {seenKeyOf : seen -> seenKey}
  {see : item -> seen}

/-- A map that tells the key of the update from others carries the update over. -/
theorem map_upsert
    (h : forall y, seenKeyOf (see y) = seenKeyOf (see x) <-> keyOf y = keyOf x)
    (items : List item) :
    (upsert keyOf x items).map see =
      upsert seenKeyOf (see x) (items.map see) := by
  induction items with
  | nil => rfl
  | cons y rest ih =>
      by_cases hy : keyOf y = keyOf x
      · rw [upsert_cons_same hy, List.map_cons, List.map_cons,
          upsert_cons_same ((h y).mpr hy)]
      · rw [upsert_cons_other hy, List.map_cons, List.map_cons,
          upsert_cons_other (fun hsame => hy ((h y).mp hsame)), ih]

end KeyedUpdate
end Foundation
end RestCache
