import Mathlib.Data.List.AList

/-!
# Tables that are filled as they are asked

A value is computed when its key is asked for first, and kept.  As long as the
table holds nothing but what the function gives, asking it is calling the
function.
-/

namespace RestCache
namespace Foundation

namespace Memo

variable {key value : Type _} [DecidableEq key]

abbrev Table (key value : Type _) :=
  AList (fun _ : key => value)

def ask (f : key -> value) (table : Table key value) (k : key) :
    value × Table key value :=
  match table.lookup k with
  | some v => (v, table)
  | none => (f k, table.insert k (f k))

/-- The table holds values of the function only. -/
def Faithful (f : key -> value) (table : Table key value) : Prop :=
  forall k v, table.lookup k = some v -> v = f k

variable {f : key -> value} {table : Table key value}

theorem faithful_empty : Faithful f ∅ := by
  intro k v h
  rw [AList.lookup_empty] at h
  cases h

theorem ask_value (h : Faithful f table) (k : key) :
    (ask f table k).1 = f k := by
  unfold ask
  cases hlookup : table.lookup k with
  | none => rfl
  | some v => exact h k v hlookup

theorem faithful_ask (h : Faithful f table) (k : key) :
    Faithful f (ask f table k).2 := by
  unfold ask
  cases table.lookup k with
  | some v => exact h
  | none =>
      intro other v hv
      have hinsert : (table.insert k (f k)).lookup other = some v := hv
      by_cases heq : other = k
      · rw [heq, AList.lookup_insert] at hinsert
        rw [heq]
        exact (Option.some.inj hinsert).symm
      · rw [AList.lookup_insert_ne heq] at hinsert
        exact h other v hinsert

end Memo

end Foundation
end RestCache
