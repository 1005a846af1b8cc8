import Mathlib.Data.List.Basic

/-!
# A bounded log of numbered items

Items are numbered as they are pushed.  The log keeps the newest ones, up to a
size, and is asked for those behind a number that was current before; it can
answer as long as none of them has been dropped.
-/

namespace RestCache
namespace Foundation

namespace BoundedLog

variable {α : Type _}

structure Numbered (α : Type _) where
  number : Nat
  item : α

structure Log (α : Type _) where
  count : Nat
  kept : List (Numbered α)

def empty : Log α where
  count := 0
  kept := []

/-- Number the item and append it; the oldest makes room for it. -/
def push (size : Nat) (item : α) (log : Log α) : Log α :=
  let count := log.count + 1
  let kept := log.kept ++ [Numbered.mk count item]
  { count, kept := if kept.length > size then kept.tail else kept }

def newer (since : Nat) (entries : List (Numbered α)) : List (Numbered α) :=
  entries.reverse.takeWhile (fun entry => since < entry.number)

/-!
## The log and the whole history

The log holds the newest items of the history under consecutive numbers.
-/

def numberFrom : Nat -> List α -> List (Numbered α)
  | _, [] => []
  | n, item :: rest => Numbered.mk (n + 1) item :: numberFrom (n + 1) rest

structure Keeps (size : Nat) (log : Log α) (pushed : List α) : Prop where
  count : log.count = pushed.length
  kept : log.kept =
    numberFrom (pushed.length - size) (pushed.drop (pushed.length - size))

theorem numberFrom_length (n : Nat) (items : List α) :
    (numberFrom n items).length = items.length := by
  induction items generalizing n with
  | nil => rfl
  | cons item rest ih =>
      rw [numberFrom, List.length_cons, ih, List.length_cons]

theorem numberFrom_append (n : Nat) (items more : List α) :
    numberFrom n (items ++ more) =
      numberFrom n items ++ numberFrom (n + items.length) more := by
  induction items generalizing n with
  | nil => rfl
  | cons item rest ih =>
      rw [List.cons_append, numberFrom, ih, numberFrom, List.cons_append,
        List.length_cons]
      congr 3
      omega

theorem numberFrom_tail (n : Nat) (items : List α) :
    (numberFrom n items).tail = numberFrom (n + 1) items.tail := by
  cases items <;> rfl

theorem numberFrom_items (n : Nat) (items : List α) :
    (numberFrom n items).map Numbered.item = items := by
  induction items generalizing n with
  | nil => rfl
  | cons item rest ih => rw [numberFrom, List.map_cons, ih]

theorem numberFrom_numbers (n : Nat) (items : List α) :
    (numberFrom n items).map Numbered.number =
      List.range' (n + 1) items.length := by
  induction items generalizing n with
  | nil => rfl
  | cons item rest ih =>
      rw [numberFrom, List.map_cons, ih, List.length_cons, List.range'_succ]

theorem mem_numberFrom {n : Nat} {items : List α} {entry : Numbered α}
    (h : entry ∈ numberFrom n items) :
    n < entry.number ∧ entry.number <= n + items.length := by
  have hnumber := List.mem_map_of_mem (f := Numbered.number) h
  rw [numberFrom_numbers, List.mem_range'_1] at hnumber
  omega

theorem keeps_empty (size : Nat) : Keeps size (@empty α) [] where
  count := rfl
  kept := by
    rw [List.drop_nil]
    rfl

theorem keeps_push {size : Nat} {log : Log α} {pushed : List α}
    (h : Keeps size log pushed) (item : α) :
    Keeps size (push size item log) (pushed ++ [item]) := by
  have hkept : log.kept ++ [Numbered.mk (log.count + 1) item] =
      numberFrom (pushed.length - size)
        ((pushed ++ [item]).drop (pushed.length - size)) := by
    have hnumber : pushed.length - size +
        (pushed.length - (pushed.length - size)) = pushed.length := by
      omega
    rw [List.drop_append_of_le_length (by omega), numberFrom_append,
      ← h.kept, List.length_drop, h.count, hnumber]
    rfl
  have hlength : (log.kept ++ [Numbered.mk (log.count + 1) item]).length =
      min pushed.length size + 1 := by
    rw [hkept, numberFrom_length, List.length_drop, List.length_append,
      List.length_singleton]
    omega
  constructor
  · simp [push, h.count]
  · unfold push
    simp only [hlength, List.length_append, List.length_singleton]
    split
    · rename_i hfull
      have hnext : pushed.length - size + 1 = pushed.length + 1 - size := by
        omega
      rw [hkept, numberFrom_tail, List.tail_drop, hnext]
    · rename_i hroom
      have hall : pushed.length - size = pushed.length + 1 - size := by
        omega
      rw [hkept, hall]

def pushAll (size : Nat) (items : List α) (log : Log α) : Log α :=
  items.foldl (fun log item => push size item log) log

theorem keeps_pushAll {size : Nat} {log : Log α} {pushed : List α}
    (h : Keeps size log pushed) (items : List α) :
    Keeps size (pushAll size items log) (pushed ++ items) := by
  induction items generalizing log pushed with
  | nil =>
      rw [List.append_nil]
      exact h
  | cons item rest ih =>
      have hrest := ih (keeps_push h item)
      rw [List.append_assoc, List.singleton_append] at hrest
      exact hrest

theorem Keeps.length_le {size : Nat} {log : Log α} {pushed : List α}
    (h : Keeps size log pushed) : log.kept.length <= size := by
  rw [h.kept, numberFrom_length, List.length_drop]
  omega

theorem Keeps.length_le_count {size : Nat} {log : Log α} {pushed : List α}
    (h : Keeps size log pushed) : log.kept.length <= log.count := by
  rw [h.kept, h.count, numberFrom_length, List.length_drop]
  exact Nat.sub_le _ _

theorem Keeps.numbers {size : Nat} {log : Log α} {pushed : List α}
    (h : Keeps size log pushed) :
    log.kept.map Numbered.number =
      List.range' (log.count - log.kept.length + 1) log.kept.length := by
  have hlength : log.kept.length =
      pushed.length - (pushed.length - size) := by
    rw [h.kept, numberFrom_length, List.length_drop]
  have hstart : log.count - log.kept.length = pushed.length - size := by
    rw [h.count]
    omega
  rw [hstart, hlength, h.kept, numberFrom_numbers, List.length_drop]

/-!
## What was pushed behind a number
-/

theorem newer_eq {size : Nat} {log : Log α} {pushed : List α}
    (h : Keeps size log pushed) {since : Nat} (hsince : since <= pushed.length)
    (hroom : pushed.length - since <= size) :
    (newer since log.kept).map Numbered.item =
      (pushed.drop since).reverse := by
  let start := pushed.length - size
  have hstart : start <= since := by
    show pushed.length - size <= since
    omega
  have hsplit : pushed.drop start =
      (pushed.drop start).take (since - start) ++ pushed.drop since := by
    have htake := List.take_append_drop (since - start) (pushed.drop start)
    rw [List.drop_drop, Nat.add_sub_cancel' hstart] at htake
    exact htake.symm
  have hlength : ((pushed.drop start).take (since - start)).length =
      since - start := by
    rw [List.length_take, List.length_drop]
    omega
  have hkept : log.kept =
      numberFrom start ((pushed.drop start).take (since - start)) ++
        numberFrom since (pushed.drop since) := by
    rw [h.kept]
    show numberFrom start (pushed.drop start) = _
    rw [hsplit, numberFrom_append, hlength, Nat.add_sub_cancel' hstart, ← hsplit]
  have hnewer : forall entry,
      entry ∈ (numberFrom since (pushed.drop since)).reverse ->
        decide (since < entry.number) = true := by
    intro entry hentry
    exact decide_eq_true (mem_numberFrom (List.mem_reverse.mp hentry)).left
  have holder : (numberFrom start
      ((pushed.drop start).take (since - start))).reverse.takeWhile
        (fun entry => since < entry.number) = [] := by
    cases hold : (numberFrom start
        ((pushed.drop start).take (since - start))).reverse with
    | nil => rfl
    | cons entry older =>
        have hentry := mem_numberFrom (List.mem_reverse.mp
          (hold ▸ List.mem_cons_self : entry ∈ (numberFrom start
            ((pushed.drop start).take (since - start))).reverse))
        rw [List.takeWhile_cons_of_neg]
        rw [decide_eq_true_iff]
        omega
  unfold newer
  rw [hkept, List.reverse_append, List.takeWhile_append_of_pos hnewer, holder,
    List.append_nil, List.map_reverse, numberFrom_items]

/--
Behind a number that was current before, the log holds nothing, or it has
dropped entries, or it holds all that was pushed.
-/
theorem Keeps.since_cases {size : Nat} {log : Log α} {pushed : List α}
    (h : Keeps size log pushed) (hsize : 0 < size) {since : Nat}
    (hsince : since <= pushed.length) :
    (since = log.count ∧ pushed.drop since = []) ∨
    (since ≠ log.count ∧ exists first rest, log.kept = first :: rest ∧
      ((first.number > since + 1 ∧ size < pushed.length - since) ∨
        (¬ first.number > since + 1 ∧ pushed.length - since <= size ∧
          (newer since log.kept).map Numbered.item =
            (pushed.drop since).reverse))) := by
  by_cases hnow : since = log.count
  · apply Or.inl
    apply And.intro hnow
    rw [hnow, h.count, List.drop_length]
  · apply Or.inr
    apply And.intro hnow
    rw [h.count] at hnow
    have hnonempty : pushed.drop (pushed.length - size) ≠ [] := by
      rw [Ne, List.drop_eq_nil_iff]
      omega
    rcases List.exists_cons_of_ne_nil hnonempty with ⟨item, rest, hdrop⟩
    refine ⟨Numbered.mk (pushed.length - size + 1) item,
      numberFrom (pushed.length - size + 1) rest, ?_, ?_⟩
    · rw [h.kept, hdrop, numberFrom]
    · by_cases hroom : pushed.length - since <= size
      · apply Or.inr
        refine ⟨?_, hroom, newer_eq h hsince hroom⟩
        show ¬ pushed.length - size + 1 > since + 1
        omega
      · apply Or.inl
        apply And.intro _ (Nat.lt_of_not_le hroom)
        show pushed.length - size + 1 > since + 1
        omega

end BoundedLog

end Foundation
end RestCache
