import Mathlib.Data.List.Basic

/-!
# Unique decodability

Two ways a concatenation can be taken apart again in exactly one way: a
separator that does not occur in one of the parts, and a prefix-free code.  A
list of pairs written with two separators, whose second parts may contain one
of them, needs both.
-/

namespace RestCache
namespace Foundation

namespace UniqueDecoding

variable {α β : Type _}

/-!
## Separators
-/

theorem split_first {a : α} {xs ys u v : List α}
    (hxs : a ∉ xs) (hys : a ∉ ys)
    (h : xs ++ a :: u = ys ++ a :: v) : xs = ys ∧ u = v := by
  induction xs generalizing ys with
  | nil =>
      cases ys with
      | nil =>
          injection h with _ huv
          exact ⟨rfl, huv⟩
      | cons y ys =>
          injection h with hy _
          exact absurd (by simp [hy]) hys
  | cons x xs ih =>
      cases ys with
      | nil =>
          injection h with hx _
          exact absurd (by simp [hx]) hxs
      | cons y ys =>
          injection h with hxy htail
          have hxs' : a ∉ xs := fun hmem => hxs (List.mem_cons_of_mem x hmem)
          have hys' : a ∉ ys := fun hmem => hys (List.mem_cons_of_mem y hmem)
          rcases ih hxs' hys' htail with ⟨hrest, huv⟩
          exact ⟨by rw [hxy, hrest], huv⟩

theorem split_last {a : α} {xs ys u v : List α}
    (hu : a ∉ u) (hv : a ∉ v)
    (h : xs ++ a :: u = ys ++ a :: v) : xs = ys ∧ u = v := by
  have hrev : u.reverse ++ a :: xs.reverse = v.reverse ++ a :: ys.reverse := by
    simpa using congrArg List.reverse h
  have hu' : a ∉ u.reverse := by
    simpa using hu
  have hv' : a ∉ v.reverse := by
    simpa using hv
  rcases split_first hu' hv' hrev with ⟨huv, hxy⟩
  exact ⟨List.reverse_injective hxy, List.reverse_injective huv⟩

/-!
## Prefix-free codes
-/

/-- No code word is the beginning of another one's text. -/
def PrefixFree (code : α -> List β) : Prop :=
  forall a b u v, code a ++ u = code b ++ v -> a = b

theorem prefixFree_cancel {code : α -> List β} (hcode : PrefixFree code)
    {a b : α} {u v : List β} (h : code a ++ u = code b ++ v) :
    a = b ∧ u = v := by
  have hab := hcode a b u v h
  subst hab
  exact ⟨rfl, List.append_cancel_left h⟩

/-- A coded text that ends at the first `stop` outside a code word. -/
theorem flatMap_stop_inj {code : α -> List β} {stop : β}
    (hcode : PrefixFree code)
    (hstop : forall a u, (code a ++ u).head? ≠ some stop)
    {xs ys : List α} {u v : List β}
    (h : xs.flatMap code ++ stop :: u = ys.flatMap code ++ stop :: v) :
    xs = ys ∧ u = v := by
  induction xs generalizing ys with
  | nil =>
      cases ys with
      | nil =>
          injection h with _ huv
          exact ⟨rfl, huv⟩
      | cons y ys =>
          have hhead := hstop y (ys.flatMap code ++ stop :: v)
          rw [List.flatMap_cons, List.append_assoc] at h
          rw [← h] at hhead
          exact absurd rfl hhead
  | cons x xs ih =>
      cases ys with
      | nil =>
          have hhead := hstop x (xs.flatMap code ++ stop :: u)
          rw [List.flatMap_cons, List.append_assoc] at h
          rw [h] at hhead
          exact absurd rfl hhead
      | cons y ys =>
          simp only [List.flatMap_cons, List.append_assoc] at h
          rcases prefixFree_cancel hcode h with ⟨hxy, htail⟩
          rcases ih htail with ⟨hrest, huv⟩
          exact ⟨by rw [hxy, hrest], huv⟩

/-!
## Joined texts
-/

theorem mem_intercalate {sep a : α} {parts : List (List α)}
    (h : a ∈ [sep].intercalate parts) :
    a = sep ∨ exists part, part ∈ parts ∧ a ∈ part := by
  rcases List.mem_flatten.mp h with ⟨piece, hpiece, ha⟩
  induction parts with
  | nil => simp at hpiece
  | cons p rest ih =>
      cases rest with
      | nil =>
          simp only [List.intersperse_singleton, List.mem_cons,
            List.not_mem_nil, or_false] at hpiece
          exact Or.inr ⟨p, List.mem_cons_self, hpiece ▸ ha⟩
      | cons q rest =>
          simp only [List.intersperse_cons_cons, List.mem_cons] at hpiece
          rcases hpiece with hpiece | hpiece | hpiece
          · exact Or.inr ⟨p, List.mem_cons_self, hpiece ▸ ha⟩
          · rw [hpiece] at ha
            exact Or.inl (by simpa using ha)
          · have hmem : a ∈ [sep].intercalate (q :: rest) :=
              List.mem_flatten.mpr ⟨piece, hpiece, ha⟩
            rcases ih hmem hpiece with hsep | ⟨part, hpart, hin⟩
            · exact Or.inl hsep
            · exact Or.inr ⟨part, List.mem_cons_of_mem p hpart, hin⟩

theorem mem_intercalate_of_mem {sep a : α} {part : List α}
    {parts : List (List α)} (hpart : part ∈ parts) (ha : a ∈ part) :
    a ∈ [sep].intercalate parts := by
  induction parts with
  | nil => simp at hpart
  | cons p rest ih =>
      cases rest with
      | nil =>
          have hp : part = p := by simpa using hpart
          simpa [List.intercalate, hp] using hp ▸ ha
      | cons q rest =>
          rcases List.mem_cons.mp hpart with hp | hp
          · simp [List.intercalate, ← hp, ha]
          · have hrest := ih hp
            simp only [List.intercalate, List.intersperse_cons_cons,
              List.flatten_cons, List.mem_append]
            exact Or.inr (Or.inr hrest)

/-!
## Lists of pairs

`assign` closes a name and `sep` separates pairs.  A name contains neither; a
value may contain `sep`, because every name starts after the last `sep` before
its `assign`.
-/

def pairText (assign : α) (p : List α × List α) : List α :=
  p.1 ++ assign :: p.2

def joinPairs (assign sep : α) (ps : List (List α × List α)) : List α :=
  [sep].intercalate (ps.map (pairText assign))

theorem joinPairs_nil (assign sep : α) :
    joinPairs assign sep ([] : List (List α × List α)) = [] :=
  rfl

theorem joinPairs_single (assign sep : α) (p : List α × List α) :
    joinPairs assign sep [p] = p.1 ++ assign :: p.2 := by
  simp [joinPairs, pairText, List.intercalate]

theorem joinPairs_cons (assign sep : α) (p q : List α × List α)
    (rest : List (List α × List α)) :
    joinPairs assign sep (p :: q :: rest) =
      p.1 ++ assign :: (p.2 ++ sep :: joinPairs assign sep (q :: rest)) := by
  simp [joinPairs, pairText, List.intercalate]

theorem joinPairs_head (assign sep : α) (p : List α × List α)
    (rest : List (List α × List α)) :
    exists tail, joinPairs assign sep (p :: rest) = p.1 ++ assign :: tail := by
  cases rest with
  | nil => exact ⟨p.2, joinPairs_single assign sep p⟩
  | cons q rest => exact ⟨_, joinPairs_cons assign sep p q rest⟩

def CleanPair (assign sep : α) (p : List α × List α) : Prop :=
  assign ∉ p.1 ∧ sep ∉ p.1 ∧ assign ∉ p.2

theorem clean_ne_joined {assign sep : α} {p : List α × List α}
    (hp : CleanPair assign sep p) (value : List α) (q : List α × List α)
    (rest : List (List α × List α)) :
    p.2 ≠ value ++ sep :: joinPairs assign sep (q :: rest) := by
  intro hvalue
  rcases joinPairs_head assign sep q rest with ⟨tail, htail⟩
  rw [htail] at hvalue
  exact hp.right.right (by simp [hvalue])

/-- A value ends at the last `sep` before the next `assign`. -/
theorem joinPairs_cut {assign sep : α} (hne : assign ≠ sep)
    {v w : List α} (hv : assign ∉ v) (hw : assign ∉ w)
    {p q : List α × List α} (hp : CleanPair assign sep p)
    (hq : CleanPair assign sep q) {ps qs : List (List α × List α)}
    (h : v ++ sep :: joinPairs assign sep (p :: ps) =
      w ++ sep :: joinPairs assign sep (q :: qs)) :
    v = w ∧ joinPairs assign sep (p :: ps) = joinPairs assign sep (q :: qs) := by
  rcases joinPairs_head assign sep p ps with ⟨ptail, hptail⟩
  rcases joinPairs_head assign sep q qs with ⟨qtail, hqtail⟩
  have hcut : (v ++ sep :: p.1) ++ assign :: ptail =
      (w ++ sep :: q.1) ++ assign :: qtail := by
    rw [hptail, hqtail] at h
    simpa using h
  have hpcut : assign ∉ v ++ sep :: p.1 := by
    simp [hv, hne, hp.left]
  have hqcut : assign ∉ w ++ sep :: q.1 := by
    simp [hw, hne, hq.left]
  rcases split_first hpcut hqcut hcut with ⟨hleft, htails⟩
  rcases split_last hp.right.left hq.right.left hleft with ⟨hvalue, hname⟩
  exact ⟨hvalue, by rw [hptail, hqtail, hname, htails]⟩

theorem joinPairs_inj {assign sep : α} (hne : assign ≠ sep)
    {ps qs : List (List α × List α)}
    (hps : forall p, p ∈ ps -> CleanPair assign sep p)
    (hqs : forall q, q ∈ qs -> CleanPair assign sep q)
    (h : joinPairs assign sep ps = joinPairs assign sep qs) : ps = qs := by
  induction ps generalizing qs with
  | nil =>
      cases qs with
      | nil => rfl
      | cons q qs =>
          rcases joinPairs_head assign sep q qs with ⟨tail, htail⟩
          rw [htail, joinPairs_nil] at h
          simp at h
  | cons p ps ih =>
      cases qs with
      | nil =>
          rcases joinPairs_head assign sep p ps with ⟨tail, htail⟩
          rw [htail, joinPairs_nil] at h
          simp at h
      | cons q qs =>
          have hp := hps p List.mem_cons_self
          have hq := hqs q List.mem_cons_self
          cases ps with
          | nil =>
              cases qs with
              | nil =>
                  rw [joinPairs_single, joinPairs_single] at h
                  rcases split_first hp.left hq.left h with ⟨hname, hvalue⟩
                  rw [Prod.ext hname hvalue]
              | cons q' qs =>
                  rw [joinPairs_single, joinPairs_cons] at h
                  rcases split_first hp.left hq.left h with ⟨_, hvalue⟩
                  exact absurd hvalue (clean_ne_joined hp q.2 q' qs)
          | cons p' ps =>
              cases qs with
              | nil =>
                  rw [joinPairs_single, joinPairs_cons] at h
                  rcases split_first hp.left hq.left h with ⟨_, hvalue⟩
                  exact absurd hvalue.symm (clean_ne_joined hq p.2 p' ps)
              | cons q' qs =>
                  rw [joinPairs_cons, joinPairs_cons] at h
                  rcases split_first hp.left hq.left h with ⟨hname, hrest⟩
                  rcases joinPairs_cut hne hp.right.right hq.right.right
                    (hps p' (by simp)) (hqs q' (by simp)) hrest with
                    ⟨hvalue, hjoin⟩
                  have htail := ih
                    (fun r hr => hps r (List.mem_cons_of_mem p hr))
                    (fun r hr => hqs r (List.mem_cons_of_mem q hr)) hjoin
                  rw [Prod.ext hname hvalue, htail]

theorem not_mem_joinPairs {assign sep a : α}
    {ps : List (List α × List α)} (hassign : a ≠ assign) (hsep : a ≠ sep)
    (h : forall p, p ∈ ps -> a ∉ p.1 ∧ a ∉ p.2) :
    a ∉ joinPairs assign sep ps := by
  intro hmem
  rcases mem_intercalate hmem with ha | ⟨text, htext, ha⟩
  · exact hsep ha
  · rcases List.mem_map.mp htext with ⟨p, hp, rfl⟩
    rcases List.mem_append.mp ha with hname | hrest
    · exact (h p hp).left hname
    · rcases List.mem_cons.mp hrest with heq | hvalue
      · exact hassign heq
      · exact (h p hp).right hvalue

end UniqueDecoding

end Foundation
end RestCache
