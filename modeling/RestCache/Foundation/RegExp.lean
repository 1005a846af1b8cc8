import RestCache.Foundation.UriComponent

/-!
# Regular expressions

The patterns a JavaScript regular expression without back references compiles
to, what it means for one to match a part of a text between a left and a right
context, and the matcher behind `RegExp.prototype.test`.  Texts are over the
basic plane, where a character is one code unit.
-/

namespace RestCache
namespace Foundation

inductive Pattern where
  | empty
  | char (accepts : Char -> Bool)
  | start
  | stop
  | boundary (negated : Bool)
  | look (negated : Bool) (p : Pattern)
  | seq (p q : Pattern)
  | alt (p q : Pattern)
  | star (p : Pattern)

namespace Pattern

def isWordChar (c : Char) : Bool :=
  c.isAlphanum || c = '_'

def atWordBoundary (before after : JsString) : Bool :=
  before.getLast?.any isWordChar != after.head?.any isWordChar

/-!
## Meaning
-/

/-- A chain of non-empty matches, as an iteration takes them. -/
inductive Iterated (one : JsString -> JsString -> JsString -> Prop) :
    JsString -> JsString -> JsString -> Prop where
  | done (before after : JsString) : Iterated one before [] after
  | more {before x y after : JsString} :
      x ≠ [] -> one before x (y ++ after) ->
      Iterated one (before ++ x) y after -> Iterated one before (x ++ y) after

/-- The pattern matches `mid` where it stands between `before` and `after`. -/
def Matches : Pattern -> JsString -> JsString -> JsString -> Prop
  | empty, _, mid, _ => mid = []
  | char accepts, _, mid, _ => exists c, mid = [c] ∧ accepts c = true
  | start, before, mid, _ => mid = [] ∧ before = []
  | stop, _, mid, after => mid = [] ∧ after = []
  | boundary negated, before, mid, after =>
      mid = [] ∧ atWordBoundary before after = !negated
  | look negated p, before, mid, after =>
      mid = [] ∧
        ((exists x y, after = x ++ y ∧ Matches p before x y) <->
          negated = false)
  | seq p q, before, mid, after =>
      exists x y, mid = x ++ y ∧ Matches p before x (y ++ after) ∧
        Matches q (before ++ x) y after
  | alt p q, before, mid, after =>
      Matches p before mid after ∨ Matches q before mid after
  | star p, before, mid, after => Iterated (Matches p) before mid after

/-!
## The matcher
-/

def iterate (one : JsString -> JsString -> List (JsString × JsString)) :
    Nat -> JsString -> JsString -> List (JsString × JsString)
  | 0, before, after => [(before, after)]
  | fuel + 1, before, after =>
      (before, after) ::
        ((one before after).filter
          (fun z => z.2.length < after.length)).flatMap
          (fun z => iterate one fuel z.1 z.2)

/-- The positions a match that starts at this position can end at. -/
def ends : Pattern -> JsString -> JsString -> List (JsString × JsString)
  | empty, before, after => [(before, after)]
  | char _, _, [] => []
  | char accepts, before, c :: after =>
      if accepts c then [(before ++ [c], after)] else []
  | start, before, after => if before = [] then [(before, after)] else []
  | stop, before, after => if after = [] then [(before, after)] else []
  | boundary negated, before, after =>
      if atWordBoundary before after = !negated then [(before, after)] else []
  | look negated p, before, after =>
      if (ends p before after).isEmpty = negated then [(before, after)] else []
  | seq p q, before, after =>
      (ends p before after).flatMap fun z => ends q z.1 z.2
  | alt p q, before, after => ends p before after ++ ends q before after
  | star p, before, after => iterate (ends p) after.length before after

def search (p : Pattern) : JsString -> JsString -> Bool
  | before, [] => !(ends p before []).isEmpty
  | before, c :: after =>
      !(ends p before (c :: after)).isEmpty || search p (before ++ [c]) after

def test (p : Pattern) (text : JsString) : Bool :=
  search p [] text

/-!
## The matcher finds exactly the matches
-/

def Exact (one : JsString -> JsString -> List (JsString × JsString))
    (p : JsString -> JsString -> JsString -> Prop) : Prop :=
  forall before after b a, (b, a) ∈ one before after <->
    exists mid, after = mid ++ a ∧ b = before ++ mid ∧ p before mid a

theorem iterate_sound {one : JsString -> JsString -> List (JsString × JsString)}
    {p : JsString -> JsString -> JsString -> Prop} (hone : Exact one p)
    {fuel : Nat} {before after b a : JsString}
    (h : (b, a) ∈ iterate one fuel before after) :
    exists mid, after = mid ++ a ∧ b = before ++ mid ∧
      Iterated p before mid a := by
  induction fuel generalizing before after with
  | zero =>
      simp only [iterate, List.mem_cons, List.not_mem_nil, or_false,
        Prod.mk.injEq] at h
      exact ⟨[], by simp [h.right], by simp [h.left], Iterated.done before a⟩
  | succ fuel ih =>
      simp only [iterate, List.mem_cons, Prod.mk.injEq, List.mem_flatMap,
        List.mem_filter] at h
      rcases h with h | ⟨z, ⟨hz, hshort⟩, htail⟩
      · exact ⟨[], by simp [h.right], by simp [h.left], Iterated.done before a⟩
      · rcases (hone before after z.1 z.2).mp hz with ⟨x, hafter, hz1, hx⟩
        rcases ih htail with ⟨y, hz2, hb, hy⟩
        have hne : x ≠ [] := by
          intro hgiven
          subst hgiven
          rw [hafter] at hshort
          simp at hshort
        refine ⟨x ++ y, ?_, ?_, ?_⟩
        · rw [hafter, hz2, List.append_assoc]
        · rw [hb, hz1, List.append_assoc]
        · rw [hz2] at hx
          rw [hz1] at hy
          exact Iterated.more hne hx hy

theorem iterate_complete
    {one : JsString -> JsString -> List (JsString × JsString)}
    {p : JsString -> JsString -> JsString -> Prop} (hone : Exact one p)
    {fuel : Nat} {before mid a : JsString} (h : Iterated p before mid a)
    (hfuel : mid.length ≤ fuel) :
    (before ++ mid, a) ∈ iterate one fuel before (mid ++ a) := by
  induction h generalizing fuel with
  | done before after =>
      cases fuel with
      | zero => simp [iterate]
      | succ fuel => simp [iterate]
  | more hne hx htail ih =>
      rename_i before x y after
      have hpos : 0 < x.length := List.length_pos_iff.mpr hne
      cases fuel with
      | zero =>
          rw [List.length_append] at hfuel
          exact absurd hfuel (by omega)
      | succ fuel =>
          have hstep : (before ++ x, y ++ after) ∈
              one before ((x ++ y) ++ after) :=
            (hone _ _ _ _).mpr ⟨x, by simp, rfl, hx⟩
          have hrest := @ih fuel (by
            rw [List.length_append] at hfuel
            omega)
          simp only [iterate, List.mem_cons, List.mem_flatMap,
            List.mem_filter]
          refine Or.inr ⟨(before ++ x, y ++ after), ⟨hstep, ?_⟩, ?_⟩
          · simpa using hpos
          · simpa using hrest

/-- What consumes nothing: a check of the two sides of the position. -/
theorem exact_assertion {holds : JsString -> JsString -> Prop}
    {one : JsString -> JsString -> List (JsString × JsString)}
    (hyes : forall before after, holds before after ->
      one before after = [(before, after)])
    (hno : forall before after, ¬ holds before after -> one before after = []) :
    Exact one (fun before mid after => mid = [] ∧ holds before after) := by
  intro before after b a
  by_cases hholds : holds before after
  · rw [hyes before after hholds, List.mem_singleton, Prod.mk.injEq]
    constructor
    · intro hgiven
      rcases hgiven with ⟨rfl, rfl⟩
      exact ⟨[], rfl, (List.append_nil b).symm, rfl, hholds⟩
    · intro hgiven
      rcases hgiven with ⟨mid, hafter, hb, rfl, _⟩
      exact ⟨hb.trans (List.append_nil before), hafter.symm⟩
  · rw [hno before after hholds]
    constructor
    · exact fun hmem => absurd hmem List.not_mem_nil
    · intro hgiven
      rcases hgiven with ⟨mid, hafter, _, rfl, hmatch⟩
      rw [List.nil_append] at hafter
      rw [hafter] at hholds
      exact absurd hmatch hholds

theorem exact_char (accepts : Char -> Bool) :
    Exact (ends (char accepts)) (Matches (char accepts)) := by
  intro before after b a
  cases after with
  | nil => simp [ends, Matches]
  | cons c after =>
      cases hc : accepts c with
      | false =>
          simp only [ends, hc, Bool.false_eq_true, if_false, List.not_mem_nil,
            Matches, false_iff]
          intro hgiven
          rcases hgiven with ⟨mid, hafter, _, d, rfl, hd⟩
          injection hafter with hcd _
          rw [← hcd, hc] at hd
          exact absurd hd (by decide)
      | true =>
          simp only [ends, hc, if_true, List.mem_cons, List.not_mem_nil,
            or_false, Prod.mk.injEq, Matches]
          constructor
          · intro hgiven
            rcases hgiven with ⟨rfl, rfl⟩
            exact ⟨[c], rfl, rfl, c, rfl, hc⟩
          · intro hgiven
            rcases hgiven with ⟨mid, hafter, hb, d, rfl, _⟩
            injection hafter with hcd ha
            exact ⟨by rw [hb, hcd], ha.symm⟩

theorem ends_isEmpty {p : Pattern} (h : Exact (ends p) (Matches p))
    (before after : JsString) (negated : Bool) :
    (ends p before after).isEmpty = negated <->
      ((exists x y, after = x ++ y ∧ Matches p before x y) <->
        negated = false) := by
  have hsome : (ends p before after).isEmpty = false <->
      exists x y, after = x ++ y ∧ Matches p before x y := by
    rw [List.isEmpty_eq_false_iff_exists_mem]
    constructor
    · intro hgiven
      rcases hgiven with ⟨z, hz⟩
      rcases (h before after z.1 z.2).mp hz with ⟨x, hafter, _, hx⟩
      exact ⟨x, z.2, hafter, hx⟩
    · intro hgiven
      rcases hgiven with ⟨x, y, hafter, hx⟩
      exact ⟨(before ++ x, y), (h _ _ _ _).mpr ⟨x, hafter, rfl, hx⟩⟩
  rw [← hsome]
  cases (ends p before after).isEmpty <;> cases negated <;> simp

theorem exact_seq {p q : Pattern} (hp : Exact (ends p) (Matches p))
    (hq : Exact (ends q) (Matches q)) :
    Exact (ends (seq p q)) (Matches (seq p q)) := by
  intro before after b a
  simp only [ends, List.mem_flatMap, Matches]
  constructor
  · intro hgiven
    rcases hgiven with ⟨z, hz, htail⟩
    rcases (hp before after z.1 z.2).mp hz with ⟨x, hafter, hz1, hx⟩
    rcases (hq z.1 z.2 b a).mp htail with ⟨y, hz2, hb, hy⟩
    rw [hz2] at hafter hx
    rw [hz1] at hb hy
    exact ⟨x ++ y, by simpa using hafter, by simpa using hb, x, y, rfl, hx, hy⟩
  · intro hgiven
    rcases hgiven with ⟨mid, hafter, hb, x, y, rfl, hx, hy⟩
    refine ⟨(before ++ x, y ++ a), ?_, ?_⟩
    · exact (hp _ _ _ _).mpr ⟨x, by simpa using hafter, rfl, hx⟩
    · exact (hq _ _ _ _).mpr ⟨y, rfl, by simpa using hb, hy⟩

theorem exact_alt {p q : Pattern} (hp : Exact (ends p) (Matches p))
    (hq : Exact (ends q) (Matches q)) :
    Exact (ends (alt p q)) (Matches (alt p q)) := by
  intro before after b a
  simp only [ends, List.mem_append, hp before after b a, hq before after b a,
    Matches]
  constructor
  · intro hgiven
    rcases hgiven with ⟨mid, hafter, hb, h⟩ | ⟨mid, hafter, hb, h⟩
    · exact ⟨mid, hafter, hb, Or.inl h⟩
    · exact ⟨mid, hafter, hb, Or.inr h⟩
  · intro hgiven
    rcases hgiven with ⟨mid, hafter, hb, h | h⟩
    · exact Or.inl ⟨mid, hafter, hb, h⟩
    · exact Or.inr ⟨mid, hafter, hb, h⟩

theorem ends_exact (p : Pattern) : Exact (ends p) (Matches p) := by
  induction p with
  | empty =>
      intro before after b a
      simp [ends, Matches, eq_comm, and_comm]
  | char accepts => exact exact_char accepts
  | start =>
      exact @exact_assertion (fun before _ => before = []) (ends start)
        (fun _ _ h => if_pos h) (fun _ _ h => if_neg h)
  | stop =>
      exact @exact_assertion (fun _ after => after = []) (ends stop)
        (fun _ _ h => if_pos h) (fun _ _ h => if_neg h)
  | boundary negated =>
      exact @exact_assertion
        (fun before after => atWordBoundary before after = !negated)
        (ends (boundary negated)) (fun _ _ h => if_pos h) (fun _ _ h => if_neg h)
  | look negated p ih =>
      exact @exact_assertion
        (fun before after =>
          (exists x y, after = x ++ y ∧ Matches p before x y) <->
            negated = false)
        (ends (look negated p))
        (fun before after h =>
          if_pos ((ends_isEmpty ih before after negated).mpr h))
        (fun before after h =>
          if_neg (fun hempty =>
            h ((ends_isEmpty ih before after negated).mp hempty)))
  | seq p q ihp ihq => exact exact_seq ihp ihq
  | alt p q ihp ihq => exact exact_alt ihp ihq
  | star p ih =>
      intro before after b a
      constructor
      · exact iterate_sound ih
      · intro hgiven
        rcases hgiven with ⟨mid, rfl, rfl, h⟩
        exact iterate_complete ih h (by simp)

def Occurs (p : Pattern) (text : JsString) : Prop :=
  exists before mid after,
    text = before ++ (mid ++ after) ∧ Matches p before mid after

theorem search_iff {p : Pattern} {before after : JsString} :
    search p before after = true <->
      exists skipped mid rest, after = skipped ++ (mid ++ rest) ∧
        Matches p (before ++ skipped) mid rest := by
  have hhere : forall before after : JsString,
      (!(ends p before after).isEmpty) = true <->
        exists mid rest, after = mid ++ rest ∧ Matches p before mid rest := by
    intro before after
    rw [Bool.not_eq_true', List.isEmpty_eq_false_iff_exists_mem]
    constructor
    · intro hgiven
      rcases hgiven with ⟨z, hz⟩
      rcases (ends_exact p before after z.1 z.2).mp hz with ⟨mid, h, _, hm⟩
      exact ⟨mid, z.2, h, hm⟩
    · intro hgiven
      rcases hgiven with ⟨mid, rest, h, hm⟩
      exact ⟨(before ++ mid, rest),
        (ends_exact p _ _ _ _).mpr ⟨mid, h, rfl, hm⟩⟩
  induction after generalizing before with
  | nil =>
      rw [search, hhere]
      constructor
      · intro hgiven
        rcases hgiven with ⟨mid, rest, h, hm⟩
        exact ⟨[], mid, rest, h, by simpa using hm⟩
      · intro hgiven
        rcases hgiven with ⟨skipped, mid, rest, h, hm⟩
        have hnil : skipped = [] := (List.append_eq_nil_iff.mp h.symm).left
        subst hnil
        exact ⟨mid, rest, h, by simpa using hm⟩
  | cons c after ih =>
      have hlater : search p (before ++ [c]) after = true <->
          exists skipped mid rest, after = skipped ++ (mid ++ rest) ∧
            Matches p ((before ++ [c]) ++ skipped) mid rest := ih
      rw [search, Bool.or_eq_true, hhere, hlater]
      constructor
      · intro hgiven
        rcases hgiven with ⟨mid, rest, h, hm⟩ | ⟨skipped, mid, rest, h, hm⟩
        · exact ⟨[], mid, rest, h, by simpa using hm⟩
        · exact ⟨c :: skipped, mid, rest, by rw [h]; rfl, by simpa using hm⟩
      · intro hgiven
        rcases hgiven with ⟨skipped, mid, rest, h, hm⟩
        cases skipped with
        | nil => exact Or.inl ⟨mid, rest, h, by simpa using hm⟩
        | cons d skipped =>
            injection h with hcd h
            subst hcd
            exact Or.inr ⟨skipped, mid, rest, h, by simpa using hm⟩

theorem test_iff {p : Pattern} {text : JsString} :
    test p text = true <-> Occurs p text :=
  search_iff

end Pattern

end Foundation
end RestCache
